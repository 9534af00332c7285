import Monary.Cmonary.Clean

/-!
# The loop that counts characters

* `LeadsToNul` : bytes that begin with groups as long as their lead bytes announce, and a NUL behind them;
  `charsEnd_iff` : the jumps of the loop come to a NUL exactly on these;
* `CharLoopBounded` : the loop over the payload of a string ends, with no more turns than the payload has bytes
  and without a byte from outside it;
* `charLoopBounded_iff` : this is so exactly when the payload leads to a NUL. A stray continuation byte
  keeps the loop where it is, and a lead byte just before the terminator takes it out of the payload.
-/

namespace Monary
open ByteSeq CInt

/-- Groups of bytes, each as long as its first byte announces, and a NUL behind them. -/
def LeadsToNul (p : Bytes) : Prop :=
  ∃ (groups : List Bytes) (rest : Bytes), p = groups.flatten ++ 0 :: rest ∧
    ∀ g ∈ groups, ∃ c, g.head? = some c ∧ c ≠ 0 ∧ g.length = utf8Sequence c

theorem CharsEnd.ne_nil {p : Bytes} (h : CharsEnd p) : p ≠ [] := by
  rcases h with _ | _ <;> exact List.cons_ne_nil _ _

theorem LeadsToNul.charsEnd {p : Bytes} (h : LeadsToNul p) : CharsEnd p := by
  obtain ⟨groups, rest, rfl, hg⟩ := h
  induction groups with
  | nil => exact .nul rest
  | cons g groups ih =>
    obtain ⟨c, hc, hne, hlen⟩ := hg g List.mem_cons_self
    rcases g with _ | ⟨x, g⟩
    · cases hc
    · obtain rfl : x = c := Option.some.inj hc
      have ih := ih fun g' hg' => hg g' (List.mem_cons_of_mem _ hg')
      have hseq : utf8Sequence x ≠ 0 := by
        rw [← hlen]
        exact Nat.succ_ne_zero _
      have hnext : bsonUtf8NextChar (x :: (g ++ (groups.flatten ++ 0 :: rest))) = groups.flatten ++ 0 :: rest := by
        rw [bsonUtf8NextChar, ← hlen, ← List.cons_append]
        exact List.drop_left' rfl
      rw [List.flatten_cons, List.append_assoc, List.cons_append]
      refine .next x _ hne hseq ?_
      rw [hnext]
      exact ih

theorem CharsEnd.leadsToNul {p : Bytes} (h : CharsEnd p) : LeadsToNul p := by
  induction h with
  | nul p => exact ⟨[], p, rfl, nofun⟩
  | next c p hc hn h ih =>
    obtain ⟨groups, rest, hp, hg⟩ := ih
    have hlt : utf8Sequence c < (c :: p).length := by
      by_contra hge
      refine h.ne_nil ?_
      rw [bsonUtf8NextChar]
      exact List.drop_of_length_le (by omega)
    refine ⟨(c :: p).take (utf8Sequence c) :: groups, rest, ?_, ?_⟩
    · rw [List.flatten_cons, List.append_assoc, ← hp, bsonUtf8NextChar, List.take_append_drop]
    · intro g hmem
      rcases List.mem_cons.mp hmem with rfl | hmem
      · refine ⟨c, ?_, hc, ?_⟩
        · obtain ⟨k, hk⟩ := Nat.exists_eq_succ_of_ne_zero hn
          rw [hk, List.take_succ_cons, List.head?_cons]
        · rw [List.length_take]
          omega
      · exact hg g hmem

theorem charsEnd_iff {p : Bytes} : CharsEnd p ↔ LeadsToNul p := ⟨CharsEnd.leadsToNul, LeadsToNul.charsEnd⟩

/-! ## The loop -/

/-- The loop turns less often than there are bytes. -/
theorem charLoop_lt {n : Nat} {p : Bytes} {k l : Nat} (h : charLoop n p k = .ok l) : l < k + p.length := by
  induction n generalizing p k with
  | zero => cases h
  | succ n ih =>
    rcases p with _ | ⟨c, p⟩
    · cases h
    · rw [charLoop] at h
      rw [List.length_cons]
      by_cases hc : c = 0
      · rw [if_pos hc] at h
        cases h
        omega
      · rw [if_neg hc] at h
        by_cases hs : utf8Sequence c = 0
        · rw [if_pos hs] at h
          cases h
        · rw [if_neg hs] at h
          have := ih h
          have := length_bsonUtf8NextChar (p := p) hs
          omega

/-- Bytes behind those the loop reads do not matter. -/
theorem charLoop_append {n m : Nat} {p : Bytes} {k l : Nat} (h : charLoop n p k = .ok l) (hm : n ≤ m) (q : Bytes) :
    charLoop m (p ++ q) k = .ok l := by
  induction n generalizing m p k with
  | zero => cases h
  | succ n ih =>
    obtain ⟨m, rfl⟩ := Nat.exists_eq_add_of_le' (show 1 ≤ m by omega)
    rcases p with _ | ⟨c, p⟩
    · cases h
    · rw [charLoop] at h
      rw [List.cons_append, charLoop]
      by_cases hc : c = 0
      · rw [if_pos hc] at h ⊢
        exact h
      · rw [if_neg hc] at h ⊢
        by_cases hs : utf8Sequence c = 0
        · rw [if_pos hs] at h
          cases h
        · rw [if_neg hs] at h ⊢
          have hlt := charLoop_lt h
          have hnext : bsonUtf8NextChar (c :: (p ++ q)) = bsonUtf8NextChar (c :: p) ++ q := by
            have hle : utf8Sequence c ≤ (c :: p).length := by
              by_contra hge
              have hnil : bsonUtf8NextChar (c :: p) = [] := by
                rw [bsonUtf8NextChar]
                exact List.drop_of_length_le (by omega)
              rw [hnil] at h
              rcases n with _ | n <;> cases h
            rw [bsonUtf8NextChar, bsonUtf8NextChar, ← List.cons_append, List.drop_append_of_le_length hle]
          rw [hnext]
          exact ih h (by omega)

/-- The bytes of a string, with the NUL at their end. -/
def BsonIter.stringPayload (it : BsonIter) : Bytes := slice it.raw (it.d1 + 4) (it.uint32At it.d1)

/-- The loop over the string ends, the payload alone being enough for it, with at most as many turns as the
payload has bytes. -/
def CharLoopBounded (it : BsonIter) : Prop :=
  ∃ n discard, (bsonIterUtf8 it).1 = some discard ∧ n ≤ it.stringPayload.length ∧
    charLoop (it.stringPayload.length + 1) it.stringPayload 0 = .ok n ∧
    charLoop (discard.length + 1) discard 0 = .ok n

theorem charLoopBounded_of_charsEnd {e : Element} (hty : e.iter.bsonType = some .utf8)
    (h : CharsEnd e.iter.stringPayload) : CharLoopBounded e.iter := by
  obtain ⟨n, hn⟩ := charLoop_of_charsEnd h (Nat.lt_succ_self _) 0
  have hptr : e.iter.ptr e.iter.d2 = e.iter.stringPayload ++ e.iter.raw.drop (e.iter.d2 + e.iter.uint32At e.iter.d1) := by
    rw [BsonIter.stringPayload, ← (e.accepted.string (by simp [hty])).1, slice, BsonIter.ptr, ← List.drop_drop,
      List.take_append_drop]
  have hlt := charLoop_lt hn
  refine ⟨n, e.iter.ptr e.iter.d2, (congrArg Prod.fst (e.accepted.utf8 e.small hty).1), by omega, hn, ?_⟩
  rw [hptr]
  exact charLoop_append hn (by rw [List.length_append]; omega) _

/-- The loop is bounded exactly when the payload leads to a NUL. -/
theorem charLoopBounded_iff (e : Element) (hty : e.iter.bsonType = some .utf8) :
    CharLoopBounded e.iter ↔ LeadsToNul e.iter.stringPayload := by
  rw [← charsEnd_iff]
  constructor
  · rintro ⟨n, -, -, -, hn, -⟩
    exact charsEnd_of_charLoop hn
  · exact charLoopBounded_of_charsEnd hty

/-- `{"d": "\x80"}`, whose byte is no character. -/
def strayDocument : Bson := ⟨[14, 0, 0, 0, 2, 0x64, 0, 2, 0, 0, 0, 0x80, 0, 0], by decide⟩

/-- On a stray continuation byte the loop makes no step. -/
theorem not_forall_charLoopBounded :
    ¬ ∀ e : Element, e.iter.bsonType = some .utf8 → CharLoopBounded e.iter := by
  intro h
  obtain ⟨n, -, -, -, hn, -⟩ := h (.find strayDocument [0x64] rfl) (by decide)
  have hpayload : (Element.find strayDocument [0x64] rfl).iter.stringPayload = [0x80, 0] := by decide
  rw [hpayload] at hn
  cases hn

/-- `{"d": "é"}`. -/
def accentDocument : Bson := ⟨[15, 0, 0, 0, 2, 0x64, 0, 3, 0, 0, 0, 0xC3, 0xA9, 0, 0], by decide⟩

theorem charLoopBounded_accentDocument : CharLoopBounded (Element.find accentDocument [0x64] rfl).iter :=
  (charLoopBounded_iff _ (by decide)).mpr
    ⟨[[0xC3, 0xA9]], [], by decide, fun g hg => ⟨0xC3, by
      rw [List.mem_singleton.mp hg]
      decide⟩⟩

end Monary
