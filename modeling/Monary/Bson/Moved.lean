import Monary.Bson.Find

/-!
# A document at another place

A document reads the same wherever its bytes are: `bson_iter_next` looks at no byte behind the length of the
document.

* `BsonIter.moved` : an iterator over other memory; `bsonIterNext_moved`, `bsonIterElements_moved` : it makes the same
  steps where the bytes of the document are the same (`BsonIter.Agrees`);
* `SameValue` : elements of one type whose values are the same bytes; `recurse_sameValue` : a document or an array
  among them has one content at both places, and `findPath_moved` : so have its elements.
-/

namespace Monary
open ByteSeq

namespace BsonIter

/-- The iterator over other memory. -/
def moved (it : BsonIter) (raw : Bytes) : BsonIter := { it with raw := raw }

/-- The bytes of the document are the same in the other memory. -/
def Agrees (it : BsonIter) (raw : Bytes) : Prop := raw.take it.len = it.raw.take it.len

variable {it : BsonIter} {raw : Bytes}

theorem byte_moved (h : it.Agrees raw) {o : Nat} (ho : o < it.len) : (it.moved raw).byte o = it.byte o := by
  have hget : raw[o]? = it.raw[o]? := by
    rw [← List.getElem?_take_of_lt ho, h, List.getElem?_take_of_lt ho]
  show raw.getD o 0 = it.raw.getD o 0
  rw [List.getD_eq_getElem?_getD, hget, List.getD_eq_getElem?_getD]

theorem slice_agrees (h : it.Agrees raw) {o n : Nat} (ho : o + n ≤ it.len) : slice raw o n = slice it.raw o n := by
  apply List.ext_getElem?
  intro i
  rw [getElem?_slice, getElem?_slice]
  by_cases hi : i < n
  · rw [if_pos hi, if_pos hi, ← List.getElem?_take_of_lt (show o + i < it.len by omega), h,
      List.getElem?_take_of_lt (by omega)]
  · rw [if_neg hi, if_neg hi]

theorem uint32At_moved (h : it.Agrees raw) {o : Nat} (ho : o + 4 ≤ it.len) :
    (it.moved raw).uint32At o = it.uint32At o := by
  unfold uint32At
  exact congrArg leNat (slice_agrees h ho)

/-- The length at the start of a value. -/
theorem uint32At_d1_moved (h : it.Agrees raw) {o : Nat} (hd : it.d1 = o) (ho : o + 4 ≤ it.len) :
    (it.moved raw).uint32At (it.moved raw).d1 = it.uint32At it.d1 := by
  subst hd
  exact uint32At_moved h ho

theorem Agrees.fits (h : it.Agrees raw) (hf : it.Fits) : (it.moved raw).Fits := by
  have hlen := congrArg List.length h
  rw [List.length_take, List.length_take] at hlen
  unfold Fits at hf ⊢
  show it.len ≤ raw.length
  omega

end BsonIter

/-! ## The steps -/

section Steps
variable {it : BsonIter} {raw : Bytes} {o : Nat}

theorem scanNul_moved (h : it.Agrees raw) {n : Nat} (hn : n ≤ it.len - o) :
    scanNul raw o n = scanNul it.raw o n := by
  induction n generalizing o with
  | zero => rfl
  | succ n ih =>
    have hb : raw.getD o 0 = it.raw.getD o 0 := it.byte_moved h (by omega)
    rw [scanNul, scanNul, hb, ih (by omega)]

/-- The scan over what is left of the document. -/
theorem scanNul_moved_len (h : it.Agrees raw) (o : Nat) :
    scanNul (it.moved raw).raw o ((it.moved raw).len - o) = scanNul it.raw o (it.len - o) :=
  scanNul_moved h (le_refl _)

theorem fillString_moved (h : it.Agrees raw) (hd : it.d1 = o) :
    fillString (it.moved raw) o = (fillString it o).map (·.moved raw) := by
  unfold fillString
  show (if o + 4 ≥ it.len then _ else _) = _
  by_cases h4 : o + 4 ≥ it.len
  · rw [if_pos h4, if_pos h4]
    rfl
  · rw [if_neg h4, if_neg h4]
    have hl := it.uint32At_d1_moved h hd (by omega)
    dsimp only
    rw [hl]
    show (if it.uint32At it.d1 > it.len - (o + 4) then _ else if it.uint32At it.d1 = 0 ∨
      o + 4 + it.uint32At it.d1 ≥ it.len then _ else _) = _
    by_cases h5 : it.uint32At it.d1 > it.len - (o + 4)
    · rw [if_pos h5, if_pos h5]
      rfl
    · rw [if_neg h5, if_neg h5]
      by_cases h6 : it.uint32At it.d1 = 0 ∨ o + 4 + it.uint32At it.d1 ≥ it.len
      · rw [if_pos h6, if_pos h6]
        rfl
      · rw [if_neg h6, if_neg h6, it.byte_moved h (by omega)]
        split <;> rfl

theorem fillBinary_moved (h : it.Agrees raw) (hd : it.d1 = o) :
    fillBinary (it.moved raw) o = (fillBinary it o).map (·.moved raw) := by
  unfold fillBinary
  show (if o ≥ it.len - 4 then _ else _) = _
  by_cases h4 : o ≥ it.len - 4
  · rw [if_pos h4, if_pos h4]
    rfl
  · rw [if_neg h4, if_neg h4]
    have hl := it.uint32At_d1_moved h hd (by omega)
    dsimp only
    rw [hl, it.byte_moved h (by omega)]
    show (if it.uint32At it.d1 ≥ it.len - o then _ else _) = _
    split
    · rfl
    · split <;> rfl

theorem fillDocument_moved (h : it.Agrees raw) (hd : it.d1 = o) :
    fillDocument (it.moved raw) o = (fillDocument it o).map (·.moved raw) := by
  unfold fillDocument
  show (if o ≥ it.len - 4 then _ else _) = _
  by_cases h4 : o ≥ it.len - 4
  · rw [if_pos h4, if_pos h4]
    rfl
  · rw [if_neg h4, if_neg h4]
    have hl := it.uint32At_d1_moved h hd (by omega)
    dsimp only
    rw [hl]
    show (if it.uint32At it.d1 > it.len ∨ it.uint32At it.d1 > it.len - o then _ else _) = _
    split <;> rfl

theorem fillRegex_moved (h : it.Agrees raw) : fillRegex (it.moved raw) o = (fillRegex it o).map (·.moved raw) := by
  unfold fillRegex
  rw [scanNul_moved_len h]
  rcases scanNul it.raw o (it.len - o) with _ | eor
  · rfl
  · dsimp only
    rw [scanNul_moved_len h]
    rcases scanNul it.raw (eor + 1) (it.len - (eor + 1)) with _ | eoo <;> rfl

theorem fillDbpointer_moved (h : it.Agrees raw) (hd : it.d1 = o) :
    fillDbpointer (it.moved raw) o = (fillDbpointer it o).map (·.moved raw) := by
  unfold fillDbpointer
  show (if o ≥ it.len - 4 then _ else _) = _
  by_cases h4 : o ≥ it.len - 4
  · rw [if_pos h4, if_pos h4]
    rfl
  · rw [if_neg h4, if_neg h4]
    have hl := it.uint32At_d1_moved h hd (by omega)
    dsimp only
    rw [hl]
    show (if it.uint32At it.d1 > it.len ∨ it.uint32At it.d1 > it.len - o then _ else _) = _
    split <;> rfl

theorem fillCodewscope_moved (h : it.Agrees raw) (hd : it.d1 = o) :
    fillCodewscope (it.moved raw) o = (fillCodewscope it o).map (·.moved raw) := by
  unfold fillCodewscope
  show (if it.len < 19 ∨ o ≥ it.len - 14 then _ else _) = _
  by_cases h4 : it.len < 19 ∨ o ≥ it.len - 14
  · rw [if_pos h4, if_pos h4]
    rfl
  · rw [if_neg h4, if_neg h4]
    have htotal := it.uint32At_d1_moved h hd (by omega)
    have hl : (it.moved raw).uint32At (o + 4) = it.uint32At (o + 4) := it.uint32At_moved h (by omega)
    dsimp only
    rw [htotal, hl]
    generalize it.uint32At it.d1 = total
    generalize it.uint32At (o + 4) = l
    show (if total < 14 ∨ total ≥ it.len - o then _ else if o + total ≥ it.len then _ else
      if l ≥ it.len - o - 4 - 4 then _ else _) = _
    by_cases h5 : total < 14 ∨ total ≥ it.len - o
    · rw [if_pos h5, if_pos h5]
      rfl
    · rw [if_neg h5, if_neg h5]
      by_cases h6 : o + total ≥ it.len
      · rw [if_pos h6, if_pos h6]
        rfl
      · rw [if_neg h6, if_neg h6]
        by_cases h7 : l ≥ it.len - o - 4 - 4
        · rw [if_pos h7, if_pos h7]
          rfl
        · rw [if_neg h7, if_neg h7]
          by_cases h8 : o + 4 + 4 + l + 4 ≥ o + total
          · rw [if_pos h8, if_pos h8]
            rfl
          · rw [if_neg h8, if_neg h8, it.uint32At_moved h (by omega)]
            split <;> rfl

theorem fillDataFields_moved (h : it.Agrees raw) (hd : it.d1 = o) (ht : it.type < it.len) :
    fillDataFields (it.moved raw) o = (fillDataFields it o).map (·.moved raw) := by
  have htype : (it.moved raw).bsonType = it.bsonType := congrArg BsonType.ofByte (it.byte_moved h ht)
  unfold fillDataFields
  rw [htype]
  rcases it.bsonType with _ | ty
  · rfl
  · cases ty
    case code | symbol | utf8 => exact fillString_moved h hd
    case binary => exact fillBinary_moved h hd
    case array | document => exact fillDocument_moved h hd
    case regex => exact fillRegex_moved h
    case dbpointer => exact fillDbpointer_moved h hd
    case codewscope => exact fillCodewscope_moved h hd
    all_goals rfl

/-- The next element, one check after the other. -/
theorem bsonIterNext_eq_bind (it : BsonIter) :
    bsonIterNext it = (scanNul it.raw (it.nextOff + 1) (it.len - (it.nextOff + 1))).bind fun nul =>
      (fillDataFields (it.enter (nul + 1)) (nul + 1)).bind fun e => if e.nextOff ≥ e.len then none else some e := by
  unfold bsonIterNext
  dsimp only
  rcases scanNul it.raw (it.nextOff + 1) (it.len - (it.nextOff + 1)) with _ | nul
  · rfl
  · dsimp only [Option.bind_some, BsonIter.enter]
    generalize fillDataFields _ (nul + 1) = e
    cases e <;> rfl

/-- The next element over other memory. -/
theorem bsonIterNext_moved (h : it.Agrees raw) : bsonIterNext (it.moved raw) = (bsonIterNext it).map (·.moved raw) := by
  have hscan : scanNul (it.moved raw).raw ((it.moved raw).nextOff + 1)
      ((it.moved raw).len - ((it.moved raw).nextOff + 1)) =
        scanNul it.raw (it.nextOff + 1) (it.len - (it.nextOff + 1)) := scanNul_moved_len h _
  rw [bsonIterNext_eq_bind, bsonIterNext_eq_bind, hscan]
  rcases hnul : scanNul it.raw (it.nextOff + 1) (it.len - (it.nextOff + 1)) with _ | nul
  · rfl
  · have hlt := scanNul_lt hnul
    have hfill : fillDataFields ((it.moved raw).enter (nul + 1)) (nul + 1) =
        (fillDataFields (it.enter (nul + 1)) (nul + 1)).map (·.moved raw) :=
      @fillDataFields_moved (it.enter (nul + 1)) raw (nul + 1) h rfl (show it.nextOff < it.len by omega)
    rw [Option.bind_some, Option.bind_some, hfill]
    rcases fillDataFields (it.enter (nul + 1)) (nul + 1) with _ | e
    · rfl
    · rw [Option.map_some, Option.bind_some, Option.bind_some]
      by_cases hlen : e.nextOff ≥ e.len
      · rw [if_pos (show (e.moved raw).nextOff ≥ (e.moved raw).len from hlen), if_pos hlen]
        rfl
      · rw [if_neg (show ¬ (e.moved raw).nextOff ≥ (e.moved raw).len from hlen), if_neg hlen]
        rfl

theorem bsonIterWalk_moved (h : it.Agrees raw) (n : Nat) :
    bsonIterWalk n (it.moved raw) = (bsonIterWalk n it).map (·.moved raw) := by
  induction n generalizing it with
  | zero => rfl
  | succ n ih =>
    rw [bsonIterWalk, bsonIterWalk, bsonIterNext_moved h]
    rcases hx : bsonIterNext it with _ | e
    · rfl
    · obtain ⟨nul, -, hfill, -⟩ := bsonIterNext_eq_some.mp hx
      obtain ⟨_, _, _, _, _, rfl, -⟩ := fillDataFields_eq hfill
      dsimp only [Option.map_some]
      rw [ih (by exact h), List.map_cons]

theorem bsonIterElements_moved (h : it.Agrees raw) :
    bsonIterElements (it.moved raw) = (bsonIterElements it).map (·.moved raw) :=
  bsonIterWalk_moved h it.len

end Steps

/-! ## Names -/

/-- The type and the name of an element lie inside the document. -/
structure BsonIter.Named (e : BsonIter) : Prop where
  type_lt : e.type < e.len
  nul : ∃ o, e.key ≤ o ∧ o < e.len ∧ e.byte o = 0

theorem bsonIterWalk_named {n : Nat} {it e : BsonIter} (he : e ∈ bsonIterWalk n it) : e.Named := by
  induction n generalizing it with
  | zero => cases he
  | succ n ih =>
    rw [bsonIterWalk] at he
    split at he
    · cases he
    · next it' hx =>
      rcases List.mem_cons.mp he with rfl | he
      · obtain ⟨nul, hnul, hfill, -⟩ := bsonIterNext_eq_some.mp hx
        obtain ⟨_, _, _, _, _, rfl, -⟩ := fillDataFields_eq hfill
        have hlt := scanNul_lt hnul
        refine ⟨?_, nul, ?_, ?_, hlt.2.2⟩
        · show it.nextOff < it.len
          omega
        · show it.nextOff + 1 ≤ nul
          omega
        · show nul < it.len
          omega
      · exact ih he

theorem takeWhile_take {l : Bytes} {n i : Nat} (hi : i < n) (h0 : l[i]? = some 0) :
    (l.take n).takeWhile (· != 0) = l.takeWhile (· != 0) := by
  induction l generalizing n i with
  | nil => simp at h0
  | cons b l ih =>
    obtain ⟨n, rfl⟩ := Nat.exists_eq_succ_of_ne_zero (Nat.ne_zero_of_lt hi)
    rw [List.take_succ_cons, List.takeWhile_cons, List.takeWhile_cons]
    rcases i with _ | i
    · obtain rfl : b = 0 := by simpa using h0
      rfl
    · rw [ih (Nat.lt_of_succ_lt_succ hi) (by simpa using h0)]

theorem bsonIterKey_moved {e : BsonIter} {raw : Bytes} (hf : e.Fits) (hn : e.Named) (h : e.Agrees raw) :
    bsonIterKey (e.moved raw) = bsonIterKey e := by
  obtain ⟨o, hle, hlt, h0⟩ := hn.nul
  unfold BsonIter.Fits at hf
  have hat (r : Bytes) (hr : r.take e.len = e.raw.take e.len) : (r.drop e.key)[o - e.key]? = some 0 := by
    have hget : r[o]? = e.raw[o]? := by
      rw [← List.getElem?_take_of_lt hlt, hr, List.getElem?_take_of_lt hlt]
    rw [List.getElem?_drop, show e.key + (o - e.key) = o by omega, hget, List.getElem?_eq_getElem (by omega)]
    unfold BsonIter.byte at h0
    rw [List.getD_eq_getElem _ _ (by omega)] at h0
    rw [h0]
  have hname (r : Bytes) (hr : r.take e.len = e.raw.take e.len) :
      (r.drop e.key).takeWhile (· != 0) = ((e.raw.take e.len).drop e.key).takeWhile (· != 0) := by
    rw [← hr, List.drop_take]
    exact (takeWhile_take (by omega) (hat r hr)).symm
  show (raw.drop e.key).takeWhile (· != 0) = (e.raw.drop e.key).takeWhile (· != 0)
  rw [hname raw h, hname e.raw rfl]

/-! ## Values -/

/-- The bytes of the value. -/
def BsonIter.value (it : BsonIter) : Bytes := slice it.raw it.d1 (it.nextOff - it.d1)

/-- Elements of one type whose values are the same bytes. -/
structure SameValue (e e' : BsonIter) : Prop where
  type_eq : e.typeByte = e'.typeByte
  value_eq : e.value = e'.value

theorem BsonIter.Accepted.length_value {e : BsonIter} (h : e.Accepted) : e.value.length = e.nextOff - e.d1 := by
  have hf := h.fits
  have hlt := h.next_lt
  unfold BsonIter.Fits at hf
  unfold BsonIter.value slice
  rw [List.length_take, List.length_drop]
  omega

/-- A part of the value, by its place in it. -/
theorem BsonIter.slice_value {e : BsonIter} {a n : Nat} (hle : e.d1 + a + n ≤ e.nextOff) :
    slice e.value a n = slice e.raw (e.d1 + a) n := by
  apply List.ext_getElem?
  intro i
  unfold BsonIter.value
  rw [getElem?_slice, getElem?_slice, getElem?_slice]
  by_cases hi : i < n
  · rw [if_pos hi, if_pos hi, if_pos (by omega), Nat.add_assoc]
  · rw [if_neg hi, if_neg hi]

namespace SameValue
variable {e e' : BsonIter}

theorem bsonType_eq (h : SameValue e e') : e.bsonType = e'.bsonType := congrArg BsonType.ofByte h.type_eq

/-- The values are as long. -/
theorem length_eq (h : SameValue e e') (ha : e.Accepted) (ha' : e'.Accepted) :
    e.nextOff - e.d1 = e'.nextOff - e'.d1 := by
  rw [← ha.length_value, ← ha'.length_value, h.value_eq]

/-- A part of the value is at the same place in both. -/
theorem slice_eq (h : SameValue e e') (ha : e.Accepted) (ha' : e'.Accepted) {a n : Nat}
    (hle : e.d1 + a + n ≤ e.nextOff) : slice e.raw (e.d1 + a) n = slice e'.raw (e'.d1 + a) n := by
  have hlen := h.length_eq ha ha'
  by_cases hn : n = 0
  · simp [hn, slice]
  · rw [← BsonIter.slice_value hle, ← BsonIter.slice_value (by omega), h.value_eq]

theorem byte_eq (h : SameValue e e') (ha : e.Accepted) (ha' : e'.Accepted) {a : Nat}
    (hlt : e.d1 + a < e.nextOff) : e.byte (e.d1 + a) = e'.byte (e'.d1 + a) := by
  have hslice := h.slice_eq ha ha' (a := a) (n := 1) (by omega)
  have hget := congrArg (·[0]?) hslice
  simp only [getElem?_slice, if_pos Nat.one_pos, Nat.add_zero] at hget
  show e.raw.getD _ 0 = e'.raw.getD _ 0
  rw [List.getD_eq_getElem?_getD, hget, List.getD_eq_getElem?_getD]

theorem uint32At_eq (h : SameValue e e') (ha : e.Accepted) (ha' : e'.Accepted) (hle : e.d1 + 4 ≤ e.nextOff) :
    e.uint32At e.d1 = e'.uint32At e'.d1 :=
  congrArg leNat (h.slice_eq ha ha' (a := 0) hle)

end SameValue

/-- An element over other memory has the value it had. -/
theorem sameValue_moved {e : BsonIter} {raw : Bytes} (ha : e.Accepted) (hn : e.Named) (h : e.Agrees raw) :
    SameValue e (e.moved raw) := by
  refine ⟨(e.byte_moved h hn.type_lt).symm, ?_⟩
  have hlt := ha.next_lt
  show slice e.raw e.d1 (e.nextOff - e.d1) = slice raw e.d1 (e.nextOff - e.d1)
  by_cases hd : e.d1 ≤ e.nextOff
  · exact (e.slice_agrees h (by omega)).symm
  · rw [show e.nextOff - e.d1 = 0 by omega]
    simp [slice]

theorem bsonIterFindWithLen_moved {it : BsonIter} {raw : Bytes} (hf : it.Fits) (h : it.Agrees raw) (key : Bytes) :
    bsonIterFindWithLen (it.moved raw) key = (bsonIterFindWithLen it key).map (·.moved raw) := by
  unfold bsonIterFindWithLen
  by_cases hk : key = []
  · rw [if_pos hk, if_pos hk]
    rfl
  · rw [if_neg hk, if_neg hk, bsonIterElements_moved h, List.find?_map]
    congr 1
    apply List.find?_congr
    intro e he
    obtain ⟨ha, hraw, hlen⟩ := bsonIterWalk_accepted hf he
    have hagree : e.Agrees raw := by
      unfold BsonIter.Agrees
      rw [hraw, hlen]
      exact h
    rw [Function.comp_apply, bsonIterKey_moved ha.fits (bsonIterWalk_named he) hagree]

/-- Documents and arrays of the same bytes have one content. -/
theorem recurse_sameValue {e e' : BsonIter} (h : SameValue e e') (ha : e.Accepted) (ha' : e'.Accepted) :
    bsonIterRecurse e = none ∧ bsonIterRecurse e' = none ∨ ∃ child raw, bsonIterRecurse e = some child ∧
      bsonIterRecurse e' = some (child.moved raw) ∧ child.Fits ∧ child.Agrees raw := by
  have hcontent (ht : e.bsonType ∈ [some .array, some .document]) : e.uint32At e.d1 = e'.uint32At e'.d1 ∧
      e.uint32At e.d1 ≤ (e.ptr e.d1).length ∧
      (e'.ptr e'.d1).take (e.uint32At e.d1) = (e.ptr e.d1).take (e.uint32At e.d1) := by
    obtain ⟨-, h2⟩ := ha.document ht
    obtain ⟨-, h2'⟩ := ha'.document (h.bsonType_eq ▸ ht)
    have hlen := h.length_eq ha ha'
    have hu : e.uint32At e.d1 = e'.uint32At e'.d1 := by omega
    refine ⟨hu, (ha.documentData ht).1, ?_⟩
    have hv := h.value_eq
    unfold BsonIter.value at hv
    rw [show e.nextOff - e.d1 = e.uint32At e.d1 by omega, show e'.nextOff - e'.d1 = e.uint32At e.d1 by omega] at hv
    exact hv.symm
  unfold bsonIterRecurse
  dsimp only
  rw [← h.bsonType_eq]
  by_cases hd : e.bsonType = some .document
  · obtain ⟨hu, hle, htake⟩ := hcontent (by simp [hd])
    refine Or.inr ⟨_, e'.ptr e'.d1, if_pos hd, ?_, ?_, ?_⟩
    · rw [if_pos hd, bsonIterDocument, if_pos (h.bsonType_eq ▸ hd), bsonIterDocument, if_pos hd, ← hu]
      rfl
    · simpa [bsonIterDocument, hd, BsonIter.Fits] using hle
    · simpa [bsonIterDocument, hd, BsonIter.Agrees] using htake
  · by_cases hr : e.bsonType = some .array
    · obtain ⟨hu, hle, htake⟩ := hcontent (by simp [hr])
      refine Or.inr ⟨_, e'.ptr e'.d1, by rw [if_neg hd, if_pos hr], ?_, ?_, ?_⟩
      · rw [if_neg hd, if_pos hr, bsonIterArray, if_pos (h.bsonType_eq ▸ hr), bsonIterArray, if_pos hr, ← hu]
        rfl
      · simpa [bsonIterArray, hr, BsonIter.Fits] using hle
      · simpa [bsonIterArray, hr, BsonIter.Agrees] using htake
    · exact Or.inl ⟨by rw [if_neg hd, if_neg hr], by rw [if_neg hd, if_neg hr]⟩

/-! ## Paths -/

/-- The search behind the first name goes into the element, if it is a document or an array. -/
def bsonIterFindIn (e : BsonIter) (path : List Bytes) : Option BsonIter :=
  (bsonIterRecurse e).bind fun tmp => bsonIterFindPath tmp path

theorem bsonIterFindPath_cons {it : BsonIter} {sub : Bytes} {rest : List Bytes} (hr : rest ≠ []) :
    bsonIterFindPath it (sub :: rest) = (bsonIterFindWithLen it sub).bind fun e => bsonIterFindIn e rest := by
  rw [bsonIterFindPath]
  · rcases bsonIterFindWithLen it sub with _ | e
    · rfl
    · dsimp only [Option.bind_some]
      unfold bsonIterFindIn
      by_cases ht : e.bsonType = some .document ∨ e.bsonType = some .array
      · rw [if_pos ht]
        rcases bsonIterRecurse e <;> rfl
      · rw [not_or] at ht
        have hnone : bsonIterRecurse e = none := by
          unfold bsonIterRecurse
          dsimp only
          rw [if_neg ht.1, if_neg ht.2]
        rw [if_neg (not_or.mpr ht), hnone]
        rfl
  · exact hr

/-- A search ends at the same value over other memory. -/
theorem findPath_moved {path : List Bytes} {it : BsonIter} {raw : Bytes} (hf : it.Fits) (h : it.Agrees raw) :
    Option.Rel SameValue (bsonIterFindPath it path) (bsonIterFindPath (it.moved raw) path) := by
  induction path generalizing it raw with
  | nil => exact .none
  | cons sub rest ih =>
    have hfind := bsonIterFindWithLen_moved hf h sub
    have hsame {e : BsonIter} (he : bsonIterFindWithLen it sub = some e) :
        e.Accepted ∧ (e.moved raw).Accepted ∧ SameValue e (e.moved raw) := by
      have hacc' := bsonIterFindWithLen_accepted (h.fits hf) (hfind.trans (congrArg _ he))
      obtain ⟨hacc, -⟩ := bsonIterFindWithLen_accepted hf he
      unfold bsonIterFindWithLen at he
      split at he
      · cases he
      · have hmem := List.mem_of_find?_eq_some he
        obtain ⟨-, hraw, hlen⟩ := bsonIterWalk_accepted hf hmem
        refine ⟨hacc, hacc'.1, sameValue_moved hacc (bsonIterWalk_named hmem) ?_⟩
        unfold BsonIter.Agrees
        rw [hraw, hlen]
        exact h
    rcases rest with _ | ⟨r, rs⟩
    · rw [bsonIterFindPath, bsonIterFindPath, hfind]
      rcases he : bsonIterFindWithLen it sub with _ | e
      · exact .none
      · exact .some (hsame he).2.2
    · rw [bsonIterFindPath_cons (List.cons_ne_nil r rs), bsonIterFindPath_cons (List.cons_ne_nil r rs), hfind]
      rcases he : bsonIterFindWithLen it sub with _ | e
      · exact .none
      · obtain ⟨hacc, hacc', hv⟩ := hsame he
        show Option.Rel SameValue (bsonIterFindIn e (r :: rs)) (bsonIterFindIn (e.moved raw) (r :: rs))
        unfold bsonIterFindIn
        rcases recurse_sameValue hv hacc hacc' with ⟨h1, h2⟩ | ⟨child, raw', h1, h2, hcf, hca⟩
        · rw [h1, h2]
          exact .none
        · rw [h1, h2]
          exact ih hcf hca

/-- A search goes on alike in elements with one value. -/
theorem findIn_sameValue {e e' : BsonIter} (h : SameValue e e') (ha : e.Accepted) (ha' : e'.Accepted)
    (path : List Bytes) : Option.Rel SameValue (bsonIterFindIn e path) (bsonIterFindIn e' path) := by
  unfold bsonIterFindIn
  rcases recurse_sameValue h ha ha' with ⟨h1, h2⟩ | ⟨child, raw, h1, h2, hcf, hca⟩
  · rw [h1, h2]
    exact .none
  · rw [h1, h2]
    exact findPath_moved hcf hca

end Monary
