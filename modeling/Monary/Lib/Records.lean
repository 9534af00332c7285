import Monary.Lib.ByteSeq

/-!
# Records of one width in a buffer

A buffer of `n` rows of width `w` is filled row by row, each value being written where `place` puts a
value of its length in its row.

* `layOut` : the buffer after the values were written;
* `layOut_tail` : the rows that were not written yet are as before;
* `found_layOut_iff` : from a buffer of zeros, every value is found at the start of its row exactly when
  every value that is not empty was put there. A value put before its row is found there only if it
  repeats itself down to the zeros behind, and is zero throughout.
-/

namespace ByteSeq

variable {α : Type*}

/-- The values are written one after the other, from row `row` on. -/
def layOut (place : Nat → Nat → Nat) : List α → Nat → List (List α) → List α
  | buf, _, [] => buf
  | buf, row, v :: vs => layOut place (patch buf (place row v.length) v) (row + 1) vs

theorem layOut_append (place : Nat → Nat → Nat) (buf : List α) (row : Nat) (vs : List (List α))
    (v : List α) :
    layOut place buf row (vs ++ [v]) =
      patch (layOut place buf row vs) (place (row + vs.length) v.length) v := by
  induction vs generalizing buf row with
  | nil => rfl
  | cons u vs ih =>
    rw [List.cons_append, layOut, ih, List.length_cons, Nat.add_comm vs.length, ← Nat.add_assoc]
    rfl

/-- A list that repeats itself `d` places on, down to entries that are `z`, is `z` throughout. -/
theorem eq_of_shift {v : List α} {z : α} {d : Nat} (hd : 0 < d)
    (h : ∀ k, k < v.length → v[k]? = if k + d < v.length then v[k + d]? else some z) :
    ∀ x ∈ v, x = z := by
  have hk : ∀ m k, k < v.length → v.length - k ≤ m → v[k]? = some z := by
    intro m
    induction m with
    | zero => intro k hk hm; omega
    | succ m ih =>
      intro k hk hm
      rw [h k hk]
      by_cases hkd : k + d < v.length
      · rw [if_pos hkd]
        exact ih (k + d) hkd (by omega)
      · rw [if_neg hkd]
  intro x hx
  obtain ⟨k, hlt, rfl⟩ := List.getElem_of_mem hx
  have := hk _ k hlt (le_refl _)
  rw [List.getElem?_eq_getElem hlt] at this
  exact Option.some.inj this

theorem forall_getElem?_append_singleton {β : Type*} {vs : List β} {v : β} {P : Nat → β → Prop} :
    (∀ i u, (vs ++ [v])[i]? = some u → P i u) ↔ (∀ i u, vs[i]? = some u → P i u) ∧ P vs.length v := by
  constructor
  · intro h
    refine ⟨?_, h vs.length v (by simp)⟩
    intro i u hu
    have hi : i < vs.length := (List.getElem?_eq_some_iff.mp hu).1
    exact h i u (by rw [List.getElem?_append_left hi, hu])
  · rintro ⟨h, hv⟩ i u hu
    by_cases hi : i < vs.length
    · rw [List.getElem?_append_left hi] at hu
      exact h i u hu
    · rw [List.getElem?_append_right (by omega), List.getElem?_singleton] at hu
      split at hu
      · cases hu
        rw [show i = vs.length by omega]
        exact hv
      · cases hu

section Rows
variable {place : Nat → Nat → Nat} {w n : Nat}

/-- The values fit the rows, and are put at the start of their row or before. -/
structure Fitting (place : Nat → Nat → Nat) (w : Nat) (vs : List (List α)) : Prop where
  width : ∀ v ∈ vs, v.length ≤ w
  place_le : ∀ row, ∀ v ∈ vs, place row v.length ≤ row * w

theorem Fitting.of_append {vs : List (List α)} {v : List α} (h : Fitting place w (vs ++ [v])) :
    Fitting place w vs ∧ v.length ≤ w ∧ ∀ row, place row v.length ≤ row * w :=
  ⟨⟨fun u hu => h.width u (by simp [hu]), fun row u hu => h.place_le row u (by simp [hu])⟩,
    h.width v (by simp), fun row => h.place_le row v (by simp)⟩

theorem length_layOut {buf : List α} {vs : List (List α)} (hfit : Fitting place w vs)
    (hbuf : buf.length = n * w) (hn : vs.length ≤ n) : (layOut place buf 0 vs).length = n * w := by
  induction vs using List.reverseRecOn with
  | nil => exact hbuf
  | append_singleton vs v ih =>
    obtain ⟨hfit, hw, hp⟩ := hfit.of_append
    rw [List.length_append, List.length_singleton] at hn
    have hlen := ih hfit (by omega)
    have hrow := row_add_le (w := w) (show vs.length < n by omega)
    have := hp (0 + vs.length)
    rw [layOut_append, length_patch (by rw [Nat.zero_add] at *; omega), hlen]

/-- The rows behind the last that was written are as before. -/
theorem layOut_tail {buf : List α} {vs : List (List α)} (hfit : Fitting place w vs)
    (hbuf : buf.length = n * w) (hn : vs.length ≤ n) {k : Nat} (hk : vs.length * w ≤ k) :
    (layOut place buf 0 vs)[k]? = buf[k]? := by
  induction vs using List.reverseRecOn with
  | nil => rfl
  | append_singleton vs v ih =>
    obtain ⟨hfit, hw, hp⟩ := hfit.of_append
    rw [List.length_append, List.length_singleton] at hn hk
    rw [Nat.add_mul, Nat.one_mul] at hk
    have hlen := length_layOut hfit hbuf (show vs.length ≤ n by omega)
    have hrow := row_add_le (w := w) (show vs.length < n by omega)
    have hp := hp vs.length
    rw [layOut_append, Nat.zero_add, getElem?_patch (by omega), if_neg (by omega)]
    exact ih hfit (by omega) (by omega)

/-- Every value is found at the start of its row. -/
def Found (w : Nat) (buf : List α) (vs : List (List α)) : Prop :=
  ∀ i v, vs[i]? = some v → slice buf (i * w) v.length = v

/-- A value that was put before its row is not found there. -/
theorem slice_patch_before_ne {buf v : List α} {z : α} {a off : Nat} (hbuf : off + v.length ≤ buf.length)
    (hz : ∀ k, a ≤ k → k < a + v.length → buf[k]? = some z) (hoff : off < a)
    (hv : ∃ x ∈ v, x ≠ z) : slice (patch buf off v) a v.length ≠ v := by
  intro h
  obtain ⟨x, hx, hne⟩ := hv
  refine hne (eq_of_shift (d := a - off) (by omega) ?_ x hx)
  intro k hk
  have hk' := congrArg (fun l : List α => l[k]?) h
  simp only [getElem?_slice, if_pos hk, getElem?_patch hbuf] at hk'
  rw [← hk']
  by_cases hlt : k + (a - off) < v.length
  · rw [if_pos hlt, if_pos (by omega)]
    congr 1
    omega
  · rw [if_neg hlt, if_neg (by omega)]
    exact hz _ (by omega) (by omega)

/-- From a buffer of one value `z`, every value is found at the start of its row exactly when it was put
there, if it has an entry other than `z` where it was not. -/
theorem found_layOut_iff {z : α} {vs : List (List α)} (hfit : Fitting place w vs) (hn : vs.length ≤ n)
    (hz : ∀ i v, vs[i]? = some v → v ≠ [] → place i v.length ≠ i * w → ∃ x ∈ v, x ≠ z) :
    Found w (layOut place (List.replicate (n * w) z) 0 vs) vs ↔
      ∀ i v, vs[i]? = some v → v = [] ∨ place i v.length = i * w := by
  induction vs using List.reverseRecOn with
  | nil => exact ⟨fun _ i v hv => by simp at hv, fun _ i v hv => by simp at hv⟩
  | append_singleton vs v ih =>
    obtain ⟨hfit, hw, hp⟩ := hfit.of_append
    rw [List.length_append, List.length_singleton] at hn
    rw [forall_getElem?_append_singleton] at hz
    have ih := ih hfit (by omega) hz.1
    have hbuf : (List.replicate (n * w) z).length = n * w := List.length_replicate
    have hlen := length_layOut hfit hbuf (show vs.length ≤ n by omega)
    have hrow := row_add_le (w := w) (show vs.length < n by omega)
    have hpv := hp vs.length
    have hzeros : ∀ k, vs.length * w ≤ k → k < vs.length * w + v.length →
        (layOut place (List.replicate (n * w) z) 0 vs)[k]? = some z := by
      intro k hk1 hk2
      rw [layOut_tail hfit hbuf (by omega) hk1, List.getElem?_replicate, if_pos (by omega)]
    rw [Found, forall_getElem?_append_singleton, forall_getElem?_append_singleton, layOut_append,
      Nat.zero_add]
    by_cases hgood : v = [] ∨ place vs.length v.length = vs.length * w
    · -- a value in its row leaves the earlier rows alone
      rw [← ih]
      refine and_congr (forall₃_congr fun i u hu => ?_) (iff_of_true ?_ hgood)
      · have hiw := row_add_le (w := w) (List.getElem?_eq_some_iff.mp hu).1
        have hul := hfit.width u (List.mem_of_getElem? hu)
        rcases hgood with rfl | hgood
        · rw [patch_nil]
        · rw [(frame_patch (by omega)).slice_eq (by intro k h1 h2 h3; omega)]
      · rcases hgood with rfl | hgood
        · rfl
        · rw [hgood]
          exact slice_patch_self (by omega)
    · rw [not_or] at hgood
      have hne : slice (patch (layOut place (List.replicate (n * w) z) 0 vs) (place vs.length v.length) v)
          (vs.length * w) v.length ≠ v :=
        slice_patch_before_ne (by omega) hzeros (by omega) (hz.2 hgood.1 hgood.2)
      exact iff_of_false (fun h => hne h.2) fun h => h.2.elim hgood.1 hgood.2

end Rows

end ByteSeq
