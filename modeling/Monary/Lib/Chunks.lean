import Mathlib

/-!
# Chunks of a list

* `chunks k l` : the list in pieces of `k`, the last of which may be shorter;
* `chunks_cons` : its recursion; `flatten_chunks` : the pieces are the list.
-/

namespace Chunks
variable {α : Type} {k : Nat} {l : List α}

/-- The pieces from `0`, `k`, `2 * k` and so on. -/
def chunks (k : Nat) (l : List α) : List (List α) :=
  (List.range ((l.length + k - 1) / k)).map fun b => (l.drop (b * k)).take k

theorem chunks_nil (hk : 0 < k) : chunks k ([] : List α) = [] := by
  unfold chunks
  rw [List.length_nil, Nat.zero_add, Nat.div_eq_of_lt (by omega)]
  rfl

theorem count_drop (hk : 0 < k) (hl : 0 < l.length) :
    (l.length + k - 1) / k = ((l.drop k).length + k - 1) / k + 1 := by
  rw [List.length_drop]
  by_cases h : k ≤ l.length
  · rw [show l.length + k - 1 = (l.length - k + k - 1) + k by omega, Nat.add_div_right _ hk]
  · rw [show l.length + k - 1 = (l.length - 1) + k by omega, Nat.add_div_right _ hk,
      Nat.div_eq_of_lt (by omega), Nat.div_eq_of_lt (by omega)]

theorem chunks_cons (hk : 0 < k) (hl : l ≠ []) : chunks k l = l.take k :: chunks k (l.drop k) := by
  unfold chunks
  rw [count_drop hk (List.length_pos_of_ne_nil hl), List.range_succ_eq_map, List.map_cons, List.map_map, Nat.zero_mul,
    List.drop_zero]
  congr 1
  apply List.map_congr_left
  intro b _
  show (l.drop ((b + 1) * k)).take k = ((l.drop k).drop (b * k)).take k
  rw [List.drop_drop, show k + b * k = (b + 1) * k by ring]

theorem length_chunks (k : Nat) (l : List α) : (chunks k l).length = (l.length + k - 1) / k := by
  unfold chunks
  rw [List.length_map, List.length_range]

theorem getElem?_chunks {b : Nat} {c : List α} (h : (chunks k l)[b]? = some c) : c = (l.drop (b * k)).take k := by
  unfold chunks at h
  rw [List.getElem?_map] at h
  obtain ⟨b', hb, rfl⟩ := Option.map_eq_some_iff.mp h
  obtain ⟨hlt, hb⟩ := List.getElem?_eq_some_iff.mp hb
  rw [List.getElem_range] at hb
  rw [hb]

/-- Induction on the pieces. -/
theorem chunks_induction (hk : 0 < k) {P : List α → Prop} (nil : P []) (cons : ∀ l, l ≠ [] → P (l.drop k) → P l)
    (l : List α) : P l := by
  induction hn : l.length using Nat.strong_induction_on generalizing l with
  | _ n ih =>
    rcases l with _ | ⟨a, l⟩
    · exact nil
    · refine cons _ (by simp) (ih _ ?_ _ rfl)
      rw [← hn, List.length_drop, List.length_cons]
      omega

theorem flatten_chunks (hk : 0 < k) (l : List α) : (chunks k l).flatten = l := by
  refine chunks_induction hk (P := fun l => (chunks k l).flatten = l) ?_ ?_ l
  · rw [chunks_nil hk]
    rfl
  · intro l hl ih
    rw [chunks_cons hk hl, List.flatten_cons, ih, List.take_append_drop]

theorem length_take_drop (l : List α) (b k : Nat) : ((l.drop (b * k)).take k).length = min k (l.length - b * k) := by
  rw [List.length_take, List.length_drop]

/-- The piece with the element `i`. -/
theorem chunks_div (hk : 0 < k) {i : Nat} (hi : i < l.length) :
    (chunks k l)[i / k]? = some ((l.drop (i / k * k)).take k) := by
  unfold chunks
  have hlt : i / k < (l.length + k - 1) / k := by
    rw [Nat.div_lt_iff_lt_mul hk]
    have h1 := Nat.div_add_mod (l.length + k - 1) k
    have h2 := Nat.mod_lt (l.length + k - 1) hk
    rw [Nat.mul_comm] at h1
    omega
  rw [List.getElem?_map, List.getElem?_range hlt]
  rfl

/-- What holds at every place of every piece holds at every place of the list, modulo the size. -/
theorem forall_chunks_iff (hk : 0 < k) {P : Nat → α → Prop} :
    (∀ piece ∈ chunks k l, ∀ r a, piece[r]? = some a → P r a) ↔ ∀ i a, l[i]? = some a → P (i % k) a := by
  constructor
  · intro h i a hi
    have hlt : i < l.length := (List.getElem?_eq_some_iff.mp hi).1
    refine h _ (List.mem_of_getElem? (chunks_div hk hlt)) (i % k) a ?_
    rw [List.getElem?_take, if_pos (Nat.mod_lt i hk), List.getElem?_drop, Nat.mul_comm, Nat.div_add_mod]
    exact hi
  · intro h piece hc r a hr
    obtain ⟨b, hb⟩ := List.getElem?_of_mem hc
    obtain rfl := getElem?_chunks hb
    have hlt : r < k := by
      have hlt := (List.getElem?_eq_some_iff.mp hr).1
      rw [List.length_take] at hlt
      omega
    rw [List.getElem?_take, if_pos hlt, List.getElem?_drop] at hr
    have hP := h _ a hr
    rwa [Nat.mul_comm, Nat.mul_add_mod, Nat.mod_eq_of_lt hlt] at hP

end Chunks
