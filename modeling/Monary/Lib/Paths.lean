import Mathlib

/-!
# Paths along a partial successor

A linked structure gives every reference at most one successor, `next : ρ → Option ρ`.

* `Path next a xs b` : from `a`, the successors are the elements of `xs` one after the other, then `b`;
* `path_append`, `Path.congr`, `Path.head`, `Path.isSome` : splitting a path, and what it depends on;
* `Path.redirect` : the last step of a path led elsewhere; `Path.skip` : one element left out of a path;
* `Path.snoc`, `Path.enter` : a new element before the end, and a new start;
* `Path.unique` : the elements of a path that comes back to its start for the first time are determined.
-/

namespace Linked

variable {ρ : Type*}

def Path (next : ρ → Option ρ) : ρ → List ρ → ρ → Prop
  | a, [], b => next a = some b
  | a, x :: xs, b => next a = some x ∧ Path next x xs b

variable {next f : ρ → Option ρ} {a b c x : ρ} {xs ys : List ρ}

@[simp] theorem path_nil : Path next a [] b ↔ next a = some b := Iff.rfl

@[simp] theorem path_cons : Path next a (x :: xs) b ↔ next a = some x ∧ Path next x xs b := Iff.rfl

theorem path_append : Path next a (xs ++ x :: ys) b ↔ Path next a xs x ∧ Path next x ys b := by
  induction xs generalizing a with
  | nil => simp
  | cons y xs ih => simp [ih, and_assoc]

/-- A path depends on the successors of its start and of its elements. -/
theorem Path.congr (h : Path next a xs b) (hf : ∀ r ∈ a :: xs, f r = next r) : Path f a xs b := by
  induction xs generalizing a with
  | nil => simpa [hf a] using h
  | cons x xs ih =>
    obtain ⟨hx, hxs⟩ := h
    exact ⟨by rw [hf a (by simp), hx], ih hxs fun r hr => hf r (List.mem_cons_of_mem _ hr)⟩

/-- The first step. -/
theorem Path.head (h : Path next a xs b) : next a = (xs ++ [b]).head? := by
  cases xs with
  | nil => simpa using h
  | cons x xs => simpa using h.1

/-- The first step of a path given backwards. -/
theorem Path.head_reverse (h : Path next a xs.reverse b) : next a = some ((b :: xs).getLast (by simp)) := by
  rw [h.head, ← List.reverse_cons, List.head?_reverse, List.getLast?_eq_some_getLast (by simp)]

theorem Path.isSome (h : Path next a xs b) : ∀ r ∈ a :: xs, (next r).isSome := by
  induction xs generalizing a with
  | nil => simp [path_nil.mp h]
  | cons x xs ih =>
    intro r hr
    rcases List.mem_cons.mp hr with rfl | hr
    · simp [h.1]
    · exact ih h.2 r hr

/-- Another start with the same first step. -/
theorem Path.start (h : Path next a xs b) (hc : f c = next a) (hf : ∀ r ∈ xs, f r = next r) :
    Path f c xs b := by
  cases xs with
  | nil => simpa [hc] using h
  | cons x xs => exact ⟨by rw [hc, h.1], h.2.congr hf⟩

variable [DecidableEq ρ]

/-- The last step is led to `c`. -/
theorem Path.redirect (h : Path next a xs b) (hn : (a :: xs).Nodup) (c : ρ) :
    Path (Function.update next ((a :: xs).getLast (by simp)) (some c)) a xs c := by
  induction xs generalizing a with
  | nil => simp
  | cons x xs ih =>
    obtain ⟨ha, hn⟩ := List.nodup_cons.mp hn
    rw [List.getLast_cons (by simp)]
    refine ⟨?_, ih h.2 hn⟩
    have hne : a ≠ (x :: xs).getLast (by simp) := by
      intro he
      exact ha (he ▸ List.getLast_mem _)
    rw [Function.update_of_ne hne, h.1]

/-- `x` is left out: the step that led to it leads where `x` led. -/
theorem Path.skip (h : Path next a (xs ++ x :: ys) b) (hn : (a :: (xs ++ x :: ys)).Nodup) :
    Path (Function.update next ((a :: xs).getLast (by simp)) (next x)) a (xs ++ ys) b := by
  obtain ⟨hxs, hys⟩ := path_append.mp h
  rw [← List.cons_append] at hn
  obtain ⟨hn₁, hn₂, hdis⟩ := List.nodup_append.mp hn
  have hlast : ∀ r ∈ x :: ys, r ≠ (a :: xs).getLast (by simp) := fun r hr he =>
    hdis _ (List.getLast_mem _) r hr he.symm
  cases ys with
  | nil =>
    rw [path_nil] at hys
    rw [hys, List.append_nil]
    exact hxs.redirect hn₁ b
  | cons y ys =>
    rw [hys.1, path_append]
    refine ⟨hxs.redirect hn₁ y, hys.2.congr fun r hr => ?_⟩
    exact Function.update_of_ne (hlast r (List.mem_cons_of_mem _ hr)) _ _

/-- A new element `c` before the end. -/
theorem Path.snoc (h : Path next a xs b) (hn : (a :: xs).Nodup) (hc : c ∉ a :: xs) :
    Path (Function.update (Function.update next c (some b)) ((a :: xs).getLast (by simp)) (some c)) a
      (xs ++ [c]) b := by
  have hne : c ≠ (a :: xs).getLast (by simp) := by
    intro he
    exact hc (he ▸ List.getLast_mem _)
  rw [path_append]
  constructor
  · have hp : Path (Function.update next c (some b)) a xs b := by
      apply h.congr
      intro r hr
      have hrc : r ≠ c := fun he => hc (he ▸ hr)
      rw [Function.update_of_ne hrc]
    exact hp.redirect hn c
  · simp [hne]

/-- A new element `c` after the start. -/
theorem Path.enter (h : Path next a xs b) (hn : (a :: xs).Nodup) (hc : c ∉ a :: xs) :
    Path (Function.update (Function.update next c (next a)) a (some c)) a (c :: xs) b := by
  have hca : c ≠ a := fun he => hc (by simp [he])
  refine ⟨by simp, h.start (by simp [hca]) fun r hr => ?_⟩
  have hra : r ≠ a := fun he => (List.nodup_cons.mp hn).1 (he ▸ hr)
  have hrc : r ≠ c := fun he => hc (List.mem_cons_of_mem _ (he ▸ hr))
  rw [Function.update_of_ne hra, Function.update_of_ne hrc]

omit [DecidableEq ρ] in
/-- What is walked through before the end is met is determined. -/
theorem Path.unique (h : Path next a xs b) (h' : Path next a ys b) (hb : b ∉ xs) (hb' : b ∉ ys) : xs = ys := by
  induction xs generalizing a ys with
  | nil =>
    cases ys with
    | nil => rfl
    | cons y ys =>
      rw [path_nil] at h
      rw [path_cons, h] at h'
      simp [Option.some.inj h'.1] at hb'
  | cons x xs ih =>
    cases ys with
    | nil =>
      rw [path_nil] at h'
      rw [path_cons, h'] at h
      simp [Option.some.inj h.1] at hb
    | cons y ys =>
      obtain rfl : x = y := Option.some.inj (h.1.symm.trans h'.1)
      rw [ih h.2 h'.2 (by simp_all) (by simp_all)]

end Linked
