import Mathlib.Data.List.Basic

/-!
# Values that are pulled

* `Pull.run` : calls of a function that gives a value or none, one after the other;
* `Pull.Source` : an invariant that knows the values that are left; `Source.run` : what the calls give;
* `Pull.Simulates` : a relation under which two such functions give the same values; `Simulates.run`.
-/

namespace Pull

variable {σ τ α : Type*} {next : σ → Option α × σ} {next' : τ → Option α × τ}

/-- What `n` calls give, and the state behind them. -/
def run (next : σ → Option α × σ) : Nat → σ → List (Option α) × σ
  | 0, s => ([], s)
  | n + 1, s =>
    let r := next s
    let rest := run next n r.2
    (r.1 :: rest.1, rest.2)

@[simp] theorem run_zero (s : σ) : run next 0 s = ([], s) := rfl

@[simp] theorem run_succ (n : Nat) (s : σ) :
    run next (n + 1) s = ((next s).1 :: (run next n (next s).2).1, (run next n (next s).2).2) := rfl

/-- In a state with the values `l`, the calls give them one after the other, and none behind the last. -/
structure Source (next : σ → Option α × σ) (Inv : σ → List α → Prop) : Prop where
  cons : ∀ {s a l}, Inv s (a :: l) → (next s).1 = some a ∧ Inv (next s).2 l
  nil : ∀ {s}, Inv s [] → (next s).1 = none ∧ Inv (next s).2 []

theorem Source.run {Inv : σ → List α → Prop} (h : Source next Inv) {s : σ} {l : List α} (hs : Inv s l) (n : Nat) :
    (run next n s).1 = (l.take n).map some ++ List.replicate (n - l.length) none ∧ Inv (run next n s).2 (l.drop n) := by
  induction n generalizing s l with
  | zero => simpa using hs
  | succ n ih =>
    cases l with
    | nil =>
      obtain ⟨hnone, hinv⟩ := h.nil hs
      obtain ⟨hrun, hinv'⟩ := ih hinv
      refine ⟨?_, by simpa using hinv'⟩
      rw [run_succ, hnone, hrun]
      simp [List.replicate_succ]
    | cons a l =>
      obtain ⟨hsome, hinv⟩ := h.cons hs
      obtain ⟨hrun, hinv'⟩ := ih hinv
      refine ⟨?_, by simpa using hinv'⟩
      rw [run_succ, hsome, hrun]
      simp

/-- Related states give the same and stay related. -/
def Simulates (next : σ → Option α × σ) (next' : τ → Option α × τ) (R : σ → τ → Prop) : Prop :=
  ∀ {s t}, R s t → (next s).1 = (next' t).1 ∧ R (next s).2 (next' t).2

theorem Simulates.run {R : σ → τ → Prop} (h : Simulates next next' R) {s : σ} {t : τ} (hst : R s t) (n : Nat) :
    (run next n s).1 = (run next' n t).1 ∧ R (run next n s).2 (run next' n t).2 := by
  induction n generalizing s t with
  | zero => exact ⟨rfl, hst⟩
  | succ n ih =>
    obtain ⟨hval, hst'⟩ := h hst
    obtain ⟨hrun, hst''⟩ := ih hst'
    exact ⟨by rw [run_succ, run_succ, hval, hrun], hst''⟩

end Pull
