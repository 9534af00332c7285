import Mathlib

/-!
# Computations with exceptions, `finally` and suspension

A computation over a state of type `σ` returns, raises an exception, suspends itself with a value, or
ends in a fault after which nothing runs any more (`Outcome`).

* `Prog`, a monad; `raise`, `suspend`, `stuck`, `modify`;
* `tryFinally` : the finalizer runs when the body returns or raises, and an exception of its own replaces
  what the body came to; it does not run when the body suspends or faults;
* `Prog.Satisfies` : what is true of outcome and state after a run, with `satisfies_bind` and
  `Prog.Satisfies.mono`;
* `quietly` : a computation without its outcome; with such a finalizer a `tryFinally` comes to what its body
  comes to, `tryFinally_quietly`;
* `Preserves` : a computation leaves a part of the state as it is, with `preserves_bind`.
-/

namespace Effect

inductive Outcome (ε β φ α : Type) where
  | returned (a : α)
  | raised (e : ε)
  | yielded (b : β)
  | fault (f : φ)

def Prog (σ ε β φ α : Type) := σ → Outcome ε β φ α × σ

section Prog
variable {σ ε β φ α γ : Type}

/-- What a continuation makes of an outcome and a state. -/
def andThen (r : Outcome ε β φ α × σ) (f : α → Prog σ ε β φ γ) : Outcome ε β φ γ × σ :=
  match r with
  | (.returned a, s) => f a s
  | (.raised e, s) => (.raised e, s)
  | (.yielded b, s) => (.yielded b, s)
  | (.fault f, s) => (.fault f, s)

instance : Monad (Prog σ ε β φ) where
  pure a s := (.returned a, s)
  bind x f s := andThen (x s) f

def raise (e : ε) : Prog σ ε β φ α := fun s => (.raised e, s)

def suspend (b : β) : Prog σ ε β φ α := fun s => (.yielded b, s)

def stuck (f : φ) : Prog σ ε β φ α := fun s => (.fault f, s)

def read : Prog σ ε β φ σ := fun s => (.returned s, s)

def modify (f : σ → σ) : Prog σ ε β φ Unit := fun s => (.returned (), f s)

/-- What the finalizer makes of the outcome of the body. -/
def runFinally (r : Outcome ε β φ α × σ) (fin : Prog σ ε β φ Unit) : Outcome ε β φ α × σ :=
  match r with
  | (.returned a, s) => andThen (fin s) fun _ s => (.returned a, s)
  | (.raised e, s) => andThen (fin s) fun _ s => (.raised e, s)
  | (.yielded b, s) => (.yielded b, s)
  | (.fault f, s) => (.fault f, s)

/-- `try: body finally: fin`. -/
def tryFinally (body : Prog σ ε β φ α) (fin : Prog σ ε β φ Unit) : Prog σ ε β φ α :=
  fun s => runFinally (body s) fin

@[simp] theorem pure_apply (a : α) (s : σ) : (pure a : Prog σ ε β φ α) s = (.returned a, s) := rfl

theorem bind_apply (x : Prog σ ε β φ α) (f : α → Prog σ ε β φ γ) (s : σ) :
    (x >>= f) s = andThen (x s) f := rfl

@[simp] theorem raise_apply (e : ε) (s : σ) : (raise e : Prog σ ε β φ α) s = (.raised e, s) := rfl

@[simp] theorem suspend_apply (b : β) (s : σ) : (suspend b : Prog σ ε β φ α) s = (.yielded b, s) := rfl

@[simp] theorem stuck_apply (f : φ) (s : σ) : (stuck f : Prog σ ε β φ α) s = (.fault f, s) := rfl

@[simp] theorem read_apply (s : σ) : (read : Prog σ ε β φ σ) s = (.returned s, s) := rfl

@[simp] theorem modify_apply (f : σ → σ) (s : σ) : (modify f : Prog σ ε β φ Unit) s = (.returned (), f s) :=
  rfl

@[simp] theorem andThen_returned (a : α) (s : σ) (f : α → Prog σ ε β φ γ) :
    andThen (.returned a, s) f = f a s := rfl

@[simp] theorem andThen_raised (e : ε) (s : σ) (f : α → Prog σ ε β φ γ) :
    andThen (.raised e, s) f = (.raised e, s) := rfl

@[simp] theorem andThen_yielded (b : β) (s : σ) (f : α → Prog σ ε β φ γ) :
    andThen (.yielded b, s) f = (.yielded b, s) := rfl

@[simp] theorem andThen_fault (x : φ) (s : σ) (f : α → Prog σ ε β φ γ) :
    andThen (.fault x, s) f = (.fault x, s) := rfl

theorem bind_of_returned {x : Prog σ ε β φ α} {s s' : σ} {a : α} (h : x s = (.returned a, s'))
    (f : α → Prog σ ε β φ γ) : (x >>= f) s = f a s' := by
  rw [bind_apply, h, andThen_returned]

theorem tryFinally_apply (body : Prog σ ε β φ α) (fin : Prog σ ε β φ Unit) (s : σ) :
    tryFinally body fin s = runFinally (body s) fin := rfl

/-! ## What is true after a run -/

/-- After a run from `s`, outcome and state satisfy `Q`. -/
def Prog.Satisfies (c : Prog σ ε β φ α) (s : σ) (Q : Outcome ε β φ α → σ → Prop) : Prop :=
  Q (c s).1 (c s).2

theorem Prog.Satisfies.mono {c : Prog σ ε β φ α} {s : σ} {Q Q' : Outcome ε β φ α → σ → Prop}
    (h : c.Satisfies s Q) (hQ : ∀ o s', Q o s' → Q' o s') : c.Satisfies s Q' :=
  hQ _ _ h

/-- To run `x` and then `f`: the ends of `x` other than a return are ends. -/
theorem satisfies_bind {x : Prog σ ε β φ α} {f : α → Prog σ ε β φ γ} {s : σ}
    {Q : Outcome ε β φ γ → σ → Prop}
    (h : x.Satisfies s fun o s' =>
      match o with
      | .returned a => (f a).Satisfies s' Q
      | .raised e => Q (.raised e) s'
      | .yielded b => Q (.yielded b) s'
      | .fault f => Q (.fault f) s') : (x >>= f).Satisfies s Q := by
  unfold Prog.Satisfies at h ⊢
  rw [bind_apply]
  generalize x s = r at h ⊢
  rcases r with ⟨_ | _ | _ | _, s'⟩ <;> exact h

/-! ## Finalizers that only act -/

/-- `c` is run for what it does to the state. -/
def quietly (c : Prog σ ε β φ α) : Prog σ ε β φ Unit := fun s => (.returned (), (c s).2)

theorem quietly_of_returned {c : Prog σ ε β φ Unit} {s : σ} (h : (c s).1 = .returned ()) :
    quietly c s = c s := by
  rw [quietly, ← h]

/-- A finalizer that only acts leaves the outcome to the body. -/
theorem tryFinally_quietly (body : Prog σ ε β φ α) (fin : Prog σ ε β φ Unit) (s : σ) :
    (tryFinally body (quietly fin) s).1 = (body s).1 := by
  rw [tryFinally_apply]
  rcases body s with ⟨_ | _ | _ | _, t⟩ <;> rfl

/-! ## What a computation leaves -/

/-- The part `f` of the state is the same after a run. -/
def Preserves {τ : Type} (f : σ → τ) (c : Prog σ ε β φ α) : Prop := ∀ s, c.Satisfies s fun _ s' => f s' = f s

section Preserves
variable {τ : Type} {f : σ → τ}

theorem Preserves.eq {c : Prog σ ε β φ α} (h : Preserves f c) (s : σ) : f (c s).2 = f s := h s

theorem preserves_pure (a : α) : Preserves f (pure a : Prog σ ε β φ α) := fun _ => rfl

theorem preserves_raise (e : ε) : Preserves f (raise e : Prog σ ε β φ α) := fun _ => rfl

theorem preserves_suspend (b : β) : Preserves f (suspend b : Prog σ ε β φ α) := fun _ => rfl

theorem preserves_read : Preserves f (read : Prog σ ε β φ σ) := fun _ => rfl

theorem preserves_modify {g : σ → σ} (h : ∀ s, f (g s) = f s) :
    Preserves f (modify g : Prog σ ε β φ Unit) := h

theorem preserves_bind {x : Prog σ ε β φ α} {g : α → Prog σ ε β φ γ} (hx : Preserves f x)
    (hg : ∀ a, Preserves f (g a)) : Preserves f (x >>= g) := by
  intro s
  apply satisfies_bind
  apply (hx s).mono
  intro o t ht
  rcases o with a | e | b | x
  · exact (hg a t).mono fun _ u hu => hu.trans ht
  · exact ht
  · exact ht
  · exact ht

end Preserves

end Prog

end Effect
