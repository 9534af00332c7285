import Mathlib

/-!
# A flat memory

* `Region`, `read`, `write` : what a part of the memory holds, and the memory with something else in it
  (`read_write_self`, `read_write_of_disjoint`);
* `AgreeOn` : two memories hold the same on a set of addresses;
* `runSteps` : a list of steps, one after the other, each with a result;
* `Local` : a step that reads and writes its own addresses alone; `runSteps_local` : steps with disjoint addresses
  leave there what each of them leaves alone, and the run fails only where one of them does.
-/

namespace FlatMemory

/-! ## Regions -/

structure Region where
  base : Nat
  size : Nat
  deriving DecidableEq, Repr

/-- The address is in the region. -/
def Region.Has (r : Region) (a : Nat) : Prop := r.base ≤ a ∧ a < r.base + r.size

instance (r : Region) (a : Nat) : Decidable (r.Has a) := by
  unfold Region.Has
  infer_instance

abbrev Memory (α : Type*) := Nat → α

section Regions
variable {α : Type*} {mem mem' : Memory α} {r r' : Region} {xs : List α}

def read (mem : Memory α) (r : Region) : List α := (List.range r.size).map fun i => mem (r.base + i)

def write (mem : Memory α) (r : Region) (xs : List α) : Memory α := fun a =>
  if r.Has a then xs.getD (a - r.base) (mem a) else mem a

@[simp] theorem length_read (mem : Memory α) (r : Region) : (read mem r).length = r.size := by
  simp [read]

theorem write_of_not_has {a : Nat} (h : ¬ r.Has a) : write mem r xs a = mem a := by
  rw [write, if_neg h]

theorem read_congr (h : ∀ a, r.Has a → mem' a = mem a) : read mem' r = read mem r := by
  unfold read
  apply List.map_congr_left
  intro i hi
  rw [List.mem_range] at hi
  exact h _ ⟨by omega, by omega⟩

/-- What was written is read back. -/
theorem read_write_self (h : xs.length = r.size) : read (write mem r xs) r = xs := by
  apply List.ext_getElem
  · rw [length_read, h]
  · intro i hi hi'
    have hhas : r.Has (r.base + i) := ⟨by omega, by omega⟩
    simp only [read, List.getElem_map, List.getElem_range, write, if_pos hhas]
    rw [show r.base + i - r.base = i by omega, List.getD_eq_getElem?_getD, List.getElem?_eq_getElem hi']
    rfl

/-- A region that has no address of the one written to is as it was. -/
theorem read_write_of_disjoint (h : ∀ a, r'.Has a → ¬ r.Has a) : read (write mem r xs) r' = read mem r' :=
  read_congr fun a ha => write_of_not_has (h a ha)

/-! ## Agreement -/

def AgreeOn (W : Nat → Prop) (mem mem' : Memory α) : Prop := ∀ a, W a → mem' a = mem a

theorem AgreeOn.refl (W : Nat → Prop) (mem : Memory α) : AgreeOn W mem mem := fun _ _ => rfl

theorem AgreeOn.symm {W : Nat → Prop} (h : AgreeOn W mem mem') : AgreeOn W mem' mem :=
  fun a ha => (h a ha).symm

theorem AgreeOn.trans {W : Nat → Prop} {mem'' : Memory α} (h : AgreeOn W mem mem') (h' : AgreeOn W mem' mem'') :
    AgreeOn W mem mem'' := fun a ha => (h' a ha).trans (h a ha)

theorem AgreeOn.mono {W W' : Nat → Prop} (h : AgreeOn W mem mem') (hW : ∀ a, W' a → W a) : AgreeOn W' mem mem' :=
  fun a ha => h a (hW a ha)

theorem AgreeOn.read {W : Nat → Prop} (h : AgreeOn W mem mem') (hr : ∀ a, r.Has a → W a) :
    read mem' r = read mem r := read_congr fun a ha => h a (hr a ha)

/-- The same, written to both, leaves them in agreement. -/
theorem AgreeOn.write {W : Nat → Prop} (h : AgreeOn W mem mem') (r : Region) (xs : List α) :
    AgreeOn W (write mem r xs) (write mem' r xs) := by
  intro a ha
  unfold FlatMemory.write
  rw [h a ha]

theorem agreeOn_write {W : Nat → Prop} (h : ∀ a, W a → ¬ r.Has a) : AgreeOn W mem (write mem r xs) :=
  fun a ha => write_of_not_has (h a ha)

end Regions

/-! ## Local steps -/

section Steps
variable {α β ε ι : Type*} {step : ι → Memory α → Except ε (Memory α × β)} {own : ι → Nat → Prop}

/-- The steps of a list on the memory, with their results. -/
def runSteps (step : ι → Memory α → Except ε (Memory α × β)) : List ι → Memory α → Except ε (Memory α × List β)
  | [], mem => .ok (mem, [])
  | i :: is, mem =>
    match step i mem with
    | .error e => .error e
    | .ok (mem', b) => (runSteps step is mem').map fun (mem'', bs) => (mem'', b :: bs)

/-- The step writes its own addresses alone, and what it does depends on what is there alone. -/
structure Local (step : ι → Memory α → Except ε (Memory α × β)) (own : ι → Nat → Prop) (i : ι) : Prop where
  frame : ∀ mem mem' b, step i mem = .ok (mem', b) → AgreeOn (fun a => ¬ own i a) mem mem'
  congr : ∀ mem₁ mem₂ mem' b, AgreeOn (own i) mem₁ mem₂ → step i mem₁ = .ok (mem', b) →
    ∃ mem'', step i mem₂ = .ok (mem'', b) ∧ AgreeOn (own i) mem' mem''

/-- Steps that each succeed from the start succeed one after the other, and leave on the addresses of each of them
what it leaves alone. -/
theorem runSteps_local {is : List ι} {mem : Memory α} (hlocal : ∀ i ∈ is, Local step own i)
    (hdis : is.Pairwise fun i j => ∀ a, own i a → ¬ own j a) (hok : ∀ i ∈ is, ∃ r, step i mem = .ok r) :
    ∃ mem' bs, runSteps step is mem = .ok (mem', bs) ∧ AgreeOn (fun a => ∀ i ∈ is, ¬ own i a) mem mem' ∧
      List.Forall₂ (fun i b => ∃ m, step i mem = .ok (m, b) ∧ AgreeOn (own i) m mem') is bs := by
  induction is generalizing mem with
  | nil => exact ⟨mem, [], rfl, AgreeOn.refl _ _, List.Forall₂.nil⟩
  | cons i is ih =>
    rw [List.pairwise_cons] at hdis
    obtain ⟨⟨m, b⟩, hstep⟩ := hok i (by simp)
    have hframe := (hlocal i (by simp)).frame mem m b hstep
    -- what the other steps read is as it was
    have hagree (j : ι) (hj : j ∈ is) : AgreeOn (own j) mem m :=
      hframe.mono fun a ha hi => hdis.1 j hj a hi ha
    have hok' : ∀ j ∈ is, ∃ r, step j m = .ok r := by
      intro j hj
      obtain ⟨⟨m', b'⟩, hj'⟩ := hok j (by simp [hj])
      obtain ⟨m'', hm'', -⟩ := (hlocal j (by simp [hj])).congr mem m m' b' (hagree j hj) hj'
      exact ⟨_, hm''⟩
    obtain ⟨mem', bs, hrun, hrest, hall⟩ := ih (fun j hj => hlocal j (by simp [hj])) hdis.2 hok'
    refine ⟨mem', b :: bs, ?_, ?_, ?_⟩
    · rw [runSteps, hstep]
      dsimp only
      rw [hrun]
      rfl
    · have hfirst : AgreeOn (fun a => ∀ j ∈ i :: is, ¬ own j a) mem m := hframe.mono fun a ha => ha i (by simp)
      exact hfirst.trans (hrest.mono fun a ha j hj => ha j (by simp [hj]))
    · refine List.Forall₂.cons ⟨m, hstep, hrest.mono fun a hi j hj => hdis.1 j hj a hi⟩ ?_
      rw [List.forall₂_iff_zip] at hall ⊢
      refine ⟨hall.1, ?_⟩
      intro j b' hzip
      have hj := (List.of_mem_zip hzip).1
      obtain ⟨m', hm', hagree'⟩ := hall.2 hzip
      obtain ⟨m'', hm'', hm⟩ := (hlocal j (by simp [hj])).congr m mem m' b' (hagree j hj).symm hm'
      exact ⟨m'', hm'', hm.symm.trans hagree'⟩

/-- A run of local steps that succeeds is one of steps that each succeed from the start. -/
theorem exists_of_runSteps {is : List ι} {mem : Memory α} {r : Memory α × List β}
    (hlocal : ∀ i ∈ is, Local step own i) (hdis : is.Pairwise fun i j => ∀ a, own i a → ¬ own j a)
    (h : runSteps step is mem = .ok r) : ∀ i ∈ is, ∃ r, step i mem = .ok r := by
  induction is generalizing mem r with
  | nil => simp
  | cons i is ih =>
    rw [List.pairwise_cons] at hdis
    rw [runSteps] at h
    rcases hstep : step i mem with e | ⟨m, b⟩ <;> rw [hstep] at h
    · cases h
    · have hframe := (hlocal i (by simp)).frame mem m b hstep
      dsimp only at h
      rcases hrun : runSteps step is m with e | r' <;> rw [hrun] at h
      · cases h
      · intro j hj
        rcases List.mem_cons.mp hj with rfl | hj
        · exact ⟨_, hstep⟩
        · obtain ⟨⟨m', b'⟩, hm'⟩ := ih (fun j hj => hlocal j (by simp [hj])) hdis.2 hrun j hj
          have hagree : AgreeOn (own j) m mem := (hframe.mono fun a ha hi => hdis.1 j hj a hi ha).symm
          obtain ⟨m'', hm'', -⟩ := (hlocal j (by simp [hj])).congr m mem m' b' hagree hm'
          exact ⟨_, hm''⟩

end Steps

end FlatMemory
