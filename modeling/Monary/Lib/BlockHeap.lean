import Monary.Lib.Custody

/-!
# A heap of blocks

* `BlockHeap B` : blocks that hold a `B` each, with the log of what was made, used and released. That the log is in
  custody and that `next` was never made are fields;
* `alloc`, `write`, `free` : a write or a release of what is not live is `none`;
* `block_alloc`, `write_eq_some`, `free_eq_some` : what the blocks are after it;
* `count_release_eq_one` : what was made and is not live was released once.
-/

namespace Handles

structure BlockHeap (B : Type) where
  next : Nat
  block : Nat → Option B
  log : List (Op Nat)
  custody : Custody (fun _ _ => False) log {p | (block p).isSome}
  bounded : ∀ p, .acquire p ∈ log → p < next

namespace BlockHeap
variable {B : Type} {heap heap' : BlockHeap B} {p q : Nat} {b : B}

/-- The blocks that are there. -/
def live (heap : BlockHeap B) : Set Nat := {p | (heap.block p).isSome}

theorem mem_live : p ∈ heap.live ↔ (heap.block p).isSome := Iff.rfl

theorem mem_live_of_block (h : heap.block p = some b) : p ∈ heap.live := by
  simp [mem_live, h]

theorem lt_next (h : p ∈ heap.live) : p < heap.next :=
  heap.bounded p (heap.custody.acquired h)

theorem next_notMem_live (heap : BlockHeap B) : heap.next ∉ heap.live := fun h => (lt_next h).false

def empty : BlockHeap B where
  next := 0
  block := fun _ => none
  log := []
  custody := by simpa using Custody.nil
  bounded := by simp

/-! ## Blocks that are made, written and released -/

/-- A block that was not there before; its pointer is `heap.next`. -/
def alloc (heap : BlockHeap B) (b : B) : BlockHeap B where
  next := heap.next + 1
  block := Function.update heap.block heap.next (some b)
  log := heap.log ++ [.acquire heap.next]
  custody := by
    have hnew : Op.acquire heap.next ∉ heap.log := fun h => (heap.bounded _ h).false
    have hset : {p | (Function.update heap.block heap.next (some b) p).isSome} = insert heap.next heap.live := by
      ext p
      by_cases hp : p = heap.next <;> simp [hp, live]
    rw [hset]
    exact heap.custody.acquire hnew (by simp)
  bounded := by
    intro p hp
    rcases List.mem_append.mp hp with hp | hp
    · exact Nat.lt_succ_of_lt (heap.bounded p hp)
    · have : p = heap.next := by simpa using hp
      omega

def write (heap : BlockHeap B) (p : Nat) (b : B) : Option (BlockHeap B) :=
  if h : (heap.block p).isSome then
    some
      { heap with
        block := Function.update heap.block p (some b)
        log := heap.log ++ [.use p]
        custody := by
          have hset : {q | (Function.update heap.block p (some b) q).isSome} = heap.live := by
            ext q
            by_cases hq : q = p <;> simp [hq, live, h]
          rw [hset]
          exact heap.custody.use h
        bounded := by simpa using heap.bounded }
  else none

def free (heap : BlockHeap B) (p : Nat) : Option (BlockHeap B) :=
  if h : (heap.block p).isSome then
    some
      { heap with
        block := Function.update heap.block p none
        log := heap.log ++ [.release p]
        custody := by
          have hset : {q | (Function.update heap.block p none q).isSome} = heap.live \ {p} := by
            ext q
            by_cases hq : q = p <;> simp [hq, live]
          rw [hset]
          exact heap.custody.release h (by simp)
        bounded := by simpa using heap.bounded }
  else none

/-! ## What the blocks are afterwards -/

theorem live_of_update_some (h : heap'.block = Function.update heap.block p (some b)) :
    heap'.live = insert p heap.live := by
  ext q
  by_cases hq : q = p <;> simp [mem_live, h, hq]

theorem live_of_update_none (h : heap'.block = Function.update heap.block p none) :
    heap'.live = heap.live \ {p} := by
  ext q
  by_cases hq : q = p <;> simp [mem_live, h, hq]

@[simp] theorem block_alloc (heap : BlockHeap B) (b : B) :
    (heap.alloc b).block = Function.update heap.block heap.next (some b) := rfl

@[simp] theorem live_alloc (heap : BlockHeap B) (b : B) : (heap.alloc b).live = insert heap.next heap.live :=
  live_of_update_some (heap.block_alloc b)

theorem block_alloc_of_mem (hp : p ∈ heap.live) : (heap.alloc b).block p = heap.block p := by
  rw [block_alloc, Function.update_of_ne (lt_next hp).ne]

theorem write_eq_some (h : p ∈ heap.live) (b : B) :
    ∃ heap', heap.write p b = some heap' ∧ heap'.block = Function.update heap.block p (some b) := by
  rw [write, dif_pos (mem_live.mp h)]
  exact ⟨_, rfl, rfl⟩

theorem free_eq_some (h : p ∈ heap.live) :
    ∃ heap', heap.free p = some heap' ∧ heap'.block = Function.update heap.block p none := by
  rw [free, dif_pos (mem_live.mp h)]
  exact ⟨_, rfl, rfl⟩

/-- What was made and is not live was released once. -/
theorem count_release_eq_one (hmade : .acquire p ∈ heap.log) (hgone : p ∉ heap.live) :
    heap.log.count (.release p) = 1 := by
  rcases heap.custody.releases_eq p with ⟨hlive, -⟩ | ⟨hnot, -⟩ | ⟨-, -, h1⟩
  · exact absurd hlive hgone
  · exact absurd hmade hnot
  · exact h1

end BlockHeap

end Handles
