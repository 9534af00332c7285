import Monary.Cmonary.Flat
import Monary.Mongoc.DriverLoads

/-!
# Loads into one memory

* `flatLoadQuery` : `monary_load_query` over the cursor of the driver where the arrays of all columns are parts of one
  memory, `flatLoadRows` being its `while`;
* `flatBlocks_eq` : loads into arrays that are apart leave in them what the loads of column data leave, return the same
  and write nothing else.
-/

namespace Monary
open ByteSeq CInt FlatMemory

/-- The variables of `monary_load_query`, and the memory. -/
structure FlatLoad where
  mem : Memory UInt8
  driver : Driver
  row : Nat

/-- The `while` of `monary_load_query`; the first argument is `coldata->num_rows - row`. -/
def flatLoadRows [CImpl] (net : Connection) (fd : FlatData) : Nat → FlatLoad → C FlatLoad
  | 0, s => return s
  | n + 1, s =>
    if (driverError s.driver).isSome then return s
    else
      match driverNext net s.driver with
      | (none, driver) => return { s with driver }
      | (some bson, driver) => do
        let (mem, _) ← flatBsonToArrays (some fd) s.row (some bson) s.mem
        -- `++row`
        if s.row + 1 = 2 ^ 31 then .error .undefined
        flatLoadRows net fd n ⟨mem, driver, s.row + 1⟩

/-- `monary_load_query`; the row of the result is what it returns. -/
def flatLoadQuery [CImpl] (net : Connection) (fd : FlatData) (mem : Memory UInt8) (driver : Driver) : C FlatLoad :=
  flatLoadRows net fd fd.numRows ⟨mem, driver, 0⟩

def flatLoadOf [CImpl] (net : Connection) (fd : FlatData) (mem : Memory UInt8) (d : Driver) :
    C (Memory UInt8 × Driver × Nat) := do
  let r ← flatLoadQuery net fd mem d
  return (r.mem, r.driver, r.row)

/-- Every array has its size, and no two arrays overlap. -/
structure FlatData.Placed (fd : FlatData) : Prop where
  owns : ∀ c ∈ fd.columns, c.Owns fd.numRows
  apart : fd.Apart
  split : ∀ c ∈ fd.columns, ∀ r r', c.storage = some r → c.mask = some r' → ∀ a, r.Has a → ¬ r'.Has a

/-- The memory outside of the arrays. -/
def FlatData.Outside (fd : FlatData) (a : Nat) : Prop := ∀ c ∈ fd.columns, ¬ c.Has a

section
variable [CImpl] {net : Connection} {fd : FlatData}

/-- A document. -/
theorem flatBsonToArrays_placed (hp : fd.Placed) {row : Nat} (hrow : row < fd.numRows) {bson : Bson} {mem : Memory UInt8}
    {cd : Option ColumnData} {masked : Int}
    (h : monaryBsonToArrays (some (fd.view mem)) row (some bson) = .ok (cd, masked)) :
    ∃ mem', flatBsonToArrays (some fd) row (some bson) mem = .ok (mem', masked) ∧ cd = some (fd.view mem') ∧
      AgreeOn fd.Outside mem mem' := by
  obtain ⟨cd, rfl⟩ : ∃ cd', cd = some cd' := by
    unfold monaryBsonToArrays at h
    dsimp only at h
    rw [if_neg (by show ¬ row > fd.numRows; omega)] at h
    obtain ⟨rs, -, h⟩ := bind_eq_ok h
    cases h
    exact ⟨_, rfl⟩
  obtain ⟨mem', hrun, hview⟩ := flatBsonToArrays_eq hp.owns hp.apart hrow hp.split h
  obtain ⟨mem'', bs, hrun', hframe, -⟩ := flatBsonToArrays_of_ok hp.apart hrow (ok_of_flatBsonToArrays hp.apart hrow hrun)
  rw [hrun] at hrun'
  obtain ⟨rfl, -⟩ := Prod.mk.inj (Except.ok.inj hrun')
  exact ⟨mem', hrun, by rw [hview], hframe⟩

theorem flatLoadRows_eq (hp : fd.Placed) {n : Nat} {s : FlatLoad} {t : DriverLoad} (hn : s.row + n = fd.numRows)
    (h : driverLoadRows net n ⟨fd.view s.mem, s.driver, s.row⟩ = .ok t) :
    ∃ mem', flatLoadRows net fd n s = .ok ⟨mem', t.driver, t.row⟩ ∧ t.coldata = fd.view mem' ∧
      AgreeOn fd.Outside s.mem mem' := by
  induction n generalizing s with
  | zero =>
    cases h
    exact ⟨s.mem, rfl, rfl, AgreeOn.refl _ _⟩
  | succ n ih =>
    obtain ⟨mem, driver, row⟩ := s
    rw [driverLoadRows] at h
    rw [flatLoadRows]
    dsimp only at h hn ⊢
    by_cases hfailed : (driverError driver).isSome = true
    · rw [if_pos hfailed] at h ⊢
      cases h
      exact ⟨mem, rfl, rfl, AgreeOn.refl _ _⟩
    · rw [if_neg hfailed] at h ⊢
      rcases hnext : driverNext net driver with ⟨_ | bson, driver'⟩
      · rw [hnext] at h
        cases h
        exact ⟨mem, rfl, rfl, AgreeOn.refl _ _⟩
      · rw [hnext] at h
        dsimp only at h ⊢
        obtain ⟨⟨cd, masked⟩, hload, h⟩ := bind_eq_ok h
        obtain ⟨mem₁, hrun, rfl, hframe⟩ := flatBsonToArrays_placed hp (by omega) hload
        rw [hrun]
        by_cases h31 : row + 1 = 2 ^ 31
        · dsimp only at h
          rw [if_pos h31] at h
          cases h
        · dsimp only at h
          rw [if_neg h31] at h
          obtain ⟨mem', hrest, hview, hframe'⟩ := ih (s := ⟨mem₁, driver', row + 1⟩) (by dsimp only; omega) h
          refine ⟨mem', ?_, hview, hframe.trans hframe'⟩
          show (if row + 1 = 2 ^ 31 then _ else _) = _
          rw [if_neg h31]
          exact hrest

/-- Loads into arrays that are apart leave in them what the loads of column data leave, return the same, and write
nothing else. -/
theorem flatBlocks_eq (hp : fd.Placed) {n : Nat} {mem : Memory UInt8} {d : Driver} {blocks : List (ColumnData × Nat)}
    (h : loadBlocks (driverLoadOf net) n (fd.view mem) d = .ok blocks) :
    ∃ mems, loadBlocks (flatLoadOf net fd) n mem d = .ok mems ∧ blocks = mems.map (fun m => (fd.view m.1, m.2)) ∧
      ∀ m ∈ mems, AgreeOn fd.Outside mem m.1 := by
  induction n generalizing mem d blocks with
  | zero =>
    cases h
    exact ⟨[], rfl, rfl, by simp⟩
  | succ n ih =>
    rw [loadBlocks] at h
    obtain ⟨⟨cd, d', row⟩, hload, h⟩ := bind_eq_ok h
    obtain ⟨rest, hrest, h⟩ := bind_eq_ok h
    cases h
    obtain ⟨t, hquery, hload⟩ := bind_eq_ok hload
    cases hload
    have hstart : driverLoadRows net fd.numRows ⟨fd.view mem, d, 0⟩ = .ok t := hquery
    obtain ⟨mem', hrun, hview, hframe⟩ := flatLoadRows_eq hp (s := ⟨mem, d, 0⟩) (Nat.zero_add _) hstart
    dsimp only at hrest hframe
    rw [hview] at hrest
    obtain ⟨mems, hruns, hblocks, hframes⟩ := ih hrest
    refine ⟨(mem', t.row) :: mems, ?_, ?_, ?_⟩
    · have hflat : flatLoadOf net fd mem d = .ok (mem', t.driver, t.row) := by
        rw [flatLoadOf, flatLoadQuery, hrun]
        rfl
      rw [loadBlocks, hflat]
      show (loadBlocks (flatLoadOf net fd) n mem' t.driver >>= fun rest => .ok ((mem', t.row) :: rest)) = _
      rw [hruns]
      rfl
    · rw [List.map_cons, hview, hblocks]
    · intro m hm
      rcases List.mem_cons.mp hm with rfl | hm
      · exact hframe
      · exact hframe.trans (hframes m hm)

end

/-- A `bool` column on `d` of one row, with its mask behind its storage. -/
def boolPlaces : FlatData := ⟨1, [⟨some [0x64], MonaryType.bool.code, 0, some ⟨0, 1⟩, some ⟨1, 1⟩⟩]⟩

theorem boolPlaces_placed : boolPlaces.Placed := by
  refine ⟨?_, List.pairwise_singleton _ _, ?_⟩
  · intro c hc
    obtain rfl := List.mem_singleton.mp hc
    refine ⟨Option.some_ne_none _, by decide, ⟨_, rfl, ?_⟩, ⟨_, rfl, rfl⟩⟩
    intro t ht
    obtain rfl : MonaryType.bool = t := Option.some.inj ((by decide : _ = some _).symm.trans ht)
    rfl
  · intro c hc r r' hr hr' a ha ha'
    obtain rfl := List.mem_singleton.mp hc
    cases hr
    cases hr'
    obtain ⟨-, hlt⟩ := ha
    obtain ⟨hle, -⟩ := ha'
    dsimp only at hlt hle
    omega

/-- The columns with the row masked. -/
def boolMasked : ColumnData := ⟨1, [⟨some [0x64], MonaryType.bool.code, 0, some [0], some [1]⟩]⟩

theorem flatBlocks_boolPlaces : ∃ mems,
    @loadBlocks (Memory UInt8) Driver (@flatLoadOf CImpl.x86 twoReplies boolPlaces) 2 (fun _ => 0) findAll = .ok mems ∧
      [(boolMasked, 1), (boolMasked, 1)] = mems.map (fun m => (boolPlaces.view m.1, m.2)) ∧
      ∀ m ∈ mems, AgreeOn boolPlaces.Outside (fun _ => 0) m.1 :=
  @flatBlocks_eq CImpl.x86 twoReplies boolPlaces boolPlaces_placed 2 (fun _ => 0) findAll _ rfl

end Monary
