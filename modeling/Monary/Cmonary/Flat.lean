import Monary.Cmonary.Lengths
import Monary.Cmonary.Writes
import Monary.Lib.FlatMemory

/-!
# The columns in one memory

* `FlatItem`, `flatLoadColumn`, `flatBsonToArrays` : `monary_bson_to_arrays` where the arrays of all columns are
  parts of one memory;
* `local_flatLoadColumn` : a turn of the loop reads and writes the arrays of its column alone;
* `flatBsonToArrays_eq` : the run on disjoint arrays is the run on column data that has them apart;
* `ColumnsIndependent`, `columnsIndependent_iff` : each column gets what it gets alone, unless the row is a negative
  `int` to the loaders.
-/

namespace Monary
open ByteSeq CInt FlatMemory

/-- `monary_column_item`, with the places of its arrays. -/
structure FlatItem where
  field : Option Bytes
  type : Nat
  typeArg : Nat
  storage : Option Region
  mask : Option Region
  deriving DecidableEq, Repr

structure FlatData where
  numRows : Nat
  columns : List FlatItem
  deriving DecidableEq, Repr

namespace FlatItem

/-- What the loaders see of the column. -/
def view (c : FlatItem) (mem : Memory UInt8) : ColumnItem :=
  ⟨c.field, c.type, c.typeArg, c.storage.map (read mem), c.mask.map (read mem)⟩

/-- The column without its arrays. -/
def item (c : FlatItem) : ColumnItem := ⟨c.field, c.type, c.typeArg, none, none⟩

/-- The address is one of the arrays of the column. -/
def Has (c : FlatItem) (a : Nat) : Prop := ∃ r, (c.storage = some r ∨ c.mask = some r) ∧ r.Has a

/-- No array of the one column overlaps one of the other. -/
def Apart (c d : FlatItem) : Prop := ∀ a, c.Has a → ¬ d.Has a

/-- A name, a storage for `n` rows of the column's type, and a mask of `n` bytes. -/
structure Owns (c : FlatItem) (n : Nat) : Prop where
  field_ne : c.field ≠ none
  width_lt : c.typeArg < 2 ^ 32
  storage_eq : ∃ r, c.storage = some r ∧
    ∀ t, MonaryType.ofCode c.type = some t → r.size = n * t.itemSize c.typeArg
  mask_eq : ∃ r, c.mask = some r ∧ r.size = n

theorem Owns.view {c : FlatItem} {n : Nat} (h : c.Owns n) (mem : Memory UInt8) : (c.view mem).Owns n := by
  obtain ⟨r, hr, hsize⟩ := h.storage_eq
  obtain ⟨r', hr', hsize'⟩ := h.mask_eq
  refine ⟨h.width_lt, ⟨read mem r, ?_, ?_⟩, ⟨read mem r', ?_, ?_⟩⟩
  · rw [FlatItem.view, hr, Option.map_some]
  · intro t ht
    rw [length_read]
    exact hsize t ht
  · rw [FlatItem.view, hr', Option.map_some]
  · rw [length_read]
    exact hsize'

/-- Memories that agree on the arrays of a column show the same column. -/
theorem view_congr {c : FlatItem} {mem mem' : Memory UInt8} (h : AgreeOn c.Has mem mem') : c.view mem' = c.view mem := by
  have hread (r : Option Region) (hr : r = c.storage ∨ r = c.mask) : r.map (read mem') = r.map (read mem) := by
    rcases r with _ | r
    · rfl
    · rw [Option.map_some, Option.map_some]
      congr 1
      exact h.read fun a ha => ⟨r, hr.imp Eq.symm Eq.symm, ha⟩
  unfold view
  rw [hread _ (Or.inl rfl), hread _ (Or.inr rfl)]

end FlatItem

/-! ## `monary_bson_to_arrays` on the memory -/

/-- What a loader or the mask left in an array goes to the array's place. -/
def store (mem : Memory UInt8) (r : Option Region) (bytes : Option Bytes) : Memory UInt8 :=
  match r, bytes with
  | some r, some bytes => write mem r bytes
  | _, _ => mem

section Flat
variable [CImpl]

/-- The body of the loop over the columns: the memory after it, and `success`. -/
def flatLoadColumn (row : Nat) (bson : Bson) (c : FlatItem) (mem : Memory UInt8) : C (Memory UInt8 × Bool) := do
  if c.field = none then .error .undefined
  let loaded ← loadResolved row bson (c.view mem)
  let mem := store mem c.storage loaded
  let mask ← setMask (c.view mem).mask row loaded.isSome
  return (store mem c.mask mask, loaded.isSome)

/-- `monary_bson_to_arrays`: the memory after it and the number of columns that were masked. -/
def flatBsonToArrays (coldata : Option FlatData) (row : Nat) (bsonData : Option Bson) (mem : Memory UInt8) :
    C (Memory UInt8 × Int) :=
  match coldata, bsonData with
  | some coldata, some bson =>
    if row > coldata.numRows then return (mem, -1)
    else do
      let (mem, successes) ← runSteps (flatLoadColumn row bson) coldata.columns mem
      return (mem, successes.countP (!·))
  | _, _ => return (mem, -1)

variable {c : FlatItem} {mem mem' : Memory UInt8} {row n : Nat} {bson : Bson}

omit [CImpl] in
theorem agreeOn_store {r : Option Region} (h : r = c.storage ∨ r = c.mask) (bytes : Option Bytes) :
    AgreeOn (fun a => ¬ c.Has a) mem (store mem r bytes) := by
  unfold store
  split
  · next r xs =>
    exact agreeOn_write fun a ha hr => ha ⟨r, h.imp Eq.symm Eq.symm, hr⟩
  · exact AgreeOn.refl _ _

omit [CImpl] in
theorem AgreeOn.store {W : Nat → Prop} (h : AgreeOn W mem mem') (r : Option Region) (bytes : Option Bytes) :
    AgreeOn W (store mem r bytes) (store mem' r bytes) := by
  unfold Monary.store
  split
  · exact h.write _ _
  · exact h

/-- A turn of the loop reads and writes the arrays of its column alone. -/
theorem local_flatLoadColumn (row : Nat) (bson : Bson) (c : FlatItem) :
    Local (flatLoadColumn row bson) FlatItem.Has c := by
  refine ⟨?_, ?_⟩
  · intro mem mem' b h
    unfold flatLoadColumn at h
    by_cases hf : c.field = none
    · rw [if_pos hf] at h
      cases h
    · rw [if_neg hf] at h
      obtain ⟨loaded, -, h⟩ := bind_eq_ok h
      obtain ⟨mask, -, h⟩ := bind_eq_ok h
      cases h
      exact (agreeOn_store (Or.inl rfl) loaded).trans (agreeOn_store (Or.inr rfl) mask)
  · intro mem₁ mem₂ mem' b hagree h
    unfold flatLoadColumn at h ⊢
    by_cases hf : c.field = none
    · rw [if_pos hf] at h
      cases h
    · rw [if_neg hf] at h ⊢
      obtain ⟨loaded, hl, h⟩ := bind_eq_ok h
      obtain ⟨mask, hm, h⟩ := bind_eq_ok h
      cases h
      have hstored := AgreeOn.store hagree c.storage loaded
      refine ⟨store (store mem₂ c.storage loaded) c.mask mask, ?_, AgreeOn.store hstored c.mask mask⟩
      rw [FlatItem.view_congr hagree, hl]
      show (do let mask ← setMask (c.view (store mem₂ c.storage loaded)).mask row loaded.isSome; _) = _
      rw [FlatItem.view_congr hstored, hm]
      rfl

omit [CImpl] in
theorem setMask_ok {m : Bytes} (success : Bool) (h : row < m.length) :
    ∃ m', setMask (some m) row success = .ok (some m') ∧ m'.length = m.length := by
  have hlen : row + [if success then (0 : UInt8) else 1].length ≤ m.length := h
  refine ⟨_, ?_, length_patch hlen⟩
  unfold setMask
  dsimp only
  rw [memcpyTo_ok hlen]
  rfl

/-- A turn returns where the load of the column does. -/
theorem flatLoadColumn_ok_iff (hc : c.Owns n) (hrow : row < n) :
    (∃ r, flatLoadColumn row bson c mem = .ok r) ↔ ∃ loaded, loadResolved row bson (c.view mem) = .ok loaded := by
  obtain ⟨r', hr', hsize'⟩ := hc.mask_eq
  unfold flatLoadColumn
  rw [if_neg hc.field_ne]
  constructor
  · rintro ⟨r, h⟩
    obtain ⟨loaded, hl, -⟩ := bind_eq_ok h
    exact ⟨loaded, hl⟩
  · rintro ⟨loaded, hl⟩
    obtain ⟨m', hm', -⟩ := setMask_ok (m := read (store mem c.storage loaded) r') loaded.isSome
      (by rw [length_read, hsize']; exact hrow)
    refine ⟨(store (store mem c.storage loaded) c.mask (some m'), loaded.isSome), ?_⟩
    rw [hl]
    show (do let mask ← setMask (c.mask.map (read (store mem c.storage loaded))) row loaded.isSome; _) = _
    rw [hr', Option.map_some, hm']
    rfl

/-- With its storage and its mask apart, a turn on the memory is the turn on the column's own arrays. -/
theorem flatLoadColumn_eq (hc : c.Owns n) (hrow : row < n)
    (hapart : ∀ r r', c.storage = some r → c.mask = some r' → ∀ a, r.Has a → ¬ r'.Has a) {c' : ColumnItem} {b : Bool}
    (h : loadColumn row bson (c.view mem) = .ok (c', b)) :
    ∃ mem', flatLoadColumn row bson c mem = .ok (mem', b) ∧ c.view mem' = c' := by
  obtain ⟨r, hr, -⟩ := hc.storage_eq
  obtain ⟨r', hr', hsize'⟩ := hc.mask_eq
  have hdis := hapart r r' hr hr'
  have hviewm (mem : Memory UInt8) : (c.view mem).mask = some (read mem r') := by rw [FlatItem.view, hr']; rfl
  have hviews (mem : Memory UInt8) : (c.view mem).storage = some (read mem r) := by rw [FlatItem.view, hr]; rfl
  have hview (mem : Memory UInt8) : c.view mem = ⟨c.field, c.type, c.typeArg, some (read mem r), some (read mem r')⟩ := by
    rw [FlatItem.view, hr, hr']
    rfl
  have hf : (c.view mem).field ≠ none := hc.field_ne
  rw [loadColumn_eq_resolved row bson hf] at h
  obtain ⟨loaded, hl, h⟩ := bind_eq_ok h
  -- the mask is not part of the storage
  have hmask : read (store mem c.storage loaded) r' = read mem r' := by
    rw [hr]
    rcases loaded with _ | s
    · rfl
    · exact read_write_of_disjoint fun a ha hra => hdis a hra ha
  have hstorage : read (store mem c.storage loaded) r = loaded.getD (read mem r) := by
    rw [hr]
    rcases loaded with _ | s
    · rfl
    · have hlen := length_loadResolved (hc.view mem) (hviews mem) hl
      rw [length_read] at hlen
      exact read_write_self hlen
  obtain ⟨m', hm', hlen'⟩ := setMask_ok (m := read mem r') loaded.isSome
    (by rw [length_read, hsize']; exact hrow)
  rw [hviewm, hm'] at h
  cases h
  refine ⟨store (store mem c.storage loaded) c.mask (some m'), ?_, ?_⟩
  · unfold flatLoadColumn
    rw [if_neg hc.field_ne, hl]
    show (do let mask ← setMask (c.view (store mem c.storage loaded)).mask row loaded.isSome; _) = _
    rw [hviewm, hmask, hm']
    rfl
  · have hr2 : read (store (store mem c.storage loaded) c.mask (some m')) r = loaded.getD (read mem r) := by
      rw [← hstorage, hr']
      exact read_write_of_disjoint hdis
    have hr3 : read (store (store mem c.storage loaded) c.mask (some m')) r' = m' := by
      rw [hr']
      exact read_write_self (by rw [hlen', length_read])
    rw [hview, hr2, hr3]
    show _ = ColumnItem.mk c.field c.type c.typeArg (loaded.orElse fun _ => (c.view mem).storage) (some m')
    rw [hviews]
    rcases loaded with _ | s <;> rfl

/-! ## The whole row -/

variable {fd : FlatData}

/-- The data that the code finds in the memory. -/
def FlatData.view (fd : FlatData) (mem : Memory UInt8) : ColumnData :=
  ⟨fd.numRows, fd.columns.map fun c => c.view mem⟩

/-- The arrays of the columns are pairwise disjoint. -/
def FlatData.Apart (fd : FlatData) : Prop := fd.columns.Pairwise FlatItem.Apart

theorem flatBsonToArrays_of_ok (hapart : fd.Apart) (hrow : row < fd.numRows)
    (hok : ∀ c ∈ fd.columns, ∃ r, flatLoadColumn row bson c mem = .ok r) :
    ∃ mem' bs, flatBsonToArrays (some fd) row (some bson) mem = .ok (mem', (bs.countP (!·) : Nat)) ∧
      AgreeOn (fun a => ∀ c ∈ fd.columns, ¬ c.Has a) mem mem' ∧
      List.Forall₂ (fun c b => ∃ m, flatLoadColumn row bson c mem = .ok (m, b) ∧ c.view mem' = c.view m)
        fd.columns bs := by
  obtain ⟨mem', bs, hrun, hrest, hall⟩ :=
    runSteps_local (fun c _ => local_flatLoadColumn row bson c) hapart hok
  refine ⟨mem', bs, ?_, hrest, ?_⟩
  · unfold flatBsonToArrays
    dsimp only
    rw [if_neg (by omega), hrun]
    rfl
  · refine hall.imp ?_
    rintro c b ⟨m, hm, hagree⟩
    exact ⟨m, hm, FlatItem.view_congr hagree⟩

theorem ok_of_flatBsonToArrays (hapart : fd.Apart) (hrow : row < fd.numRows) {r : Memory UInt8 × Int}
    (h : flatBsonToArrays (some fd) row (some bson) mem = .ok r) :
    ∀ c ∈ fd.columns, ∃ r, flatLoadColumn row bson c mem = .ok r := by
  unfold flatBsonToArrays at h
  dsimp only at h
  rw [if_neg (by omega)] at h
  obtain ⟨r', hrun, -⟩ := bind_eq_ok h
  exact exists_of_runSteps (fun c _ => local_flatLoadColumn row bson c) hapart hrun

/-- On disjoint arrays, a run on the memory is the run on column data that has the arrays apart. -/
theorem flatBsonToArrays_eq (hfd : ∀ c ∈ fd.columns, c.Owns fd.numRows) (hapart : fd.Apart) (hrow : row < fd.numRows)
    (hown : ∀ c ∈ fd.columns, ∀ r r', c.storage = some r → c.mask = some r' → ∀ a, r.Has a → ¬ r'.Has a)
    {cd : ColumnData} {masked : Int}
    (h : monaryBsonToArrays (some (fd.view mem)) row (some bson) = .ok (some cd, masked)) :
    ∃ mem', flatBsonToArrays (some fd) row (some bson) mem = .ok (mem', masked) ∧ fd.view mem' = cd := by
  unfold monaryBsonToArrays at h
  dsimp only at h
  rw [if_neg (by show ¬ row > fd.numRows; omega)] at h
  obtain ⟨rs, hmap, h⟩ := bind_eq_ok h
  cases h
  have hloads : List.Forall₂ (fun c r => loadColumn row bson (c.view mem) = .ok r) fd.columns rs := by
    have := forall₂_of_mapM hmap
    rwa [FlatData.view, List.forall₂_map_left_iff] at this
  have hturn (c : FlatItem) (hc : c ∈ fd.columns) (c' : ColumnItem) (b : Bool)
      (hload : loadColumn row bson (c.view mem) = .ok (c', b)) :=
    flatLoadColumn_eq (hfd c hc) hrow (hown c hc) hload
  have hok : ∀ c ∈ fd.columns, ∃ r, flatLoadColumn row bson c mem = .ok r := by
    intro c hc
    obtain ⟨i, hi, rfl⟩ := List.mem_iff_getElem.mp hc
    have hi' : i < rs.length := by rw [← hloads.length_eq]; exact hi
    obtain ⟨m, hm, -⟩ := hturn _ hc _ _ (hloads.get hi hi')
    exact ⟨_, hm⟩
  obtain ⟨mem', bs, hrun, -, hall⟩ := flatBsonToArrays_of_ok hapart hrow hok
  have hlen : bs.length = rs.length := hall.length_eq.symm.trans hloads.length_eq
  -- the two runs agree column by column
  have hpoint (i : Nat) (hi : i < fd.columns.length) (hb : i < bs.length) (hr : i < rs.length) :
      fd.columns[i].view mem' = rs[i].1 ∧ bs[i] = rs[i].2 := by
    obtain ⟨m, hm, hview⟩ := hturn _ (List.getElem_mem hi) _ _ (hloads.get hi hr)
    obtain ⟨m', hm', hview'⟩ := hall.get hi hb
    obtain ⟨rfl, hbool⟩ := Prod.mk.inj (Except.ok.inj (hm.symm.trans hm'))
    exact ⟨hview'.trans hview, hbool.symm⟩
  have hbs : bs = rs.map Prod.snd := by
    apply List.ext_getElem
    · rw [List.length_map, hlen]
    · intro i hi hi'
      rw [List.length_map] at hi'
      rw [List.getElem_map]
      exact (hpoint i (by rw [hall.length_eq]; exact hi) hi hi').2
  have hcs : fd.columns.map (fun c => c.view mem') = rs.map Prod.fst := by
    apply List.ext_getElem
    · rw [List.length_map, List.length_map, hloads.length_eq]
    · intro i hi hi'
      rw [List.length_map] at hi hi'
      rw [List.getElem_map, List.getElem_map]
      exact (hpoint i hi (by rw [hlen]; exact hi') hi').1
  refine ⟨mem', ?_, ?_⟩
  · rw [hrun, hbs, List.countP_map]
    rfl
  · rw [FlatData.view, hcs]
    rfl

/-- The run comes to a result, and leaves in the arrays of each column what the run on this column alone leaves. -/
def ColumnsIndependent (fd : FlatData) (row : Nat) (bson : Bson) : Prop :=
  ∀ mem : Memory UInt8, ∃ mem' masked, flatBsonToArrays (some fd) row (some bson) mem = .ok (mem', masked) ∧
    ∀ c ∈ fd.columns, ∃ m k, flatBsonToArrays (some ⟨fd.numRows, [c]⟩) row (some bson) mem = .ok (m, k) ∧
      c.view mem' = c.view m

theorem flatBsonToArrays_singleton {b : Bool} {m : Memory UInt8} (hrow : row < n)
    (h : flatLoadColumn row bson c mem = .ok (m, b)) :
    flatBsonToArrays (some ⟨n, [c]⟩) row (some bson) mem = .ok (m, ([b].countP (!·) : Nat)) := by
  unfold flatBsonToArrays
  dsimp only
  rw [if_neg (by omega), runSteps, h]
  rfl

theorem columnsIndependent_of_ok (hapart : fd.Apart) (hrow : row < fd.numRows)
    (hok : ∀ mem, ∀ c ∈ fd.columns, ∃ r, flatLoadColumn row bson c mem = .ok r) : ColumnsIndependent fd row bson := by
  intro mem
  obtain ⟨mem', bs, hrun, -, hall⟩ := flatBsonToArrays_of_ok hapart hrow (hok mem)
  refine ⟨mem', _, hrun, ?_⟩
  intro c hc
  obtain ⟨i, hi, rfl⟩ := List.mem_iff_getElem.mp hc
  obtain ⟨m, hm, hview⟩ := hall.get hi (by rw [← hall.length_eq]; exact hi)
  exact ⟨m, _, flatBsonToArrays_singleton hrow hm, hview⟩

/-- No column of type `length` meets a code value or text that is not valid UTF-8. -/
def FlatData.Measurable (fd : FlatData) (bson : Bson) : Prop :=
  ∀ c ∈ fd.columns, MonaryType.ofCode c.type = some .length → ∀ it, resolve c.item bson = some it →
    it.bsonType ≠ some .code ∧ (it.bsonType = some .utf8 → ∃ text, it.stringContent = utf8Content text)

/-- The loads of the columns, in terms of the document. -/
theorem flatLoadColumn_ok_iff_stores (hfd : ∀ c ∈ fd.columns, c.Owns fd.numRows) (hrow : row < fd.numRows)
    (h32 : row < 2 ^ 32) (hmul : ∀ c ∈ fd.columns, row * c.typeArg < 2 ^ 31) (hm : fd.Measurable bson)
    (hc : c ∈ fd.columns) :
    (∃ r, flatLoadColumn row bson c mem = .ok r) ↔ row < 2 ^ 31 ∨ c.item.StoresNothing bson := by
  have hown := hfd c hc
  rw [flatLoadColumn_ok_iff hown hrow]
  refine loadResolved_ok_iff (hown.view mem) hrow h32 (hmul c hc) ⟨hown.field_ne, ?_⟩
  intro ht it hit
  obtain ⟨e, rfl⟩ := resolve_element hit
  obtain ⟨hcode, htext⟩ := hm c hc ht e.iter hit
  refine ⟨hcode, ?_⟩
  intro hty
  obtain ⟨text, htext⟩ := htext hty
  obtain ⟨p, hp⟩ := ptr_string hty
  rw [hp, htext]
  exact CharsEnd.of_utf8Content text p

/-- A row that is a negative `int` is not written where it belongs. -/
theorem not_columnsIndependent (hfd : ∀ c ∈ fd.columns, c.Owns fd.numRows) (hapart : fd.Apart)
    (hrow : row < fd.numRows) (h31 : 2 ^ 31 ≤ row) (h32 : row < 2 ^ 32)
    (hmul : ∀ c ∈ fd.columns, row * c.typeArg < 2 ^ 31) (hm : fd.Measurable bson) (hc : c ∈ fd.columns)
    (hstored : ¬ c.item.StoresNothing bson) : ¬ ColumnsIndependent fd row bson := by
  intro h
  obtain ⟨mem', k, hrun, -⟩ := h fun _ => 0
  have hok := ok_of_flatBsonToArrays hapart hrow hrun c hc
  rcases (flatLoadColumn_ok_iff_stores hfd hrow h32 hmul hm hc).mp hok with hlt | hnothing
  · omega
  · exact hstored hnothing

/-- The columns are independent where the row is an `int`, or nothing is stored. -/
theorem columnsIndependent_iff (hfd : ∀ c ∈ fd.columns, c.Owns fd.numRows) (hapart : fd.Apart)
    (hrow : row < fd.numRows) (h32 : row < 2 ^ 32) (hmul : ∀ c ∈ fd.columns, row * c.typeArg < 2 ^ 31)
    (hm : fd.Measurable bson) :
    ColumnsIndependent fd row bson ↔ row < 2 ^ 31 ∨ ∀ c ∈ fd.columns, c.item.StoresNothing bson := by
  constructor
  · intro h
    by_cases h31 : row < 2 ^ 31
    · exact Or.inl h31
    · right
      intro c hc
      by_contra hstored
      exact not_columnsIndependent hfd hapart hrow (by omega) h32 hmul hm hc hstored h
  · intro h
    apply columnsIndependent_of_ok hapart hrow
    intro mem c hc
    exact (flatLoadColumn_ok_iff_stores hfd hrow h32 hmul hm hc).mpr (h.imp id fun h => h c hc)

/-- What a column gets does not depend on the columns beside it. -/
theorem view_eq_of_columnsIndependent {fd fd' : FlatData} {mem₁ mem₂ : Memory UInt8} {k₁ k₂ : Int}
    (h : ColumnsIndependent fd row bson) (h' : ColumnsIndependent fd' row bson) (hn : fd.numRows = fd'.numRows)
    (hc : c ∈ fd.columns) (hc' : c ∈ fd'.columns)
    (hrun : flatBsonToArrays (some fd) row (some bson) mem = .ok (mem₁, k₁))
    (hrun' : flatBsonToArrays (some fd') row (some bson) mem = .ok (mem₂, k₂)) : c.view mem₁ = c.view mem₂ := by
  obtain ⟨m, k, hm, hcols⟩ := h mem
  obtain ⟨m', k', hm', hcols'⟩ := h' mem
  cases hrun.symm.trans hm
  cases hrun'.symm.trans hm'
  obtain ⟨a, j, ha, hview⟩ := hcols c hc
  obtain ⟨a', j', ha', hview'⟩ := hcols' c hc'
  rw [hn] at ha
  cases ha.symm.trans ha'
  rw [hview, hview']

end Flat

/-- `bool` columns on `d` and `e` of `n` rows, their four arrays one behind the other. -/
def adjacentColumns (n : Nat) : FlatData :=
  ⟨n, [⟨some [0x64], MonaryType.bool.code, 0, some ⟨0, n⟩, some ⟨n, n⟩⟩,
    ⟨some [0x65], MonaryType.bool.code, 0, some ⟨2 * n, n⟩, some ⟨3 * n, n⟩⟩]⟩

section Adjacent
variable (n : Nat)

theorem adjacentColumns_owns : ∀ c ∈ (adjacentColumns n).columns, c.Owns n := by
  have hsize (t : MonaryType) (ht : MonaryType.ofCode MonaryType.bool.code = some t) : n = n * t.itemSize 0 := by
    obtain rfl : MonaryType.bool = t := Option.some.inj ((MonaryType.ofCode_code .bool).symm.trans ht)
    exact (Nat.mul_one n).symm
  intro c hc
  simp only [adjacentColumns, List.mem_cons, List.not_mem_nil, or_false] at hc
  rcases hc with rfl | rfl
  · exact ⟨by simp, Nat.two_pow_pos 32, ⟨_, rfl, hsize⟩, ⟨_, rfl, rfl⟩⟩
  · exact ⟨by simp, Nat.two_pow_pos 32, ⟨_, rfl, hsize⟩, ⟨_, rfl, rfl⟩⟩

theorem adjacentColumns_apart : (adjacentColumns n).Apart := by
  unfold FlatData.Apart adjacentColumns
  rw [List.pairwise_cons]
  refine ⟨?_, List.pairwise_singleton _ _⟩
  intro d hd
  obtain rfl := List.mem_singleton.mp hd
  rintro a ⟨r, hr, ha⟩ ⟨r', hr', ha'⟩
  simp only [Option.some.injEq] at hr hr'
  unfold Region.Has at ha ha'
  rcases hr with rfl | rfl <;> rcases hr' with rfl | rfl <;> dsimp only at ha ha' <;> omega

theorem adjacentColumns_width {c : FlatItem} (hc : c ∈ (adjacentColumns n).columns) :
    c.type = MonaryType.bool.code ∧ c.typeArg = 0 := by
  simp only [adjacentColumns, List.mem_cons, List.not_mem_nil, or_false] at hc
  rcases hc with rfl | rfl <;> exact ⟨rfl, rfl⟩

theorem adjacentColumns_mul (row : Nat) : ∀ c ∈ (adjacentColumns n).columns, row * c.typeArg < 2 ^ 31 := by
  intro c hc
  rw [(adjacentColumns_width n hc).2, Nat.mul_zero]
  decide

theorem adjacentColumns_measurable (bson : Bson) : (adjacentColumns n).Measurable bson := by
  intro c hc ht
  rw [(adjacentColumns_width n hc).1] at ht
  exact absurd ht (by decide)

end Adjacent

/-- Row 2147483648 of two columns is before their storage for the loader of `{"d": true}`. -/
theorem not_forall_columnsIndependent :
    ¬ ∀ (fd : FlatData) (row : Nat) (bson : Bson), (∀ c ∈ fd.columns, c.Owns fd.numRows) → fd.Apart →
      row < fd.numRows → row < 2 ^ 32 → (∀ c ∈ fd.columns, row * c.typeArg < 2 ^ 31) → fd.Measurable bson →
      @ColumnsIndependent CImpl.x86 fd row bson := by
  intro h
  let _ := CImpl.x86
  have hfd := adjacentColumns_owns (2 ^ 31 + 1)
  have hapart := adjacentColumns_apart (2 ^ 31 + 1)
  have hmul := adjacentColumns_mul (2 ^ 31 + 1) (2 ^ 31)
  have hm := adjacentColumns_measurable (2 ^ 31 + 1) trueDocument
  have hrow : 2 ^ 31 < (adjacentColumns (2 ^ 31 + 1)).numRows := Nat.lt_succ_self _
  let c : FlatItem := ⟨some [0x64], MonaryType.bool.code, 0, some ⟨0, 2 ^ 31 + 1⟩, some ⟨2 ^ 31 + 1, 2 ^ 31 + 1⟩⟩
  have hc : c ∈ (adjacentColumns (2 ^ 31 + 1)).columns := List.mem_cons_self
  have hcell : cellPayload c.item trueDocument = some [1] := by decide
  refine not_columnsIndependent hfd hapart hrow (le_refl _) (by decide) hmul hm hc ?_ (h _ _ _ hfd hapart hrow (by decide) hmul hm)
  intro hnothing
  exact absurd (hnothing [1] hcell) (by decide)

/-- Row 0 of the same columns. -/
theorem columnsIndependent_adjacentColumns : @ColumnsIndependent CImpl.x86 (adjacentColumns 1) 0 trueDocument :=
  (@columnsIndependent_iff CImpl.x86 _ _ _ (adjacentColumns_owns 1) (adjacentColumns_apart 1) (by decide) (by decide)
    (adjacentColumns_mul 1 0) (adjacentColumns_measurable 1 trueDocument)).mpr (Or.inl (by decide))

end Monary
