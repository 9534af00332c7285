import Monary.Cmonary.ColumnHeap

/-!
# Who owns the names of the columns

* `OwnedBlocks` : the live blocks are those of the column data and others that are not its own;
* `OwnedBlocks.set`, `OwnedBlocks.free` : a name that is set over is no longer of the column data, and the release
  leaves it;
* `Ran`, `exists_ran` : what a run of calls has made and lost;
* `Ran.lost_eq_empty_iff`, `exists_lost` : how many names are left after the release;
* `NamesOwned`, `namesOwned_iff` : the live blocks are the structure, the array and a name for each column that is
  set, when no column is set twice.
-/

namespace Monary
open ByteSeq CInt Handles

variable {P : Type}

/-! ## The blocks that are live -/

/-- The live blocks are those of the column data and those of `base`, which are others. -/
structure OwnedBlocks (base : Set Nat) (heap : ColumnHeap P) (cd arr numRows : Nat) (items : List (HeapItem P)) : Prop
    extends Laid heap cd arr numRows items where
  live : heap.live = base ∪ columnBlocks cd arr items
  apart : Disjoint base (columnBlocks cd arr items)

section Laid
variable {heap heap' : ColumnHeap P} {base : Set Nat} {cd arr numRows c : Nat} {items : List (HeapItem P)}

namespace OwnedBlocks

/-- What the blocks of the column data are is read off the heap. -/
theorem eq_of_laid {arr' numRows' : Nat} {items' : List (HeapItem P)}
    (ho : OwnedBlocks base heap cd arr numRows items) (hl : Laid heap cd arr' numRows' items') :
    arr' = arr ∧ items' = items := by
  have hcd := hl.coldata
  rw [ho.coldata] at hcd
  have harr : arr' = arr := by
    simp at hcd
    exact hcd.2.2.symm
  have hitems := hl.columns
  rw [harr, ho.columns] at hitems
  exact ⟨harr, by simpa using hitems.symm⟩

/-- A name is set; the name that the column had is no longer of the column data. -/
theorem set {text : Bytes} {item : HeapItem P} (ho : OwnedBlocks base heap cd arr numRows items)
    (hs : ItemSet heap heap' arr c items text item) :
    OwnedBlocks (base ∪ {p | fieldAt items c = some p}) heap' cd arr numRows (items.set c item) := by
  refine ⟨hs.laid ho.toLaid, ?_, ?_⟩
  · rw [hs.live (BlockHeap.mem_live_of_block ho.columns), ho.live]
    ext p
    simp only [Set.mem_insert_iff, Set.mem_union, columnBlocks, Set.mem_ofPred_eq, hs.fieldAt_eq]
    constructor
    · rintro (rfl | hp | rfl | rfl | ⟨i, hi⟩)
      · exact Or.inr (Or.inr (Or.inr ⟨c, if_pos rfl⟩))
      · exact Or.inl (Or.inl hp)
      · exact Or.inr (Or.inl rfl)
      · exact Or.inr (Or.inr (Or.inl rfl))
      · by_cases hic : i = c
        · exact Or.inl (Or.inr (hic ▸ hi))
        · exact Or.inr (Or.inr (Or.inr ⟨i, by rw [if_neg hic, hi]⟩))
    · rintro ((hp | hp) | rfl | rfl | ⟨i, hi⟩)
      · exact Or.inr (Or.inl hp)
      · exact Or.inr (Or.inr (Or.inr (Or.inr ⟨c, hp⟩)))
      · exact Or.inr (Or.inr (Or.inl rfl))
      · exact Or.inr (Or.inr (Or.inr (Or.inl rfl)))
      · split at hi
        · exact Or.inl (Option.some_inj.mp hi).symm
        · exact Or.inr (Or.inr (Or.inr (Or.inr ⟨i, hi⟩)))
  · rw [Set.disjoint_left]
    rintro p hp (rfl | rfl | ⟨i, hi⟩)
    · rcases hp with hp | hp
      · exact Set.disjoint_left.mp ho.apart hp (Or.inl rfl)
      · exact (ho.field_ne hp).1 rfl
    · rcases hp with hp | hp
      · exact Set.disjoint_left.mp ho.apart hp (Or.inr (Or.inl rfl))
      · exact (ho.field_ne hp).2 rfl
    · rw [hs.fieldAt_eq] at hi
      split at hi
      · -- the new name was not there before
        have hp : p ∈ heap.live := by
          rw [ho.live]
          exact hp.imp_right fun hp => Or.inr (Or.inr ⟨c, hp⟩)
        exact (BlockHeap.lt_next hp).ne (Option.some_inj.mp hi).symm
      · rcases hp with hp | hp
        · exact Set.disjoint_left.mp ho.apart hp (Or.inr (Or.inr ⟨i, hi⟩))
        · exact absurd (ho.distinct i c p hi hp) (by assumption)

/-- The release leaves what is not of the column data. -/
theorem free (ho : OwnedBlocks base heap cd arr numRows items) :
    ∃ heap', heapFreeColumnData (some cd) heap = .ok (1, heap') ∧ heap'.live = base := by
  obtain ⟨heap', hfree, hlive⟩ := heapFreeColumnData_live ho.toLaid
  refine ⟨heap', hfree, ?_⟩
  rw [hlive, ho.live, Set.union_sdiff_right, ho.apart.sdiff_eq_left]

end OwnedBlocks

/-! ## A run of calls -/

/-- The column numbers of the calls whose checks pass. -/
def acceptedColumns (numColumns : Nat) (calls : List (SetCall P)) : List Nat :=
  (calls.filter (·.Accepted numColumns)).map (·.colnum)

/-- The columns of the calls that returned 1. -/
def columnsSet (calls : List (SetCall P)) (rs : List Int) : Set Nat :=
  {i | ∃ call, (call, (1 : Int)) ∈ calls.zip rs ∧ call.colnum = i}

/-- What calls on column data have made: `lost` are the names that were set over. -/
structure Ran [Malloc] (base : Set Nat) (heap₀ : ColumnHeap P) (cd arr numRows numColumns : Nat)
    (calls : List (SetCall P)) (rs : List Int) (heap : ColumnHeap P) (items : List (HeapItem P)) (lost : Finset Nat) :
    Prop where
  run : setItems (some cd) calls heap₀ = .ok (rs, heap)
  owned : OwnedBlocks (base ∪ lost) heap cd arr numRows items
  length_items : items.length = numColumns
  length_rs : rs.length = calls.length
  apart : Disjoint base lost
  isSet : ∀ i, (fieldAt items i).isSome ↔ i ∈ acceptedColumns numColumns calls
  returned : columnsSet calls rs = {i | i ∈ acceptedColumns numColumns calls}
  count : lost.card + (acceptedColumns numColumns calls).toFinset.card = (acceptedColumns numColumns calls).length

variable {numColumns : Nat} {calls : List (SetCall P)} {call : SetCall P} {rs : List Int}

theorem acceptedColumns_append_singleton (numColumns : Nat) (calls : List (SetCall P)) (call : SetCall P) :
    acceptedColumns numColumns (calls ++ [call]) =
      acceptedColumns numColumns calls ++ if call.Accepted numColumns then [call.colnum] else [] := by
  unfold acceptedColumns
  rw [List.filter_append, List.map_append]
  by_cases hcall : call.Accepted numColumns <;> simp [hcall]

theorem columnsSet_append_singleton (hlen : rs.length = calls.length) (call : SetCall P) (r : Int) :
    columnsSet (calls ++ [call]) (rs ++ [r]) = columnsSet calls rs ∪ {i | r = 1 ∧ call.colnum = i} := by
  unfold columnsSet
  rw [List.zip_append hlen.symm]
  ext i
  simp only [List.zip_cons_cons, List.zip_nil_right, List.mem_append, List.mem_singleton, Prod.mk.injEq,
    Set.mem_union, Set.mem_ofPred_eq]
  constructor
  · rintro ⟨other, hmem | ⟨rfl, hr⟩, hcol⟩
    · exact Or.inl ⟨other, hmem, hcol⟩
    · exact Or.inr ⟨hr.symm, hcol⟩
  · rintro (⟨other, hmem, hcol⟩ | ⟨hr, hcol⟩)
    · exact ⟨other, Or.inl hmem, hcol⟩
    · exact ⟨call, Or.inr ⟨rfl, hr.symm⟩, hcol⟩

section Runs
variable [Malloc] {heap₀ heap₁ : ColumnHeap P} {coldata : Option Nat} {lost : Finset Nat}

theorem setItems_append_singleton (hrun : setItems coldata calls heap₀ = .ok (rs, heap)) (call : SetCall P) :
    setItems coldata (calls ++ [call]) heap₀ =
      heapSetColumnItem coldata call heap >>= fun p => pure (rs ++ [p.1], p.2) := by
  induction calls generalizing heap₀ rs with
  | nil =>
    obtain ⟨rfl, rfl⟩ : [] = rs ∧ heap₀ = heap := by simpa [setItems, pure, Except.pure] using hrun
    rfl
  | cons first calls ih =>
    unfold setItems at hrun
    obtain ⟨⟨r, heap₁⟩, hfirst, hrest⟩ := bind_eq_ok hrun
    obtain ⟨⟨rs', heap₂⟩, hcalls, hend⟩ := bind_eq_ok hrest
    obtain ⟨rfl, rfl⟩ : r :: rs' = rs ∧ heap₂ = heap := by simpa [pure, Except.pure] using hend
    have hlast := ih hcalls
    rw [List.cons_append, setItems, hfirst, ok_bind]
    dsimp only
    rw [hlast, bind_assoc]
    rfl

theorem Ran.nil (ho : OwnedBlocks base heap₀ cd arr numRows (List.replicate numColumns HeapItem.zeroed)) :
    Ran base heap₀ cd arr numRows numColumns [] [] heap₀ (List.replicate numColumns HeapItem.zeroed) ∅ where
  run := rfl
  owned := by simpa using ho
  length_items := List.length_replicate
  length_rs := rfl
  apart := by simp
  isSet := by simp [acceptedColumns]
  returned := by simp [acceptedColumns, columnsSet]
  count := by simp [acceptedColumns]

/-- A call that is refused leaves everything as it is. -/
theorem Ran.refused (hr : Ran base heap₀ cd arr numRows numColumns calls rs heap items lost)
    (hcall : ¬ call.Accepted numColumns) (hset : heapSetColumnItem (some cd) call heap = .ok (0, heap)) :
    Ran base heap₀ cd arr numRows numColumns (calls ++ [call]) (rs ++ [0]) heap items lost where
  run := by
    rw [setItems_append_singleton hr.run, hset]
    rfl
  owned := hr.owned
  length_items := hr.length_items
  length_rs := by simp [hr.length_rs]
  apart := hr.apart
  isSet := by
    intro i
    rw [acceptedColumns_append_singleton, if_neg hcall, List.append_nil, hr.isSet]
  returned := by
    rw [columnsSet_append_singleton hr.length_rs, acceptedColumns_append_singleton, if_neg hcall, List.append_nil,
      hr.returned]
    simp
  count := by
    rw [acceptedColumns_append_singleton, if_neg hcall, List.append_nil, hr.count]

/-- The names that were set over, once a call has set column `c`. -/
theorem Ran.exists_lost (hr : Ran base heap₀ cd arr numRows numColumns calls rs heap items lost) (c : Nat) :
    ∃ lost' : Finset Nat, (base ∪ lost' : Set Nat) = base ∪ lost ∪ {p | fieldAt items c = some p} ∧
      Disjoint base lost' ∧
        lost'.card + (insert c (acceptedColumns numColumns calls).toFinset).card =
          (acceptedColumns numColumns calls).length + 1 := by
  have hisSet := hr.isSet c
  have hcount := hr.count
  cases hfield : fieldAt items c with
  | none =>
    have hnot : c ∉ (acceptedColumns numColumns calls).toFinset := by
      simpa [hfield] using hisSet
    refine ⟨lost, by simp, hr.apart, ?_⟩
    rw [Finset.card_insert_of_notMem hnot]
    omega
  | some p =>
    have hin : c ∈ (acceptedColumns numColumns calls).toFinset := by
      simpa [hfield] using hisSet
    have hp : p ∉ base ∪ lost := fun h =>
      Set.disjoint_left.mp hr.owned.apart h (Or.inr (Or.inr ⟨c, hfield⟩))
    rw [Set.mem_union, not_or] at hp
    refine ⟨insert p lost, ?_, ?_, ?_⟩
    · ext q
      simp [@eq_comm _ p]
    · rw [Finset.coe_insert, Set.disjoint_insert_right]
      exact ⟨hp.1, hr.apart⟩
    · rw [Finset.insert_eq_self.mpr hin, Finset.card_insert_of_notMem hp.2]
      omega

/-- A call that sets an item loses the name that the column had. -/
theorem Ran.set (hr : Ran base heap₀ cd arr numRows numColumns calls rs heap items lost)
    (hcall : call.Accepted numColumns) (hset : heapSetColumnItem (some cd) call heap = .ok (1, heap'))
    (hs : ItemSet heap heap' arr call.colnum items (cString call.field) (call.item heap.next)) :
    ∃ lost', Ran base heap₀ cd arr numRows numColumns (calls ++ [call]) (rs ++ [1]) heap'
      (items.set call.colnum (call.item heap.next)) lost' := by
  have happend := acceptedColumns_append_singleton numColumns calls call
  rw [if_pos hcall] at happend
  have hmem : ∀ i, i ∈ acceptedColumns numColumns (calls ++ [call]) ↔
      i ∈ acceptedColumns numColumns calls ∨ i = call.colnum := by
    intro i
    rw [happend, List.mem_append, List.mem_singleton]
  have hfinset : (acceptedColumns numColumns (calls ++ [call])).toFinset =
      insert call.colnum (acceptedColumns numColumns calls).toFinset := by
    ext i
    simp [hmem, or_comm]
  have howned := hr.owned.set hs
  obtain ⟨lost', hlost, hapart, hcount⟩ := hr.exists_lost call.colnum
  exact ⟨lost', {
    run := by
      rw [setItems_append_singleton hr.run, hset]
      rfl
    owned := by rwa [hlost]
    length_items := by rw [List.length_set, hr.length_items]
    length_rs := by simp [hr.length_rs]
    apart := hapart
    isSet := by
      intro i
      rw [hmem, hs.fieldAt_eq, ← hr.isSet]
      by_cases hi : i = call.colnum <;> simp [hi]
    returned := by
      rw [columnsSet_append_singleton hr.length_rs, hr.returned]
      ext i
      simp [hmem, @eq_comm _ i, or_comm]
    count := by
      rw [hfinset, hcount, happend, List.length_append, List.length_singleton] }⟩

/-- Calls that follow the allocation run to their end. -/
theorem exists_ran (ho : OwnedBlocks base heap₀ cd arr numRows (List.replicate numColumns HeapItem.zeroed))
    (hshort : ShortNames numColumns calls) :
    ∃ rs heap items lost, Ran base heap₀ cd arr numRows numColumns calls rs heap items lost := by
  induction calls using List.reverseRecOn with
  | nil => exact ⟨[], heap₀, _, ∅, .nil ho⟩
  | append_singleton calls call ih =>
    obtain ⟨rs, heap, items, lost, hr⟩ := ih fun other hother => hshort other (List.mem_append_left _ hother)
    rcases heapSetColumnItem_cases hr.owned.toLaid call with
      ⟨hcall, hset⟩ | ⟨hcall, hlong, -⟩ | ⟨hcall, -, heap', hset, hs⟩
    · rw [hr.length_items] at hcall
      exact ⟨_, _, _, _, hr.refused hcall hset⟩
    · rw [hr.length_items] at hcall
      have := hshort call (by simp) hcall
      omega
    · rw [hr.length_items] at hcall
      obtain ⟨lost', hr'⟩ := hr.set hcall hset hs
      exact ⟨_, _, _, _, hr'⟩

end Runs

/-! ## The names are owned -/

/-- A column, and what its `field` points to. -/
def columnAt (heap : ColumnHeap P) (cd i : Nat) : Option (HeapItem P × Option (HeapBlock P)) :=
  match heap.block cd with
  | some (.coldata _ _ (some arr)) =>
    match heap.block arr with
    | some (.columns items) => items[i]?.map fun col => (col, col.field.bind heap.block)
    | _ => none
  | _ => none

/-- A call that returns 0 changes nothing, and one that returns 1 no other column. -/
structure OthersKept (coldata : Option Nat) (colnum : Nat) (heap heap' : ColumnHeap P) (r : Int) : Prop where
  result : r = 0 ∨ r = 1
  refused : r = 0 → heap' = heap
  others : r = 1 → ∀ cd, coldata = some cd →
    heap'.block cd = heap.block cd ∧ ∀ i ≠ colnum, columnAt heap' cd i = columnAt heap cd i

/-- The live blocks besides `base` are the structure, the array, and a name for each column that is set. -/
def NamesAt (base : Set Nat) (coldata : Option Nat) (heap : ColumnHeap P) (isSet : Set Nat) : Prop :=
  match coldata with
  | none => heap.live = base
  | some cd => ∃ arr numRows items, OwnedBlocks base heap cd arr numRows items ∧
    ∀ i, (fieldAt items i).isSome ↔ i ∈ isSet

/-- An allocation, calls of `monary_set_column_item`, and the release: the names are owned after every call, every
call keeps what it does not set, and every block that was made is released once. -/
def NamesOwned [Malloc] (heap : ColumnHeap P) (numColumns numRows : Nat) (calls : List (SetCall P)) : Prop :=
  ∃ coldata heap₀, heapAllocColumnData heap numColumns numRows = .ok (coldata, heap₀) ∧
    (∀ done, done <+: calls → ∃ rs heap₁, setItems coldata done heap₀ = .ok (rs, heap₁) ∧
      NamesAt heap.live coldata heap₁ (columnsSet done rs) ∧
      ∀ call, done ++ [call] <+: calls → ∃ r heap₂, heapSetColumnItem coldata call heap₁ = .ok (r, heap₂) ∧
        OthersKept coldata call.colnum heap₁ heap₂ r) ∧
    ∃ rs heap₁ r heap₂, setItems coldata calls heap₀ = .ok (rs, heap₁) ∧
      heapFreeColumnData coldata heap₁ = .ok (r, heap₂) ∧ heap₂.live = heap.live ∧
      ∀ p, .acquire p ∈ heap₂.log → p ∉ heap.live → heap₂.log.count (.release p) = 1

/-- The calls set no column twice, their names are counted by an `int`, and the array is a block. -/
structure SetOnce [Malloc] (numColumns : Nat) (calls : List (SetCall P)) : Prop where
  array : numColumns = 0 → Malloc.zeroBlock = true
  short : ShortNames numColumns calls
  once : (acceptedColumns numColumns calls).Nodup

theorem columnAt_eq (hl : Laid heap cd arr numRows items) (i : Nat) :
    columnAt heap cd i = items[i]?.map fun col => (col, col.field.bind heap.block) := by
  unfold columnAt
  rw [hl.coldata]
  dsimp only
  rw [hl.columns]

/-- The other columns of an item that is set. -/
theorem columnAt_set {text : Bytes} {item : HeapItem P} (hl : Laid heap cd arr numRows items)
    (hs : ItemSet heap heap' arr c items text item) {i : Nat} (hi : i ≠ c) :
    columnAt heap' cd i = columnAt heap cd i := by
  rw [columnAt_eq (hs.laid hl), columnAt_eq hl, List.getElem?_set_ne hi.symm]
  cases hcol : items[i]? with
  | none => rfl
  | some col =>
    cases hname : col.field with
    | none => simp [hname]
    | some p =>
      have hp : fieldAt items i = some p := by
        simp [fieldAt, hcol, hname]
      simp [hname, hs.block_field hl hp]

section Runs
variable [Malloc] {heap₀ heap₁ : ColumnHeap P} {coldata : Option Nat} {lost : Finset Nat}

/-- A call with a name that an `int` counts. -/
theorem exists_kept (hl : Laid heap cd arr numRows items) (call : SetCall P)
    (hshort : call.Accepted items.length → (cString call.field).length < 2 ^ 31) :
    ∃ r heap', heapSetColumnItem (some cd) call heap = .ok (r, heap') ∧
      OthersKept (some cd) call.colnum heap heap' r := by
  rcases heapSetColumnItem_cases hl call with ⟨-, hset⟩ | ⟨hcall, hlong, -⟩ | ⟨hcall, -, heap', hset, hs⟩
  · exact ⟨0, heap, hset, Or.inl rfl, fun _ => rfl, by simp⟩
  · have := hshort hcall
    omega
  · refine ⟨1, heap', hset, Or.inr rfl, by simp, fun _ cd' hcd' => ?_⟩
    obtain rfl : cd = cd' := Option.some_inj.mp hcd'
    refine ⟨?_, fun i hi => columnAt_set hl hs hi⟩
    rw [(hs.laid hl).coldata, hl.coldata, List.length_set]

/-- The names that were set over are none if no column was set twice, and only then. -/
theorem Ran.lost_eq_empty_iff (hr : Ran base heap₀ cd arr numRows numColumns calls rs heap items lost) :
    lost = ∅ ↔ (acceptedColumns numColumns calls).Nodup := by
  have hcount := hr.count
  rw [← Finset.card_eq_zero, ← Multiset.coe_nodup, ← Multiset.toFinset_card_eq_card_iff_nodup]
  change _ ↔ (acceptedColumns numColumns calls).toFinset.card = (acceptedColumns numColumns calls).length
  omega

/-- The names are owned where none was set over. -/
theorem Ran.namesAt_iff (hr : Ran base heap₀ cd arr numRows numColumns calls rs heap items lost) :
    NamesAt base (some cd) heap (columnsSet calls rs) ↔ lost = ∅ := by
  constructor
  · rintro ⟨arr', numRows', items', ho, -⟩
    obtain ⟨rfl, rfl⟩ := hr.owned.eq_of_laid ho.toLaid
    apply Finset.eq_empty_of_forall_notMem
    intro p hp
    have hlive : p ∈ heap.live := by
      rw [hr.owned.live]
      exact Or.inl (Or.inr hp)
    rw [ho.live] at hlive
    rcases hlive with hbase | hblocks
    · exact Set.disjoint_left.mp hr.apart hbase hp
    · exact Set.disjoint_left.mp hr.owned.apart (Or.inr hp) hblocks
  · rintro rfl
    have ho := hr.owned
    rw [Finset.coe_empty, Set.union_empty] at ho
    refine ⟨arr, numRows, items, ho, fun i => ?_⟩
    rw [hr.isSet, hr.returned]
    rfl

theorem owned_alloc {n : Nat} (heap : ColumnHeap P) (numRows : Nat) (hn : n ≤ maxNumColumns)
    (hzero : n = 0 → Malloc.zeroBlock = true) :
    ∃ heap₀, heapAllocColumnData heap n numRows = .ok (some heap.next, heap₀) ∧
      OwnedBlocks heap.live heap₀ heap.next (heap.next + 1) numRows (List.replicate n HeapItem.zeroed) := by
  obtain ⟨heap₀, halloc, hl, hlive⟩ := heapAllocColumnData_eq heap numRows hn hzero
  have hblocks : columnBlocks heap.next (heap.next + 1) (List.replicate n (HeapItem.zeroed (P := P))) =
      {heap.next, heap.next + 1} := by
    ext p
    simp [columnBlocks]
  refine ⟨heap₀, halloc, hl, ?_, ?_⟩
  · rw [hlive, hblocks]
    ext p
    simp
  · rw [hblocks, Set.disjoint_left]
    rintro p hp (rfl | rfl)
    · exact (BlockHeap.lt_next hp).false
    · exact absurd (BlockHeap.lt_next hp) (by omega)

theorem namesOwned_null {numRows : Nat} (heap : ColumnHeap P) (hn : maxNumColumns < numColumns)
    (calls : List (SetCall P)) : NamesOwned heap numColumns numRows calls := by
  refine ⟨none, heap, if_pos hn, fun done _ => ⟨_, heap, setItems_null done heap, rfl, fun call _ => ?_⟩, ?_⟩
  · exact ⟨0, heap, rfl, Or.inl rfl, fun _ => rfl, by simp⟩
  · exact ⟨_, heap, 0, heap, setItems_null calls heap, rfl, rfl, fun _ => BlockHeap.count_release_eq_one⟩

theorem SetOnce.namesOwned {numRows : Nat} (heap : ColumnHeap P) (hn : numColumns ≤ maxNumColumns)
    (h : SetOnce numColumns calls) : NamesOwned heap numColumns numRows calls := by
  obtain ⟨heap₀, halloc, ho⟩ := owned_alloc heap numRows hn h.array
  refine ⟨_, heap₀, halloc, fun done hdone => ?_, ?_⟩
  · obtain ⟨rs, heap₁, items, lost, hr⟩ := exists_ran ho (h.short.mono hdone)
    have hsub : (acceptedColumns numColumns done).Sublist (acceptedColumns numColumns calls) :=
      (hdone.sublist.filter _).map _
    have hlost := hr.lost_eq_empty_iff.mpr (h.once.sublist hsub)
    refine ⟨rs, heap₁, hr.run, hr.namesAt_iff.mpr hlost, fun call hcall => ?_⟩
    apply exists_kept hr.owned.toLaid
    rw [hr.length_items]
    exact h.short call (hcall.subset (by simp))
  · obtain ⟨rs, heap₁, items, lost, hr⟩ := exists_ran ho h.short
    obtain ⟨heap₂, hfree, hlive⟩ := hr.owned.free
    rw [hr.lost_eq_empty_iff.mpr h.once, Finset.coe_empty, Set.union_empty] at hlive
    refine ⟨rs, heap₁, 1, heap₂, hr.run, hfree, hlive, fun p hmade hgone => ?_⟩
    rw [← hlive] at hgone
    exact BlockHeap.count_release_eq_one hmade hgone

/-- What is left after the release: a name for each time that a column was set again. -/
theorem exists_lost (heap : ColumnHeap P) (numRows : Nat) (hn : numColumns ≤ maxNumColumns)
    (hzero : numColumns = 0 → Malloc.zeroBlock = true) (hshort : ShortNames numColumns calls) :
    ∃ coldata heap₀ rs heap₁ heap₂, ∃ lost : Finset Nat,
      heapAllocColumnData heap numColumns numRows = .ok (coldata, heap₀) ∧
        setItems coldata calls heap₀ = .ok (rs, heap₁) ∧ heapFreeColumnData coldata heap₁ = .ok (1, heap₂) ∧
          heap₂.live = heap.live ∪ lost ∧ Disjoint heap.live lost ∧
            lost.card + (acceptedColumns numColumns calls).toFinset.card =
              (acceptedColumns numColumns calls).length := by
  obtain ⟨heap₀, halloc, ho⟩ := owned_alloc heap numRows hn hzero
  obtain ⟨rs, heap₁, items, lost, hr⟩ := exists_ran ho hshort
  obtain ⟨heap₂, hfree, hlive⟩ := hr.owned.free
  exact ⟨_, heap₀, rs, heap₁, heap₂, lost, halloc, hr.run, hfree, hlive, hr.apart, hr.count⟩

/-- An array of no columns that is not a block is `NULL`. -/
theorem heapAllocColumnData_zero (heap : ColumnHeap P) (numRows : Nat) (hzero : Malloc.zeroBlock = false) :
    ∃ heap₀, heapAllocColumnData heap 0 numRows = .ok (some heap.next, heap₀) ∧
      heap₀.block heap.next = some (.coldata 0 numRows none) := by
  have hmalloc := malloc_eq heap (by decide : 0 < sizeofColumnData) (by decide)
  have hcalloc : callocColumns (heap.alloc (.raw sizeofColumnData)) 0 =
      (none, heap.alloc (.raw sizeofColumnData)) := by
    rw [callocColumns, request, if_pos ⟨Nat.zero_mul _, hzero⟩]
  have hlive : heap.next ∈ (heap.alloc (.raw sizeofColumnData)).live := by simp
  obtain ⟨heap₀, hset, hblock⟩ := setBlock_eq hlive (.coldata 0 numRows none)
  refine ⟨heap₀, ?_, by rw [hblock, Function.update_self]⟩
  rw [heapAllocColumnData, if_neg (by omega), hmalloc]
  dsimp only
  rw [hcalloc]
  simp only [hset]
  rfl

/-- Where the calls run, the names were short. -/
theorem shortNames_of_runs (ho : OwnedBlocks base heap₀ cd arr numRows (List.replicate numColumns HeapItem.zeroed))
    (hruns : ∀ done, done <+: calls → ∃ rs heap₁, setItems (some cd) done heap₀ = .ok (rs, heap₁)) :
    ∀ done, done <+: calls → ShortNames numColumns done := by
  intro done
  induction done using List.reverseRecOn with
  | nil => exact fun _ call hcall => absurd hcall List.not_mem_nil
  | append_singleton done call ih =>
    intro hdone
    have hbefore := ih ((List.prefix_append done [call]).trans hdone)
    obtain ⟨rs, heap, items, lost, hr⟩ := exists_ran ho hbefore
    obtain ⟨rs', heap', hrun⟩ := hruns _ hdone
    rw [setItems_append_singleton hr.run] at hrun
    intro other hother hcall
    rcases List.mem_append.mp hother with hother | hother
    · exact hbefore other hother hcall
    · obtain rfl := List.mem_singleton.mp hother
      rw [← hr.length_items] at hcall
      rcases heapSetColumnItem_cases hr.owned.toLaid other with ⟨hnot, -⟩ | ⟨-, -, herror⟩ | ⟨-, hshort, -⟩
      · exact absurd hcall hnot
      · rw [herror] at hrun
        cases hrun
      · exact hshort

theorem setOnce_of_namesOwned {numRows : Nat} {heap : ColumnHeap P} (hn : numColumns ≤ maxNumColumns)
    (h : NamesOwned heap numColumns numRows calls) : SetOnce numColumns calls := by
  obtain ⟨coldata, heap₀, halloc, hat, -⟩ := h
  have harray : numColumns = 0 → Malloc.zeroBlock = true := by
    rintro rfl
    by_contra hzero
    obtain ⟨heap₀', halloc', hblock⟩ := heapAllocColumnData_zero heap numRows (Bool.eq_false_iff.mpr hzero)
    rw [halloc'] at halloc
    obtain ⟨rfl, rfl⟩ : some heap.next = coldata ∧ heap₀' = heap₀ := by simpa using halloc
    obtain ⟨rs, heap₁, hrun, ⟨arr, numRows', items, ho, -⟩, -⟩ := hat [] List.nil_prefix
    obtain ⟨-, rfl⟩ : [] = rs ∧ heap₀' = heap₁ := by simpa [setItems, pure, Except.pure] using hrun
    simpa [hblock] using ho.coldata
  obtain ⟨heap₀', halloc', ho⟩ := owned_alloc heap numRows hn harray
  rw [halloc'] at halloc
  obtain ⟨rfl, rfl⟩ : some heap.next = coldata ∧ heap₀' = heap₀ := by simpa using halloc
  have hshort : ShortNames numColumns calls := by
    refine shortNames_of_runs ho (fun done hdone => ?_) calls List.prefix_rfl
    obtain ⟨rs, heap₁, hrun, -⟩ := hat done hdone
    exact ⟨rs, heap₁, hrun⟩
  refine ⟨harray, hshort, ?_⟩
  obtain ⟨rs, heap₁, items, lost, hr⟩ := exists_ran ho hshort
  obtain ⟨rs', heap₁', hrun, hnames, -⟩ := hat calls List.prefix_rfl
  rw [hr.run] at hrun
  obtain ⟨rfl, rfl⟩ : rs = rs' ∧ heap₁ = heap₁' := by simpa using hrun
  exact hr.lost_eq_empty_iff.mp (hr.namesAt_iff.mp hnames)

end Runs

/-- The names of the columns are owned exactly where no column is set twice. -/
theorem namesOwned_iff [Malloc] (heap : ColumnHeap P) (numColumns numRows : Nat) (calls : List (SetCall P)) :
    NamesOwned heap numColumns numRows calls ↔ (numColumns ≤ maxNumColumns → SetOnce numColumns calls) := by
  by_cases hn : numColumns ≤ maxNumColumns
  · exact ⟨fun h _ => setOnce_of_namesOwned hn h, fun h => (h hn).namesOwned heap hn⟩
  · exact ⟨fun _ h => absurd h hn, fun _ => namesOwned_null heap (by omega) calls⟩

/-- A column is set to the name `a` twice: the first copy of the name is left after the release. -/
theorem not_namesOwned_set_again :
    let call : SetCall Nat := ⟨0, [0x61], 5, 0, some 64, some 128⟩
    ¬ @NamesOwned Nat Malloc.glibc .empty 1 1 [call, call] ∧
      ∃ heap₀ heap₁ heap₂, @heapAllocColumnData Nat Malloc.glibc .empty 1 1 = .ok (some 0, heap₀) ∧
        @setItems Nat Malloc.glibc (some 0) [call, call] heap₀ = .ok ([1, 1], heap₁) ∧
          heapFreeColumnData (some 0) heap₁ = .ok (1, heap₂) ∧ heap₂.block 2 = some (.name [0x61]) := by
  refine ⟨fun h => ?_, _, _, _, rfl, rfl, rfl, rfl⟩
  let _ := Malloc.glibc
  have honce := (setOnce_of_namesOwned (by decide) h).once
  exact absurd honce (by decide)

end Laid

end Monary
