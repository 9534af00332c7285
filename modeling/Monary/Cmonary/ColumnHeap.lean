import Monary.Cmonary.Setup
import Monary.Lib.BlockHeap

/-!
# Column data on a heap

* `heapAllocColumnData`, `heapSetColumnItem`, `heapFreeColumnData` : the functions of `monary_column_data` over a
  heap of blocks, with the allocations, the copies and the releases they make. `P` is the type of the pointers to
  storages and masks, which they pass on alone;
* `Laid` : column data that is on the heap; `ItemSet` : one of its columns is set to an item with a new name;
* `heapSetColumnItem_cases` : what a call does to it; `heapFreeColumnData_live` : what is left after the release;
* `heapSetColumnItem_refines`, `columnData_refines` : what is read through the heap is the column data of
  `monaryAllocColumnData` and `monarySetColumnItem`.

That `malloc` and `calloc` succeed is assumed, for requests a process can make.
-/

namespace Monary
open ByteSeq CInt Handles

/-! ## The heap -/

/-- What the C standard leaves open: whether a request of 0 bytes is given a block. -/
class Malloc where
  zeroBlock : Bool

@[reducible] def Malloc.glibc : Malloc := ⟨true⟩

def sizeofColumnData : Nat := 16

def sizeofColumnItem : Nat := 32

/-- `monary_column_item`, with pointers. -/
structure HeapItem (P : Type) where
  field : Option Nat
  type : Nat
  typeArg : Nat
  storage : Option P
  mask : Option P
  deriving DecidableEq, Repr

def HeapItem.zeroed {P : Type} : HeapItem P := ⟨none, 0, 0, none, none⟩

/-- What a block holds: bytes that nothing was written to, a `monary_column_data`, an array of column items, or a
name. -/
inductive HeapBlock (P : Type) where
  | raw (size : Nat)
  | coldata (numColumns numRows : Nat) (columns : Option Nat)
  | columns (items : List (HeapItem P))
  | name (text : Bytes)
  deriving DecidableEq, Repr

abbrev ColumnHeap (P : Type) := BlockHeap (HeapBlock P)

/-- The arguments of `monary_set_column_item` after the column data. -/
structure SetCall (P : Type) where
  colnum : Nat
  field : Bytes
  type : Nat
  typeArg : Nat
  storage : Option P
  mask : Option P

theorem ok_bind {ε α β : Type} (a : α) (f : α → Except ε β) : (.ok a : Except ε α) >>= f = f a := rfl

variable {P : Type}

/-- A request of `size` bytes for what the block holds: `NULL`, or a pointer to the block. -/
def request [Malloc] (heap : ColumnHeap P) (size : Nat) (b : HeapBlock P) : Option Nat × ColumnHeap P :=
  if size = 0 ∧ Malloc.zeroBlock = false then (none, heap)
  else if size ≥ 2 ^ 63 then (none, heap)
  else (some heap.next, heap.alloc b)

def malloc [Malloc] (heap : ColumnHeap P) (size : Nat) : Option Nat × ColumnHeap P :=
  request heap size (.raw size)

/-- `calloc` for column items. -/
def callocColumns [Malloc] (heap : ColumnHeap P) (numColumns : Nat) : Option Nat × ColumnHeap P :=
  request heap (numColumns * sizeofColumnItem) (.columns (List.replicate numColumns HeapItem.zeroed))

/-- The contents of a block are replaced; `NULL` and a block that is not live are not to be written. -/
def setBlock (heap : ColumnHeap P) (p : Option Nat) (b : HeapBlock P) : C (ColumnHeap P) :=
  match p.bind (heap.write · b) with
  | some heap => return heap
  | none => .error .undefined

/-- `free`; a block that is not live is not to be released. -/
def freeBlock (heap : ColumnHeap P) (p : Nat) : C (ColumnHeap P) :=
  match heap.free p with
  | some heap => return heap
  | none => .error .undefined

/-- `num_columns` and `columns` of a `monary_column_data`. -/
def readColdata (heap : ColumnHeap P) (coldata : Nat) : C (Nat × Option Nat) :=
  match heap.block coldata with
  | some (.coldata numColumns _ columns) => return (numColumns, columns)
  | _ => .error .undefined

/-- `columns[i]`, and the array it is in. -/
def readItem (heap : ColumnHeap P) (columns : Option Nat) (i : Nat) : C (List (HeapItem P) × HeapItem P) :=
  match columns.bind heap.block with
  | some (.columns items) =>
    match items[i]? with
    | some item => return (items, item)
    | none => .error .undefined
  | _ => .error .undefined

/-- An assignment to members of `columns[i]`. -/
def assign (heap : ColumnHeap P) (columns : Option Nat) (i : Nat) (f : HeapItem P → HeapItem P) :
    C (ColumnHeap P) := do
  let (items, item) ← readItem heap columns i
  setBlock heap columns (.columns (items.set i (f item)))

/-- `strcpy` into a block of `malloc`, which has to have room for the NUL as well. -/
def strcpy (heap : ColumnHeap P) (dst : Option Nat) (src : Bytes) : C (ColumnHeap P) :=
  match dst.bind heap.block with
  | some (.raw size) =>
    if (cString src).length + 1 ≤ size then setBlock heap dst (.name (cString src)) else .error .undefined
  | _ => .error .undefined

/-! ## The functions -/

/-- `monary_alloc_column_data`. -/
def heapAllocColumnData [Malloc] (heap : ColumnHeap P) (numColumns numRows : Nat) :
    C (Option Nat × ColumnHeap P) :=
  if numColumns > maxNumColumns then return (none, heap)
  else do
    let (result, heap) := malloc heap sizeofColumnData
    let (columns, heap) := callocColumns heap numColumns
    let heap ← setBlock heap result (.coldata numColumns numRows columns)
    return (result, heap)

/-- The end of `monary_set_column_item`, from where the name is copied. -/
def setFields [Malloc] (heap : ColumnHeap P) (columns : Option Nat) (call : SetCall P) (len : Int) :
    C (ColumnHeap P) := do
  -- `len + 1` is converted to `size_t`
  let (field, heap) := malloc heap ((len + 1) % 2 ^ 64).toNat
  let heap ← assign heap columns call.colnum fun col => { col with field := field }
  let heap ← strcpy heap field call.field
  assign heap columns call.colnum fun col =>
    { col with type := call.type, typeArg := call.typeArg, storage := call.storage, mask := call.mask }

/-- `monary_set_column_item`: what it returns, and the heap after it. -/
def heapSetColumnItem [Malloc] (coldata : Option Nat) (call : SetCall P) (heap : ColumnHeap P) :
    C (Int × ColumnHeap P) :=
  match coldata with
  | none => return (0, heap)
  | some cd => do
    let (numColumns, columns) ← readColdata heap cd
    if call.colnum ≥ numColumns then return (0, heap)
    else if call.type = 0 ∨ call.type > MonaryType.lastType then return (0, heap)
    else if call.storage.isNone then return (0, heap)
    else if call.mask.isNone then return (0, heap)
    else
      let len := toInt32 (cString call.field).length
      if len > maxStringLength then return (0, heap)
      else do
        let heap ← setFields heap columns call len
        return (1, heap)

/-- A turn of the loop of `monary_free_column_data`. -/
def freeField (cd : Nat) (heap : ColumnHeap P) (i : Nat) : C (ColumnHeap P) := do
  let (_, columns) ← readColdata heap cd
  let (_, col) ← readItem heap columns i
  match col.field with
  | none => return heap
  | some field => freeBlock heap field

/-- `monary_free_column_data`: what it returns, and the heap after it. -/
def heapFreeColumnData (coldata : Option Nat) (heap : ColumnHeap P) : C (Int × ColumnHeap P) :=
  match coldata with
  | none => return (0, heap)
  | some cd => do
    let (numColumns, columns) ← readColdata heap cd
    match columns with
    | none => return (0, heap)
    | some arr => do
      let heap ← (List.range numColumns).foldlM (freeField cd) heap
      let heap ← freeBlock heap arr
      let heap ← freeBlock heap cd
      return (1, heap)

/-- Calls of `monary_set_column_item`, one after the other: what they return, and the heap after them. -/
def setItems [Malloc] (coldata : Option Nat) : List (SetCall P) → ColumnHeap P → C (List Int × ColumnHeap P)
  | [], heap => return ([], heap)
  | call :: calls, heap => do
    let (r, heap) ← heapSetColumnItem coldata call heap
    let (rs, heap) ← setItems coldata calls heap
    return (r :: rs, heap)

/-! ## Column data on the heap -/

/-- The name of column `i`. -/
def fieldAt (items : List (HeapItem P)) (i : Nat) : Option Nat := items[i]?.bind (·.field)

/-- Column data: the structure, the array, and a name of its own for each column that has one. -/
structure Laid (heap : ColumnHeap P) (cd arr numRows : Nat) (items : List (HeapItem P)) : Prop where
  coldata : heap.block cd = some (.coldata items.length numRows (some arr))
  columns : heap.block arr = some (.columns items)
  named : ∀ i p, fieldAt items i = some p → ∃ text, heap.block p = some (.name text)
  distinct : ∀ i j p, fieldAt items i = some p → fieldAt items j = some p → i = j

/-- The blocks of column data. -/
def columnBlocks (cd arr : Nat) (items : List (HeapItem P)) : Set Nat :=
  {p | p = cd ∨ p = arr ∨ ∃ i, fieldAt items i = some p}

theorem fieldAt_set {items : List (HeapItem P)} {c : Nat} (hc : c < items.length) (item : HeapItem P) (i : Nat) :
    fieldAt (items.set c item) i = if i = c then item.field else fieldAt items i := by
  unfold fieldAt
  rw [List.getElem?_set]
  by_cases hi : i = c
  · simp [hi, hc]
  · rw [if_neg (Ne.symm hi), if_neg hi]

@[simp] theorem fieldAt_zeroed (n i : Nat) : fieldAt (List.replicate n (HeapItem.zeroed (P := P))) i = none := by
  unfold fieldAt
  rw [List.getElem?_replicate]
  split <;> simp [HeapItem.zeroed]

section Laid
variable {heap heap' : ColumnHeap P} {cd arr numRows c : Nat} {items : List (HeapItem P)}

namespace Laid

theorem cd_ne_arr (hl : Laid heap cd arr numRows items) : cd ≠ arr := by
  intro h
  have := hl.columns
  rw [← h, hl.coldata] at this
  simp at this

theorem field_ne {i p : Nat} (hl : Laid heap cd arr numRows items) (hp : fieldAt items i = some p) :
    p ≠ cd ∧ p ≠ arr := by
  obtain ⟨text, htext⟩ := hl.named i p hp
  constructor
  · intro h
    simp [h, hl.coldata] at htext
  · intro h
    simp [h, hl.columns] at htext

theorem blocks_live (hl : Laid heap cd arr numRows items) : columnBlocks cd arr items ⊆ heap.live := by
  intro p hp
  rcases hp with rfl | rfl | ⟨i, hi⟩
  · exact BlockHeap.mem_live_of_block hl.coldata
  · exact BlockHeap.mem_live_of_block hl.columns
  · obtain ⟨text, htext⟩ := hl.named i p hi
    exact BlockHeap.mem_live_of_block htext

theorem readColdata_eq (hl : Laid heap cd arr numRows items) :
    readColdata heap cd = .ok (items.length, some arr) := by
  simp [readColdata, hl.coldata, pure, Except.pure]

end Laid

/-- Column `c` of the array is set to an item with a new name: the block of the name, and the array with the item. -/
structure ItemSet (heap heap' : ColumnHeap P) (arr c : Nat) (items : List (HeapItem P)) (text : Bytes)
    (item : HeapItem P) : Prop where
  lt : c < items.length
  field : item.field = some heap.next
  block : heap'.block = Function.update (Function.update heap.block heap.next (some (.name text))) arr
    (some (.columns (items.set c item)))

namespace ItemSet
variable {text : Bytes} {item : HeapItem P}

theorem fieldAt_eq (hs : ItemSet heap heap' arr c items text item) (i : Nat) :
    fieldAt (items.set c item) i = if i = c then some heap.next else fieldAt items i := by
  rw [fieldAt_set hs.lt, hs.field]

theorem live (hs : ItemSet heap heap' arr c items text item) (harr : arr ∈ heap.live) :
    heap'.live = insert heap.next heap.live := by
  ext p
  rw [BlockHeap.mem_live, hs.block]
  by_cases hp : p = arr
  · simp [hp, harr]
  · rw [Function.update_of_ne hp]
    by_cases hnext : p = heap.next <;> simp [hnext, BlockHeap.mem_live]

theorem block_next (hs : ItemSet heap heap' arr c items text item) (harr : arr ∈ heap.live) :
    heap'.block heap.next = some (.name text) := by
  rw [hs.block, Function.update_of_ne (BlockHeap.lt_next harr).ne', Function.update_self]

/-- What is live and not the array is as before. -/
theorem block_of_ne {p : Nat} (hs : ItemSet heap heap' arr c items text item) (hp : p ∈ heap.live) (hne : p ≠ arr) :
    heap'.block p = heap.block p := by
  rw [hs.block, Function.update_of_ne hne, Function.update_of_ne (BlockHeap.lt_next hp).ne]

/-- The names of the columns are as before. -/
theorem block_field {i p : Nat} (hs : ItemSet heap heap' arr c items text item)
    (hl : Laid heap cd arr numRows items) (hp : fieldAt items i = some p) : heap'.block p = heap.block p :=
  hs.block_of_ne (hl.blocks_live (Or.inr (Or.inr ⟨i, hp⟩))) (hl.field_ne hp).2

theorem laid (hs : ItemSet heap heap' arr c items text item) (hl : Laid heap cd arr numRows items) :
    Laid heap' cd arr numRows (items.set c item) := by
  have harr := BlockHeap.mem_live_of_block hl.columns
  constructor
  · rw [hs.block_of_ne (BlockHeap.mem_live_of_block hl.coldata) hl.cd_ne_arr, hl.coldata, List.length_set]
  · rw [hs.block, Function.update_self]
  · intro i p hp
    rw [hs.fieldAt_eq] at hp
    split at hp
    · obtain rfl : heap.next = p := Option.some_inj.mp hp
      exact ⟨text, hs.block_next harr⟩
    · rw [hs.block_field hl hp]
      exact hl.named i p hp
  · -- the new name is no name of another column
    have hnew : ∀ i, fieldAt items i ≠ some heap.next := fun i hi =>
      heap.next_notMem_live (hl.blocks_live (Or.inr (Or.inr ⟨i, hi⟩)))
    intro i j p hi hj
    rw [hs.fieldAt_eq] at hi hj
    split at hi <;> split at hj
    · omega
    · exact absurd (hj.trans hi.symm) (hnew j)
    · exact absurd (hi.trans hj.symm) (hnew i)
    · exact hl.distinct i j p hi hj

end ItemSet

/-! ## What the blocks are after each function -/

section Malloc
variable [Malloc]

theorem malloc_eq {size : Nat} (heap : ColumnHeap P) (hpos : 0 < size) (hlt : size < 2 ^ 63) :
    malloc heap size = (some heap.next, heap.alloc (.raw size)) := by
  rw [malloc, request, if_neg (by omega), if_neg (by omega)]

theorem malloc_cases (heap : ColumnHeap P) (size : Nat) :
    malloc heap size = (none, heap) ∨
      (size < 2 ^ 63 ∧ malloc heap size = (some heap.next, heap.alloc (.raw size))) := by
  unfold malloc request
  by_cases h0 : size = 0 ∧ Malloc.zeroBlock = false
  · exact Or.inl (if_pos h0)
  · by_cases hbig : size ≥ 2 ^ 63
    · exact Or.inl (by rw [if_neg h0, if_pos hbig])
    · exact Or.inr ⟨by omega, by rw [if_neg h0, if_neg hbig]⟩

theorem callocColumns_eq {n : Nat} (heap : ColumnHeap P) (hn : n ≤ maxNumColumns)
    (hzero : n = 0 → Malloc.zeroBlock = true) :
    callocColumns heap n = (some heap.next, heap.alloc (.columns (List.replicate n HeapItem.zeroed))) := by
  rw [maxNumColumns] at hn
  rw [callocColumns, request, sizeofColumnItem, if_neg, if_neg (by omega)]
  rintro ⟨h0, hfalse⟩
  rw [hzero (by omega)] at hfalse
  cases hfalse

end Malloc

theorem setBlock_eq {p : Nat} (hp : p ∈ heap.live) (b : HeapBlock P) :
    ∃ heap', setBlock heap (some p) b = .ok heap' ∧ heap'.block = Function.update heap.block p (some b) := by
  obtain ⟨heap', hw, hblock⟩ := BlockHeap.write_eq_some hp b
  exact ⟨heap', by simp [setBlock, hw, pure, Except.pure], hblock⟩

theorem freeBlock_eq {p : Nat} (hp : p ∈ heap.live) :
    ∃ heap', freeBlock heap p = .ok heap' ∧ heap'.block = Function.update heap.block p none := by
  obtain ⟨heap', hf, hblock⟩ := BlockHeap.free_eq_some hp
  exact ⟨heap', by simp [freeBlock, hf, pure, Except.pure], hblock⟩

theorem readItem_eq {col : HeapItem P} (harr : heap.block arr = some (.columns items)) (hcol : items[c]? = some col) :
    readItem heap (some arr) c = .ok (items, col) := by
  simp [readItem, harr, hcol, pure, Except.pure]

theorem assign_eq {col : HeapItem P} (harr : heap.block arr = some (.columns items)) (hcol : items[c]? = some col)
    (f : HeapItem P → HeapItem P) :
    ∃ heap', assign heap (some arr) c f = .ok heap' ∧
      heap'.block = Function.update heap.block arr (some (.columns (items.set c (f col)))) := by
  unfold assign
  rw [readItem_eq harr hcol]
  exact setBlock_eq (BlockHeap.mem_live_of_block harr) _

theorem strcpy_eq {p size : Nat} {src : Bytes} (hp : heap.block p = some (.raw size))
    (hsize : (cString src).length + 1 ≤ size) :
    ∃ heap', strcpy heap (some p) src = .ok heap' ∧
      heap'.block = Function.update heap.block p (some (.name (cString src))) := by
  have hcopy : strcpy heap (some p) src = setBlock heap (some p) (.name (cString src)) := by
    simp [strcpy, hp, hsize]
  rw [hcopy]
  exact setBlock_eq (BlockHeap.mem_live_of_block hp) _

/-- A copy that does not fit. -/
theorem strcpy_error {p size : Nat} {src : Bytes} (hp : heap.block p = some (.raw size))
    (hsize : size ≤ (cString src).length) : strcpy heap (some p) src = .error .undefined := by
  have hlt : ¬ (cString src).length + 1 ≤ size := by omega
  simp [strcpy, hp, hlt]

/-- The item that a call sets, with its name at `field`. -/
def SetCall.item (call : SetCall P) (field : Nat) : HeapItem P :=
  ⟨some field, call.type, call.typeArg, call.storage, call.mask⟩

/-- The pointer to the new block is put in the item. -/
theorem assign_alloc (hl : Laid heap cd arr numRows items) (hc : c < items.length) (size : Nat) :
    ∃ heap', assign (heap.alloc (.raw size)) (some arr) c (fun col => { col with field := some heap.next }) =
        .ok heap' ∧
      heap'.block heap.next = some (.raw size) ∧
      heap'.block = Function.update (Function.update heap.block heap.next (some (.raw size))) arr
        (some (.columns (items.set c { items[c] with field := some heap.next }))) := by
  have harr := BlockHeap.mem_live_of_block hl.columns
  have hblock : (heap.alloc (.raw size)).block arr = some (.columns items) := by
    rw [BlockHeap.block_alloc_of_mem harr, hl.columns]
  obtain ⟨heap', hassign, hblock'⟩ := assign_eq hblock (List.getElem?_eq_getElem hc) fun col =>
    { col with field := some heap.next }
  refine ⟨heap', hassign, ?_, hblock'⟩
  rw [hblock', Function.update_of_ne (BlockHeap.lt_next harr).ne', BlockHeap.block_alloc, Function.update_self]

section Malloc
variable [Malloc]

theorem heapAllocColumnData_eq {n : Nat} (heap : ColumnHeap P) (numRows : Nat) (hn : n ≤ maxNumColumns)
    (hzero : n = 0 → Malloc.zeroBlock = true) :
    ∃ heap', heapAllocColumnData heap n numRows = .ok (some heap.next, heap') ∧
      Laid heap' heap.next (heap.next + 1) numRows (List.replicate n HeapItem.zeroed) ∧
      heap'.live = insert heap.next (insert (heap.next + 1) heap.live) := by
  have hmalloc := malloc_eq heap (by decide : 0 < sizeofColumnData) (by decide)
  have hcalloc := callocColumns_eq (heap.alloc (.raw sizeofColumnData)) hn hzero
  have hlive : heap.next ∈
      ((heap.alloc (.raw sizeofColumnData)).alloc (.columns (List.replicate n HeapItem.zeroed))).live := by
    simp
  obtain ⟨heap', hset, hblock⟩ := setBlock_eq hlive (.coldata n numRows (some (heap.next + 1)))
  refine ⟨heap', ?_, ?_, ?_⟩
  · rw [heapAllocColumnData, if_neg (by omega), hmalloc]
    dsimp only
    rw [hcalloc]
    have hnext : (heap.alloc (.raw sizeofColumnData)).next = heap.next + 1 := rfl
    simp only [hnext, hset]
    rfl
  · constructor
    · simp [hblock]
    · have hnext : (heap.alloc (.raw sizeofColumnData)).next = heap.next + 1 := rfl
      simp [hblock, hnext]
    · intro i p hp
      simp at hp
    · intro i j p hp
      simp at hp
  · have hnext : (heap.alloc (.raw sizeofColumnData)).next = heap.next + 1 := rfl
    rw [BlockHeap.live_of_update_some hblock, BlockHeap.live_alloc, BlockHeap.live_alloc, hnext,
      Set.insert_comm _ heap.next, Set.insert_idem]

/-- The fields of the item are set one by one. -/
theorem setFields_eq (hl : Laid heap cd arr numRows items) {call : SetCall P} (hc : call.colnum < items.length)
    {n : Nat} (hn : (cString call.field).length = n) (hle : n ≤ maxStringLength) :
    ∃ heap', setFields heap (some arr) call n = .ok heap' ∧
      ItemSet heap heap' arr call.colnum items (cString call.field) (call.item heap.next) := by
  rw [maxStringLength] at hle
  have hsize : (((n : Int) + 1) % 2 ^ 64).toNat = n + 1 := by omega
  have hmalloc := malloc_eq heap (by omega : 0 < n + 1) (by omega)
  have harr := BlockHeap.mem_live_of_block hl.columns
  have hne : arr ≠ heap.next := (BlockHeap.lt_next harr).ne
  -- the new block, its pointer in the item, the copy, the other members
  obtain ⟨heap₂, h₂, hraw, hb₂⟩ := assign_alloc hl hc (n + 1)
  obtain ⟨heap₃, h₃, hb₃⟩ := strcpy_eq hraw (by omega : (cString call.field).length + 1 ≤ n + 1)
  have harr₃ : heap₃.block arr = heap₂.block arr := by
    rw [hb₃, Function.update_of_ne hne]
  rw [hb₂, Function.update_self] at harr₃
  obtain ⟨heap₄, h₄, hb₄⟩ := assign_eq harr₃ (List.getElem?_set_self hc) fun col =>
    { col with type := call.type, typeArg := call.typeArg, storage := call.storage, mask := call.mask }
  refine ⟨heap₄, ?_, hc, rfl, ?_⟩
  · unfold setFields
    rw [hsize, hmalloc]
    dsimp only
    rw [h₂, ok_bind, h₃, ok_bind, h₄]
  · rw [hb₄, List.set_set, hb₃, hb₂]
    funext p
    by_cases harrp : p = arr
    · rw [harrp, Function.update_self, Function.update_self, SetCall.item]
    · by_cases hp : p = heap.next <;> simp [hp, harrp, hne.symm]

/-- A name of more bytes than an `int` counts is copied to a block that is too small, or to none. -/
theorem setFields_error (hl : Laid heap cd arr numRows items) {call : SetCall P} (hc : call.colnum < items.length)
    {len : Int} (hmin : -2 ^ 31 ≤ len) (hle : len ≤ maxStringLength) (hlong : 2 ^ 31 ≤ (cString call.field).length) :
    setFields heap (some arr) call len = .error .undefined := by
  rw [maxStringLength] at hle
  unfold setFields
  rcases malloc_cases heap ((len + 1) % 2 ^ 64).toNat with hnull | ⟨hlt, hmalloc⟩
  · obtain ⟨heap₂, h₂, -⟩ := assign_eq hl.columns (List.getElem?_eq_getElem hc) fun col => { col with field := none }
    rw [hnull]
    dsimp only
    rw [h₂, ok_bind]
    rfl
  · -- a negative `len + 1` would be a size that no request can have
    have hsize : ((len + 1) % 2 ^ 64).toNat ≤ 1025 := by omega
    generalize ((len + 1) % 2 ^ 64).toNat = size at hmalloc hsize
    obtain ⟨heap₂, h₂, hraw, -⟩ := assign_alloc hl hc size
    rw [hmalloc]
    dsimp only
    rw [h₂, ok_bind, strcpy_error hraw (by omega)]
    rfl

end Malloc

/-! ## A call on column data -/

/-- The checks that `monary_set_column_item` makes. -/
def SetCall.Accepted (call : SetCall P) (numColumns : Nat) : Prop :=
  call.colnum < numColumns ∧ (call.type ≠ 0 ∧ call.type ≤ MonaryType.lastType) ∧ call.storage.isSome ∧
    call.mask.isSome ∧ toInt32 (cString call.field).length ≤ maxStringLength

instance (call : SetCall P) (numColumns : Nat) : Decidable (call.Accepted numColumns) := by
  unfold SetCall.Accepted
  infer_instance

/-- The names of the calls whose checks pass are counted by an `int`. -/
def ShortNames (numColumns : Nat) (calls : List (SetCall P)) : Prop :=
  ∀ call ∈ calls, call.Accepted numColumns → (cString call.field).length < 2 ^ 31

theorem ShortNames.mono {numColumns : Nat} {calls done : List (SetCall P)} (h : ShortNames numColumns calls)
    (hdone : done <+: calls) : ShortNames numColumns done := fun call hcall => h call (hdone.subset hcall)

section Malloc
variable [Malloc]

/-- The call is refused by one of its checks, or it sets the item. -/
theorem heapSetColumnItem_eq (hl : Laid heap cd arr numRows items) (call : SetCall P) :
    heapSetColumnItem (some cd) call heap =
      if call.Accepted items.length then
        setFields heap (some arr) call (toInt32 (cString call.field).length) >>= fun heap => pure (1, heap)
      else .ok (0, heap) := by
  unfold heapSetColumnItem
  dsimp only
  rw [hl.readColdata_eq, ok_bind]
  dsimp only
  by_cases hcol : call.colnum ≥ items.length
  · rw [if_pos hcol, if_neg fun h => absurd h.1 (by omega)]
    rfl
  by_cases htype : call.type = 0 ∨ call.type > MonaryType.lastType
  · rw [if_neg hcol, if_pos htype, if_neg fun h => absurd h.2.1 (by omega)]
    rfl
  by_cases hstorage : call.storage.isNone = true
  · rw [if_neg hcol, if_neg htype, if_pos hstorage, if_neg fun h => ?_]
    · rfl
    · simpa [Option.isNone_iff_eq_none.mp hstorage] using h.2.2.1
  by_cases hmask : call.mask.isNone = true
  · rw [if_neg hcol, if_neg htype, if_neg hstorage, if_pos hmask, if_neg fun h => ?_]
    · rfl
    · simpa [Option.isNone_iff_eq_none.mp hmask] using h.2.2.2.1
  by_cases hlen : toInt32 (cString call.field).length > maxStringLength
  · rw [if_neg hcol, if_neg htype, if_neg hstorage, if_neg hmask, if_pos hlen,
      if_neg fun h => absurd h.2.2.2.2 (by omega)]
    rfl
  · have hcall : call.Accepted items.length :=
      ⟨by omega, by omega, Option.isSome_iff_ne_none.mpr (by simpa using hstorage),
        Option.isSome_iff_ne_none.mpr (by simpa using hmask), by omega⟩
    rw [if_neg hcol, if_neg htype, if_neg hstorage, if_neg hmask, if_neg hlen, if_pos hcall]

theorem heapSetColumnItem_null (call : SetCall P) : heapSetColumnItem none call heap = .ok (0, heap) := rfl

/-- What a call does: it is refused, its name is too long for an `int`, or the item is set. -/
theorem heapSetColumnItem_cases (hl : Laid heap cd arr numRows items) (call : SetCall P) :
    (¬ call.Accepted items.length ∧ heapSetColumnItem (some cd) call heap = .ok (0, heap)) ∨
      (call.Accepted items.length ∧ 2 ^ 31 ≤ (cString call.field).length ∧
        heapSetColumnItem (some cd) call heap = .error .undefined) ∨
      (call.Accepted items.length ∧ (cString call.field).length < 2 ^ 31 ∧
        ∃ heap', heapSetColumnItem (some cd) call heap = .ok (1, heap') ∧
          ItemSet heap heap' arr call.colnum items (cString call.field) (call.item heap.next)) := by
  rw [heapSetColumnItem_eq hl]
  by_cases hcall : call.Accepted items.length
  · rw [if_pos hcall]
    obtain ⟨hcol, -, -, -, hlen⟩ := id hcall
    by_cases hlong : 2 ^ 31 ≤ (cString call.field).length
    · have hmin : -2 ^ 31 ≤ toInt32 (cString call.field).length := Int.le_bmod (by decide)
      rw [setFields_error hl hcol hmin hlen hlong]
      exact Or.inr (Or.inl ⟨hcall, hlong, rfl⟩)
    · have hlt : (cString call.field).length < 2 ^ 31 := by omega
      rw [toInt32_natCast hlt] at hlen ⊢
      obtain ⟨heap', hset, hs⟩ := setFields_eq hl hcol rfl (by omega)
      rw [hset]
      exact Or.inr (Or.inr ⟨hcall, hlt, heap', rfl, hs⟩)
  · rw [if_neg hcall]
    exact Or.inl ⟨hcall, rfl⟩

/-- `NULL` is left as it is. -/
theorem setItems_null (calls : List (SetCall P)) (heap : ColumnHeap P) :
    setItems none calls heap = .ok (List.replicate calls.length 0, heap) := by
  induction calls with
  | nil => rfl
  | cons call calls ih =>
    rw [setItems, heapSetColumnItem_null, ok_bind]
    dsimp only
    rw [ih]
    rfl

end Malloc

/-! ## The release -/

theorem freeField_eq {n i : Nat} (hcd : heap.block cd = some (.coldata n numRows (some arr)))
    (harr : heap.block arr = some (.columns items)) (hi : i < items.length) :
    freeField cd heap i =
      match fieldAt items i with
      | none => .ok heap
      | some field => freeBlock heap field := by
  have hread := readItem_eq harr (List.getElem?_eq_getElem hi)
  have hat : fieldAt items i = items[i].field := by
    simp [fieldAt, List.getElem?_eq_getElem hi]
  unfold freeField readColdata
  rw [hcd, hat]
  dsimp only
  rw [pure_bind, hread]
  rfl

/-- After some turns of the loop the names of the columns before are released, and nothing else is. -/
theorem foldlM_freeField (hl : Laid heap cd arr numRows items) :
    ∀ n ≤ items.length, ∃ heap', (List.range n).foldlM (freeField cd) heap = .ok heap' ∧
      (∀ i < n, ∀ p, fieldAt items i = some p → heap'.block p = none) ∧
      ∀ p, (∀ i < n, fieldAt items i ≠ some p) → heap'.block p = heap.block p := by
  intro n
  induction n with
  | zero => exact fun _ => ⟨heap, rfl, fun i hi => absurd hi (by omega), fun _ _ => rfl⟩
  | succ n ih =>
    intro hn
    obtain ⟨heap', hrun, hfreed, hkept⟩ := ih (by omega)
    have hcd : heap'.block cd = heap.block cd := hkept cd fun i _ hi => (hl.field_ne hi).1 rfl
    have harr : heap'.block arr = heap.block arr := hkept arr fun i _ hi => (hl.field_ne hi).2 rfl
    have hturn := freeField_eq (hcd.trans hl.coldata) (harr.trans hl.columns) (by omega : n < items.length)
    have hsucc : (List.range (n + 1)).foldlM (freeField cd) heap = freeField cd heap' n := by
      rw [List.range_succ, List.foldlM_append, hrun, ok_bind, List.foldlM_cons]
      exact bind_pure _
    rw [hsucc, hturn]
    cases hfield : fieldAt items n with
    | none =>
      refine ⟨heap', rfl, ?_, fun p hp => hkept p fun i hi => hp i (by omega)⟩
      intro i hi p hp
      rcases Nat.lt_succ_iff_lt_or_eq.mp hi with hi | rfl
      · exact hfreed i hi p hp
      · simp [hfield] at hp
    | some field =>
      -- no column before has the same name
      have hblock : heap'.block field = heap.block field := hkept field fun i hi hfield' =>
        absurd (hl.distinct i n field hfield' hfield) (by omega)
      obtain ⟨text, htext⟩ := hl.named n field hfield
      obtain ⟨heap'', hfree, hblock''⟩ := freeBlock_eq (BlockHeap.mem_live_of_block (hblock.trans htext))
      refine ⟨heap'', hfree, ?_, ?_⟩
      · intro i hi p hp
        rw [hblock'']
        rcases Nat.lt_succ_iff_lt_or_eq.mp hi with hi | rfl
        · by_cases hpf : p = field
          · rw [hpf, Function.update_self]
          · rw [Function.update_of_ne hpf, hfreed i hi p hp]
        · rw [Option.some_inj.mp (hp.symm.trans hfield), Function.update_self]
      · intro p hp
        have hpf : p ≠ field := fun h => hp n (by omega) (h ▸ hfield)
        rw [hblock'', Function.update_of_ne hpf, hkept p fun i hi => hp i (by omega)]

/-- The blocks of the column data are released, and nothing else is. -/
theorem heapFreeColumnData_live (hl : Laid heap cd arr numRows items) :
    ∃ heap', heapFreeColumnData (some cd) heap = .ok (1, heap') ∧
      heap'.live = heap.live \ columnBlocks cd arr items := by
  obtain ⟨heap₁, hrun, hfreed, hkept⟩ := foldlM_freeField hl items.length le_rfl
  have hcd : heap₁.block cd = heap.block cd := hkept cd fun i _ hi => (hl.field_ne hi).1 rfl
  have harr : heap₁.block arr = heap.block arr := hkept arr fun i _ hi => (hl.field_ne hi).2 rfl
  obtain ⟨heap₂, h₂, hb₂⟩ := freeBlock_eq (BlockHeap.mem_live_of_block (harr.trans hl.columns))
  have hcd₂ : heap₂.block cd = heap.block cd := by
    rw [hb₂, Function.update_of_ne hl.cd_ne_arr, hcd]
  obtain ⟨heap₃, h₃, hb₃⟩ := freeBlock_eq (BlockHeap.mem_live_of_block (hcd₂.trans hl.coldata))
  refine ⟨heap₃, ?_, ?_⟩
  · unfold heapFreeColumnData
    dsimp only
    rw [hl.readColdata_eq, ok_bind]
    dsimp only
    rw [hrun, ok_bind, h₂, ok_bind, h₃]
    rfl
  · have hlt : ∀ i p, fieldAt items i = some p → i < items.length := by
      intro i p hp
      by_contra hi
      simp [fieldAt, List.getElem?_eq_none (by omega : items.length ≤ i)] at hp
    have hlive : heap₁.live = heap.live \ {p | ∃ i, fieldAt items i = some p} := by
      ext p
      by_cases hp : ∃ i, fieldAt items i = some p
      · obtain ⟨i, hi⟩ := id hp
        have hnone := hfreed i (hlt i p hi) p hi
        simp [BlockHeap.mem_live, hnone, hp]
      · have hsame := hkept p fun i _ hi => hp ⟨i, hi⟩
        simp [BlockHeap.mem_live, hsame, hp]
    rw [BlockHeap.live_of_update_none hb₃, BlockHeap.live_of_update_none hb₂, hlive, columnBlocks]
    ext p
    simp
    tauto

end Laid

/-! ## What is read through the heap -/

def nameAt (heap : ColumnHeap Bytes) (p : Nat) : Option Bytes :=
  match heap.block p with
  | some (.name text) => some text
  | _ => none

/-- A column item, with the name in place of its pointer. -/
def HeapItem.view (heap : ColumnHeap Bytes) (col : HeapItem Bytes) : ColumnItem :=
  ⟨col.field.bind (nameAt heap), col.type, col.typeArg, col.storage, col.mask⟩

def viewColdata (heap : ColumnHeap Bytes) (coldata : Option Nat) : Option ColumnData :=
  match coldata with
  | none => none
  | some cd =>
    match heap.block cd with
    | some (.coldata _ numRows (some arr)) =>
      match heap.block arr with
      | some (.columns items) => some ⟨numRows, items.map (·.view heap)⟩
      | _ => none
    | _ => none

/-- `monary_set_column_item` for each of the calls. -/
def monarySetColumnItems (coldata : Option ColumnData) : List (SetCall Bytes) → Option ColumnData × List Int
  | [] => (coldata, [])
  | call :: calls =>
    let (coldata, r) :=
      monarySetColumnItem coldata call.colnum call.field call.type call.typeArg call.storage call.mask
    let (coldata, rs) := monarySetColumnItems coldata calls
    (coldata, r :: rs)

/-- The column that a call sets. -/
def SetCall.columnItem (call : SetCall Bytes) : ColumnItem :=
  ⟨some (cString call.field), call.type, call.typeArg, call.storage, call.mask⟩

section View
variable {heap heap' : ColumnHeap Bytes} {cd arr numRows c : Nat} {items : List (HeapItem Bytes)}

theorem Laid.viewColdata_eq (hl : Laid heap cd arr numRows items) :
    viewColdata heap (some cd) = some ⟨numRows, items.map (·.view heap)⟩ := by
  unfold viewColdata
  dsimp only
  rw [hl.coldata]
  dsimp only
  rw [hl.columns]

/-- The names of the other columns are read as before. -/
theorem ItemSet.view_eq {text : Bytes} {item : HeapItem Bytes} (hs : ItemSet heap heap' arr c items text item)
    (hl : Laid heap cd arr numRows items) :
    (items.set c item).map (·.view heap') =
      (items.map (·.view heap)).set c ⟨some text, item.type, item.typeArg, item.storage, item.mask⟩ := by
  apply List.ext_getElem?
  intro i
  rw [List.getElem?_map]
  by_cases hi : i = c
  · have hname : nameAt heap' heap.next = some text := by
      simp [nameAt, hs.block_next (BlockHeap.mem_live_of_block hl.columns)]
    rw [hi, List.getElem?_set_self hs.lt, List.getElem?_set_self (by simpa using hs.lt)]
    simp [HeapItem.view, hs.field, hname]
  · rw [List.getElem?_set_ne (Ne.symm hi), List.getElem?_set_ne (Ne.symm hi), List.getElem?_map]
    cases hcol : items[i]? with
    | none => rfl
    | some col =>
      have hname : ∀ p, col.field = some p → nameAt heap' p = nameAt heap p := by
        intro p hp
        have hat : fieldAt items i = some p := by
          simp [fieldAt, hcol, hp]
        unfold nameAt
        rw [hs.block_field hl hat]
      cases hfield' : col.field with
      | none => simp [HeapItem.view, hfield']
      | some p => simp [HeapItem.view, hfield', hname p hfield']

theorem monarySetColumnItem_eq (cd : ColumnData) (call : SetCall Bytes)
    (hshort : call.Accepted cd.columns.length → (cString call.field).length < 2 ^ 31) :
    monarySetColumnItem (some cd) call.colnum call.field call.type call.typeArg call.storage call.mask =
      if call.Accepted cd.columns.length then
        (some { cd with columns := cd.columns.set call.colnum call.columnItem }, 1)
      else (some cd, 0) := by
  unfold monarySetColumnItem
  dsimp only
  by_cases hcol : call.colnum ≥ cd.columns.length
  · rw [if_pos hcol, if_neg fun h => absurd h.1 (by omega)]
  by_cases htype : call.type = 0 ∨ call.type > MonaryType.lastType
  · rw [if_neg hcol, if_pos htype, if_neg fun h => absurd h.2.1 (by omega)]
  by_cases hstorage : call.storage = none
  · rw [if_neg hcol, if_neg htype, if_pos hstorage, if_neg fun h => ?_]
    simpa [hstorage] using h.2.2.1
  by_cases hmask : call.mask = none
  · rw [if_neg hcol, if_neg htype, if_neg hstorage, if_pos hmask, if_neg fun h => ?_]
    simpa [hmask] using h.2.2.2.1
  by_cases hlen : (cString call.field).length > maxStringLength
  · rw [if_neg hcol, if_neg htype, if_neg hstorage, if_neg hmask, if_pos hlen, if_neg fun h => ?_]
    have hle := h.2.2.2.2
    rw [toInt32_natCast (hshort h)] at hle
    omega
  · have hle : (cString call.field).length ≤ 1024 := by
      rw [maxStringLength] at hlen
      omega
    have hcall : call.Accepted cd.columns.length := by
      refine ⟨by omega, by omega, Option.isSome_iff_ne_none.mpr hstorage, Option.isSome_iff_ne_none.mpr hmask, ?_⟩
      rw [toInt32_natCast (by omega)]
      omega
    rw [if_neg hcol, if_neg htype, if_neg hstorage, if_neg hmask, if_neg hlen, if_pos hcall]
    rfl

theorem monarySetColumnItems_null (calls : List (SetCall Bytes)) :
    monarySetColumnItems none calls = (none, List.replicate calls.length 0) := by
  induction calls with
  | nil => rfl
  | cons call calls ih =>
    rw [monarySetColumnItems, monarySetColumnItem]
    dsimp only
    rw [ih]
    rfl

variable [Malloc]

/-- A call on the heap does to what is read what `monarySetColumnItem` does. -/
theorem heapSetColumnItem_refines (hl : Laid heap cd arr numRows items) (call : SetCall Bytes)
    (hshort : call.Accepted items.length → (cString call.field).length < 2 ^ 31) :
    ∃ r heap' items', heapSetColumnItem (some cd) call heap = .ok (r, heap') ∧
      Laid heap' cd arr numRows items' ∧ items'.length = items.length ∧
        monarySetColumnItem (viewColdata heap (some cd)) call.colnum call.field call.type call.typeArg call.storage
          call.mask = (viewColdata heap' (some cd), r) := by
  have hlen : (items.map (·.view heap)).length = items.length := List.length_map _
  rw [hl.viewColdata_eq, monarySetColumnItem_eq _ _ (by simpa using hshort)]
  dsimp only
  rw [hlen]
  rcases heapSetColumnItem_cases hl call with ⟨hcall, hset⟩ | ⟨hcall, hlong, -⟩ | ⟨hcall, -, heap', hset, hs⟩
  · rw [if_neg hcall]
    exact ⟨0, heap, items, hset, hl, rfl, by rw [hl.viewColdata_eq]⟩
  · have := hshort hcall
    omega
  · have hl' := hs.laid hl
    refine ⟨1, heap', _, hset, hl', List.length_set, ?_⟩
    rw [if_pos hcall, hl'.viewColdata_eq, hs.view_eq hl]
    rfl

/-- A run of calls on the heap does to what is read what the calls of `monarySetColumnItem` do. -/
theorem setItems_refines (hl : Laid heap cd arr numRows items) (calls : List (SetCall Bytes))
    (hshort : ShortNames items.length calls) :
    ∃ rs heap', setItems (some cd) calls heap = .ok (rs, heap') ∧
      monarySetColumnItems (viewColdata heap (some cd)) calls = (viewColdata heap' (some cd), rs) := by
  induction calls generalizing heap items with
  | nil => exact ⟨[], heap, rfl, rfl⟩
  | cons call calls ih =>
    obtain ⟨r, heap₁, items₁, hset, hl₁, hlen, hview⟩ :=
      heapSetColumnItem_refines hl call (hshort call List.mem_cons_self)
    obtain ⟨rs, heap₂, hrun, hviews⟩ := ih hl₁ fun other hother => by
      rw [hlen]
      exact hshort other (List.mem_cons_of_mem _ hother)
    refine ⟨r :: rs, heap₂, ?_, ?_⟩
    · rw [setItems, hset, ok_bind]
      dsimp only
      rw [hrun]
      rfl
    · rw [monarySetColumnItems, hview]
      dsimp only
      rw [hviews]

/-- An allocation and the calls after it: what is read through the heap, and what the calls return. -/
theorem columnData_refines {n : Nat} (heap : ColumnHeap Bytes) (numRows : Nat) (calls : List (SetCall Bytes))
    (hzero : n = 0 → Malloc.zeroBlock = true) (hshort : ShortNames n calls) :
    ∃ coldata heap₀ rs heap₁, heapAllocColumnData heap n numRows = .ok (coldata, heap₀) ∧
      setItems coldata calls heap₀ = .ok (rs, heap₁) ∧
        monarySetColumnItems (monaryAllocColumnData n numRows) calls = (viewColdata heap₁ coldata, rs) := by
  by_cases hn : n ≤ maxNumColumns
  · obtain ⟨heap₀, halloc, hl, -⟩ := heapAllocColumnData_eq heap numRows hn hzero
    have hview := hl.viewColdata_eq
    rw [List.map_replicate] at hview
    obtain ⟨rs, heap₁, hrun, hviews⟩ := setItems_refines hl calls (by rwa [List.length_replicate])
    refine ⟨_, heap₀, rs, heap₁, halloc, hrun, ?_⟩
    rw [monaryAllocColumnData, if_neg (by omega), ← hviews, hview]
    rfl
  · refine ⟨none, heap, _, heap, if_pos (by omega), setItems_null calls heap, ?_⟩
    rw [monaryAllocColumnData, if_pos (by omega), monarySetColumnItems_null]
    rfl

end View

/-- Two columns, the second of which is set twice. -/
def threeCalls : List (SetCall Bytes) :=
  [⟨0, [0x61], 5, 0, some [0], some [1]⟩, ⟨1, [0x62], 5, 0, some [0], some [1]⟩, ⟨1, [0x63], 5, 0, some [0], some [1]⟩]

theorem columnData_refines_threeCalls :
    ∃ coldata heap₀ heap₁, @heapAllocColumnData Bytes Malloc.glibc .empty 2 1 = .ok (coldata, heap₀) ∧
      @setItems Bytes Malloc.glibc coldata threeCalls heap₀ = .ok ([1, 1, 1], heap₁) ∧
        viewColdata heap₁ coldata = some ⟨1, [⟨some [0x61], 5, 0, some [0], some [1]⟩, ⟨some [0x63], 5, 0, some [0], some [1]⟩]⟩ := by
  have hshort : ShortNames 2 threeCalls := by
    intro call hcall _
    simp only [threeCalls, List.mem_cons, List.not_mem_nil, or_false] at hcall
    rcases hcall with rfl | rfl | rfl <;> decide
  obtain ⟨coldata, heap₀, rs, heap₁, halloc, hrun, hview⟩ :=
    @columnData_refines Malloc.glibc 2 .empty 1 threeCalls (fun h => absurd h (by decide)) hshort
  have hpure : monarySetColumnItems (monaryAllocColumnData 2 1) threeCalls =
      (some ⟨1, [⟨some [0x61], 5, 0, some [0], some [1]⟩, ⟨some [0x63], 5, 0, some [0], some [1]⟩]⟩, [1, 1, 1]) := by
    decide
  obtain ⟨hcoldata, rfl⟩ := Prod.mk.inj (hpure.symm.trans hview)
  exact ⟨coldata, heap₀, heap₁, halloc, hrun, hcoldata.symm⟩

end Monary
