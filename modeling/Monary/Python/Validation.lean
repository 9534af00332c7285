import Monary.Cmonary.Flat
import Monary.Cmonary.Ownership
import Monary.Python.ColumnSpecs
import Monary.Python.Reached
import Monary.Python.Sizing

/-!
# The checks of both sides

* `flatSetColumnItem`, `setColumns`, `flatMakeColumnData` : `monary_set_column_item` and `_make_column_data` with the
  pointers to the arrays, which numpy puts at `place`, and with what the calls return;
* `setColumns_eq` : a loop that makes all columns has no call refused;
* `makeColumnData_sets` : the column data that is made has every column as it was asked for;
* `view_of_accepts`, `owns_of_asAsked` : with fresh arrays behind the pointers it is that of `makeColumnData`, and its
  columns own arrays of the rows that were asked for;
* `setCallsFrom`, `namesOwned_makeColumnData` : the loop sets no column twice, so that the names are owned.
-/

namespace Monary
open CInt FlatMemory

/-- `monary_set_column_item`, with its pointers. -/
def flatSetColumnItem (coldata : Option FlatData) (colnum : Nat) (field : Bytes) (type typeArg : Nat)
    (storage mask : Option Region) : Option FlatData × Int :=
  match coldata with
  | none => (none, 0)
  | some fd =>
    if colnum ≥ fd.columns.length then (some fd, 0)
    else if type = 0 ∨ type > MonaryType.lastType then (some fd, 0)
    else if storage = none then (some fd, 0)
    else if mask = none then (some fd, 0)
    else if (cString field).length > maxStringLength then (some fd, 0)
    else (some { fd with columns := fd.columns.set colnum ⟨some (cString field), type, typeArg, storage, mask⟩ }, 1)

/-- A column item that `calloc` made. -/
def FlatItem.zeroed : FlatItem := ⟨none, 0, 0, none, none⟩

/-- `monary_alloc_column_data`. -/
def flatAllocColumnData (numColumns numRows : Nat) : Option FlatData :=
  if numColumns > maxNumColumns then none
  else some ⟨numRows, List.replicate numColumns FlatItem.zeroed⟩

section Validation
variable [PyImpl]

/-- The loop of `_make_column_data` from column `i` on, and what its calls of `monary_set_column_item` return. -/
def setColumns (env : Env) (place : Nat → Nat × Nat) (count : Int) :
    Nat → List (String × String) → Option FlatData → Except PyExn (Option FlatData × List Int)
  | _, [], coldata => .ok (coldata, [])
  | i, (field, typename) :: columns, coldata => do
    let c ← columnSpec env count i field typename
    let r := flatSetColumnItem coldata i c.field c.type.code c.typeArg (some ⟨(place i).1, c.data.length⟩)
      (some ⟨(place i).2, c.mask.length⟩)
    let rest ← setColumns env place count (i + 1) columns r.1
    return (rest.1, r.2 :: rest.2)

/-- `_make_column_data`: the column data, and what the calls of `monary_set_column_item` return. -/
def flatMakeColumnData (env : Env) (place : Nat → Nat × Nat) (fields types : List String) (count : Int) :
    Except PyExn (Option FlatData × List Int) :=
  if fields.length ≠ types.length then
    .error ⟨.valueError, "number of fields and types do not match", []⟩
  else if fields.length > maxColumns then
    .error ⟨.valueError, "number of fields exceeds maximum of %d", [.int maxColumns]⟩
  else do
    env.check .allocColumnData
    setColumns env place count 0 (fields.zip types)
      (flatAllocColumnData (toUInt32 (fields.length : Nat)) (toUInt32 count))

/-! ## The loop -/

/-- What the calls from column `i` on are given. -/
def Specs (env : Env) (count : Int) : Nat → List (String × String) → List ColumnSpec → Prop
  | _, [], cs => cs = []
  | i, p :: columns, cs => ∃ c rest, cs = c :: rest ∧ columnSpec env count i p.1 p.2 = .ok c ∧
      Specs env count (i + 1) columns rest

/-- The column that a call sets. -/
def ColumnSpec.item (place : Nat → Nat × Nat) (i : Nat) (c : ColumnSpec) : FlatItem :=
  ⟨some (cString c.field), c.type.code, c.typeArg, some ⟨(place i).1, c.data.length⟩,
    some ⟨(place i).2, c.mask.length⟩⟩

def itemsFrom (place : Nat → Nat × Nat) : Nat → List ColumnSpec → List FlatItem
  | _, [] => []
  | i, c :: cs => c.item place i :: itemsFrom place (i + 1) cs

variable {env : Env} {place : Nat → Nat × Nat} {count : Int}

/-- A loop that returns has made all columns. -/
theorem specs_of_fillColumns {columns : List (String × String)} {i : Nat} {coldata filled : Option ColumnData}
    (h : fillColumns env count i columns coldata = .ok filled) : ∃ cs, Specs env count i columns cs := by
  induction columns generalizing i coldata with
  | nil => exact ⟨[], rfl⟩
  | cons p columns ih =>
    rw [fillColumns_cons] at h
    obtain ⟨c, hc, h⟩ := bind_eq_ok h
    obtain ⟨rest, hrest⟩ := ih h
    exact ⟨c :: rest, c, rest, rfl, hc, hrest⟩

/-- A column that was made is set. -/
theorem flatSetColumnItem_of_spec (place : Nat → Nat × Nat) {p : String × String} {c : ColumnSpec} {i : Nat}
    {f : FlatData} (hc : columnSpec env count i p.1 p.2 = .ok c) (hi : i < f.columns.length) :
    flatSetColumnItem (some f) i c.field c.type.code c.typeArg (some ⟨(place i).1, c.data.length⟩)
        (some ⟨(place i).2, c.mask.length⟩) =
      (some { f with columns := f.columns.set i (c.item place i) }, 1) := by
  obtain ⟨-, -, -, hlen, -⟩ := columnSpec_eq_ok hc
  have hname : (cString c.field).length ≤ maxStringLength := (List.takeWhile_prefix _).length_le.trans hlen
  obtain ⟨h0, hlast⟩ := code_pos c.type
  unfold flatSetColumnItem
  dsimp only
  rw [if_neg (by omega), if_neg (by omega), if_neg (by simp), if_neg (by simp), if_neg (by omega)]
  rfl

/-- The loop sets every column that it makes, and no call is refused. -/
theorem setColumns_eq (place : Nat → Nat × Nat) {columns : List (String × String)} {i n : Nat} (done : List FlatItem)
    {cs : List ColumnSpec}
    (hi : done.length = i) (h : Specs env count i columns cs) :
    setColumns env place count i columns (some ⟨n, done ++ List.replicate columns.length FlatItem.zeroed⟩) =
      .ok (some ⟨n, done ++ itemsFrom place i cs⟩, List.replicate columns.length 1) := by
  induction columns generalizing i done cs with
  | nil =>
    rw [show cs = [] from h]
    rfl
  | cons p columns ih =>
    obtain ⟨c, rest, rfl, hc, hrest⟩ := h
    have hlen : i < (done ++ List.replicate (columns.length + 1) FlatItem.zeroed).length := by simp; omega
    have hset := flatSetColumnItem_of_spec (f := ⟨n, done ++ List.replicate (columns.length + 1) FlatItem.zeroed⟩)
      place hc hlen
    have hlist : (done ++ List.replicate (columns.length + 1) FlatItem.zeroed).set i (c.item place i) =
        (done ++ [c.item place i]) ++ List.replicate columns.length FlatItem.zeroed := by
      rw [List.set_append_right _ _ (by omega), hi, Nat.sub_self, List.replicate_succ, List.set_cons_zero,
        List.append_assoc]
      rfl
    have hrec := ih (done ++ [c.item place i]) (by rw [List.length_append, List.length_singleton, hi]) hrest
    rw [setColumns, hc]
    show (do let rest ← setColumns env place count (i + 1) columns _; _) = _
    rw [List.length_cons, hset]
    dsimp only
    rw [hlist, hrec, List.append_assoc]
    rfl

/-! ## All columns -/

theorem specs_length {columns : List (String × String)} {i : Nat} {cs : List ColumnSpec}
    (h : Specs env count i columns cs) : cs.length = columns.length := by
  induction columns generalizing i cs with
  | nil => rw [show cs = [] from h, List.length_nil, List.length_nil]
  | cons p columns ih =>
    obtain ⟨c, rest, rfl, -, hrest⟩ := h
    rw [List.length_cons, List.length_cons, ih hrest]

omit [PyImpl] in
theorem length_itemsFrom (place : Nat → Nat × Nat) (i : Nat) (cs : List ColumnSpec) :
    (itemsFrom place i cs).length = cs.length := by
  induction cs generalizing i with
  | nil => rfl
  | cons c cs ih => rw [itemsFrom, List.length_cons, List.length_cons, ih]

/-- The `j`-th call is that of the `j`-th column. -/
theorem specs_get (place : Nat → Nat × Nat) {columns : List (String × String)} {i j : Nat} {cs : List ColumnSpec}
    {p : String × String}
    (h : Specs env count i columns cs) (hj : columns[j]? = some p) :
    ∃ c, columnSpec env count (i + j) p.1 p.2 = .ok c ∧
      (itemsFrom place i cs)[j]? = some (c.item place (i + j)) := by
  induction columns generalizing i j cs with
  | nil => simp at hj
  | cons q columns ih =>
    obtain ⟨c, rest, rfl, hc, hrest⟩ := h
    rcases j with _ | j
    · cases hj
      exact ⟨c, hc, rfl⟩
    · obtain ⟨c', hc', hget⟩ := ih hrest hj
      rw [show i + 1 + j = i + (j + 1) by omega] at hc' hget
      exact ⟨c', hc', hget⟩

/-- What is made of a column. -/
theorem columnSpec_parts {i : Nat} {field typename : String} {c : ColumnSpec}
    (h : columnSpec env count i field typename = .ok c) :
    ∃ n dt k, getMonaryNumpyType typename = .ok (c.type, n, dt) ∧ dt.itemSize = some k ∧
      encodeAscii field = .ok c.field ∧ c.typeArg = toUInt32 n ∧ c.data.length = count.toNat * k ∧
      c.mask.length = count.toNat := by
  have hmask : c.mask = List.replicate count.toNat 1 := (columnSpec_eq_ok h).2.2.2.2.2.2.2
  unfold columnSpec at h
  split at h
  · cases h
  obtain ⟨⟨t, n, dt⟩, htype, h⟩ := bind_eq_ok h
  obtain ⟨⟨⟩, -, h⟩ := bind_eq_ok h
  obtain ⟨data, hdata, h⟩ := bind_eq_ok h
  obtain ⟨⟨⟩, -, h⟩ := bind_eq_ok h
  obtain ⟨mask, -, h⟩ := bind_eq_ok h
  obtain ⟨name, hname, h⟩ := bind_eq_ok h
  obtain ⟨⟨⟩, -, h⟩ := bind_eq_ok h
  cases h
  obtain ⟨-, k, hk, rfl⟩ := numpyZeros_eq_ok hdata
  refine ⟨n, dt, k, htype, hk, hname, rfl, ?_, ?_⟩
  · exact List.length_replicate
  · rw [hmask, List.length_replicate]

omit [PyImpl] in
/-- A name without NUL is a C string as a whole. -/
theorem cString_encodeAscii {field : String} {name : Bytes} (h : encodeAscii field = .ok name)
    (h0 : '\x00' ∉ field.toList) : cString name = name := by
  unfold encodeAscii at h
  split at h
  · next hascii =>
    cases h
    unfold cString
    rw [List.takeWhile_eq_self_iff]
    intro b hb
    obtain ⟨c, hc, rfl⟩ := List.mem_map.mp hb
    have hlt : c.toNat < 128 := by simpa using List.all_eq_true.mp hascii c hc
    rw [bne_iff_ne]
    intro hzero
    have hnat := congrArg UInt8.toNat hzero
    rw [UInt8.toNat_ofNat', Nat.mod_eq_of_lt (by omega)] at hnat
    have hnul : c = '\x00' := Char.toNat_inj.mp hnat
    exact h0 (hnul ▸ hc)
  · cases h

/-- Where `_make_column_data` returns, it has made the columns. -/
theorem accepts_of_returned {fields types : List String} {s : State} {r : Option (Nat × ColumnData)}
    (h : (makeColumnData env fields types count s).1 = .returned r) :
    ColumnsMade env fields types count ∧ ∃ cd, Accepts env fields types count cd := by
  rcases makeColumnData_outcome env fields types count s with ⟨e, s', hmake, -, -⟩ | ⟨cd, hmade, hacc, -⟩
  · rw [hmake] at h
    cases h
  · exact ⟨hmade, cd, hacc⟩

/-- The columns that `_make_column_data` is asked for. -/
def AsAsked (place : Nat → Nat × Nat) (fields types : List String) (count : Int) (fd : FlatData) : Prop :=
  (fd.numRows : Int) = count ∧ fd.columns.length = fields.length ∧
    ∀ i field typename, fields[i]? = some field → types[i]? = some typename →
      ∃ name t n dt k, encodeAscii field = .ok name ∧ getMonaryNumpyType typename = .ok (t, n, dt) ∧
        dt.itemSize = some k ∧ fd.columns[i]? = some (FlatItem.mk (some name) t.code (toUInt32 n)
          (some ⟨(place i).1, count.toNat * k⟩) (some ⟨(place i).2, count.toNat⟩))

/-- When `_make_column_data` returns, every call of `monary_set_column_item` has returned 1, and the column data has
the columns that were asked for. -/
theorem makeColumnData_sets {fields types : List String} {s : State} {r : Option (Nat × ColumnData)}
    (hnul : ∀ field ∈ fields, '\x00' ∉ field.toList) (hcount : 0 ≤ count) (hcount' : count < 2 ^ 32)
    (h : (makeColumnData env fields types count s).1 = .returned r) :
    ∃ fd, flatMakeColumnData env place fields types count = .ok (some fd, List.replicate fields.length 1) ∧
      AsAsked place fields types count fd := by
  obtain ⟨hmade, cd, hacc⟩ := accepts_of_returned h
  have hzip : (fields.zip types).length = fields.length := by
    rw [List.length_zip, ← hacc.lengths, Nat.min_self]
  obtain ⟨cs, hcs⟩ := specs_of_fillColumns hacc.filled
  have hle := hmade.le
  have hloop := setColumns_eq (n := toUInt32 count) place [] List.length_nil hcs
  have halloc : flatAllocColumnData (toUInt32 (fields.length : Nat)) (toUInt32 count) =
      some ⟨toUInt32 count, [] ++ List.replicate (fields.zip types).length FlatItem.zeroed⟩ := by
    have hn : toUInt32 (fields.length : Int) = fields.length := toUInt32_of_lt (by unfold maxColumns at hle; omega)
    rw [flatAllocColumnData, hn, if_neg (by unfold maxNumColumns; unfold maxColumns at hle; omega), hzip]
    rfl
  refine ⟨⟨toUInt32 count, itemsFrom place 0 cs⟩, ?_, ?_, ?_, ?_⟩
  · have hlen := hacc.lengths
    unfold flatMakeColumnData
    rw [if_neg (by omega), if_neg (by omega), Env.check, hmade.alloc]
    show setColumns env place count 0 _ _ = _
    rw [halloc, hloop, hzip]
    rfl
  · show ((toUInt32 count : Nat) : Int) = count
    unfold toUInt32
    omega
  · show (itemsFrom place 0 cs).length = fields.length
    rw [length_itemsFrom, specs_length hcs, hzip]
  · intro i field typename hfield htype
    have hp : (fields.zip types)[i]? = some (field, typename) := by
      rw [List.getElem?_zip_eq_some]
      exact ⟨hfield, htype⟩
    obtain ⟨c, hc, hget⟩ := specs_get place hcs hp
    rw [Nat.zero_add] at hc hget
    obtain ⟨n, dt, k, htype', hk, hname, harg, hdata, hmask⟩ := columnSpec_parts hc
    refine ⟨c.field, c.type, n, dt, k, hname, htype', hk, ?_⟩
    rw [hget, ColumnSpec.item, cString_encodeAscii hname (hnul field (List.mem_of_getElem? hfield)), harg, hdata, hmask]

/-! ## The arrays behind the pointers -/

/-- The arrays hold what `numpy.zeros` and `numpy.ones` leave in them. -/
def FreshArrays (fd : FlatData) (mem : Memory UInt8) : Prop :=
  ∀ c ∈ fd.columns, (∀ r, c.storage = some r → read mem r = List.replicate r.size 0) ∧
    ∀ r, c.mask = some r → read mem r = List.replicate r.size 1

/-- With fresh arrays behind its pointers, the column data is that of `makeColumnData`. -/
theorem view_of_accepts {fields types : List String} {cd : ColumnData} {cs : List ColumnSpec} {mem : Memory UInt8}
    (hacc : Accepts env fields types count cd) (hcs : Specs env count 0 (fields.zip types) cs)
    (hfresh : FreshArrays ⟨toUInt32 count, itemsFrom place 0 cs⟩ mem) :
    (FlatData.mk (toUInt32 count) (itemsFrom place 0 cs)).view mem = cd := by
  have hcount : 0 ≤ count ∨ fields.zip types = [] := by
    rcases hz : fields.zip types with _ | ⟨p, columns⟩
    · exact Or.inr rfl
    · rw [hz] at hcs
      obtain ⟨c, rest, -, hc, -⟩ := hcs
      exact Or.inl (columnSpec_eq_ok hc).1
  rcases hcount with hcount | hnil
  · obtain ⟨-, cts, hcts, rfl⟩ := (accepts_iff hcount).mp hacc
    have htypes := acceptable_types hcts
    unfold FlatData.view
    congr 1
    apply List.ext_getElem?
    intro j
    rw [List.getElem?_map, List.getElem?_map]
    rcases hp : (fields.zip types)[j]? with _ | p
    · have hlen : (fields.zip types).length ≤ j := List.getElem?_eq_none_iff.mp hp
      have hcl : cts.length = (fields.zip types).length := by
        have := congrArg List.length htypes
        rw [List.length_map, List.length_map] at this
        exact this.symm
      rw [List.getElem?_eq_none (by rw [length_itemsFrom, specs_length hcs]; exact hlen),
        List.getElem?_eq_none (by rw [hcl]; exact hlen)]
      rfl
    · obtain ⟨c, hc, hget⟩ := specs_get place hcs hp
      have hct : cts[j]? = some ⟨cString c.field, c.type, c.typeArg⟩ := by
        have hj := congrArg (fun l : List (Option ColumnType) => l[j]?) htypes
        simp only [List.getElem?_map, hp, Option.map_some] at hj
        rw [(columnSpec_eq_ok hc).2.2.1] at hj
        rcases hctsj : cts[j]? with _ | ct
        · rw [hctsj] at hj
          cases hj
        · rw [hctsj] at hj
          rw [← Option.some.inj (Option.some.inj hj)]
      obtain ⟨hstorage, hmask⟩ := hfresh _ (List.mem_of_getElem? hget)
      obtain ⟨-, -, -, -, -, -, hdata, hones⟩ := columnSpec_eq_ok hc
      rw [hget, hct, Option.map_some, Option.map_some, FlatItem.view, ColumnSpec.item, Option.map_some,
        Option.map_some, hstorage _ rfl, hmask _ rfl, hdata, hones, List.length_replicate, List.length_replicate]
      rfl
  · have hfilled := hacc.filled
    rw [hnil] at hfilled hcs
    rw [show cs = [] from hcs]
    have hlen : fields.length = 0 := by
      have hz := congrArg List.length hnil
      rw [List.length_zip, ← hacc.lengths, Nat.min_self] at hz
      exact hz
    rw [blankColumns, hlen] at hfilled
    cases hfilled
    rfl

/-- The columns that were asked for own their arrays. -/
theorem owns_of_asAsked {fields types : List String} {fd : FlatData} (hlen : fields.length = types.length)
    (h : AsAsked place fields types count fd) : ∀ c ∈ fd.columns, c.Owns fd.numRows := by
  obtain ⟨hrows, hcols, hget⟩ := h
  intro c hc
  obtain ⟨i, hi, rfl⟩ := List.mem_iff_getElem.mp hc
  have hf : i < fields.length := by omega
  have ht : i < types.length := by omega
  obtain ⟨name, t, n, dt, k, -, htype, hk, hcol⟩ :=
    hget i fields[i] types[i] (List.getElem?_eq_getElem hf) (List.getElem?_eq_getElem ht)
  rw [List.getElem?_eq_getElem hi] at hcol
  rw [Option.some.inj hcol]
  have hcount : count.toNat = fd.numRows := by omega
  have hitem := (itemSize_getMonaryNumpyType htype hk).1
  refine ⟨by simp, toUInt32_lt n, ⟨_, rfl, ?_⟩, ⟨_, rfl, hcount⟩⟩
  intro t' ht'
  obtain rfl : t = t' := Option.some.inj ((MonaryType.ofCode_code t).symm.trans ht')
  rw [← hitem, ← hcount]

/-! ## The names of the columns -/

/-- The calls of `monary_set_column_item` from column `i` on. -/
def setCallsFrom (place : Nat → Nat × Nat) : Nat → List ColumnSpec → List (SetCall Region)
  | _, [] => []
  | i, c :: cs =>
    ⟨i, c.field, c.type.code, c.typeArg, some ⟨(place i).1, c.data.length⟩, some ⟨(place i).2, c.mask.length⟩⟩ ::
      setCallsFrom place (i + 1) cs

omit [PyImpl] in
theorem colnum_setCallsFrom (place : Nat → Nat × Nat) (i : Nat) (cs : List ColumnSpec) :
    (setCallsFrom place i cs).map (·.colnum) = List.range' i cs.length := by
  induction cs generalizing i with
  | nil => rfl
  | cons c cs ih => rw [setCallsFrom, List.map_cons, ih, List.length_cons, List.range'_succ]

theorem length_field_setCallsFrom (place : Nat → Nat × Nat) {columns : List (String × String)} {i : Nat}
    {cs : List ColumnSpec} (h : Specs env count i columns cs) :
    ∀ call ∈ setCallsFrom place i cs, call.field.length ≤ maxStringLength := by
  induction columns generalizing i cs with
  | nil =>
    rw [show cs = [] from h]
    exact fun call hcall => absurd hcall List.not_mem_nil
  | cons p columns ih =>
    obtain ⟨c, rest, rfl, hc, hrest⟩ := h
    intro call hcall
    rcases List.mem_cons.mp hcall with rfl | hcall
    · exact (columnSpec_eq_ok hc).2.2.2.1
    · exact ih hrest call hcall

/-- The loop sets every column once. -/
theorem setOnce_setCallsFrom [Malloc] (place : Nat → Nat × Nat) {columns : List (String × String)} {i n : Nat}
    {cs : List ColumnSpec} (h : Specs env count i columns cs) (hzero : n = 0 → Malloc.zeroBlock = true) :
    SetOnce n (setCallsFrom place i cs) := by
  refine ⟨hzero, ?_, ?_⟩
  · intro call hcall _
    have hfield := length_field_setCallsFrom place h call hcall
    have hle : (cString call.field).length ≤ call.field.length := (List.takeWhile_prefix _).length_le
    rw [maxStringLength] at hfield
    omega
  · have hsub : (acceptedColumns n (setCallsFrom place i cs)).Sublist (List.range' i cs.length) := by
      rw [← colnum_setCallsFrom place]
      exact List.filter_sublist.map _
    exact List.Nodup.sublist hsub (List.nodup_range' 1)

/-- When `_make_column_data` returns, its calls have set no column twice: the names of the column data are owned,
and the release leaves none. -/
theorem namesOwned_makeColumnData [Malloc] {fields types : List String} {s : State} {r : Option (Nat × ColumnData)}
    (h : (makeColumnData env fields types count s).1 = .returned r) (heap : ColumnHeap Region)
    (hzero : fields = [] → Malloc.zeroBlock = true) :
    ∃ cs, Specs env count 0 (fields.zip types) cs ∧
      NamesOwned heap (toUInt32 (fields.length : Nat)) (toUInt32 count) (setCallsFrom place 0 cs) := by
  obtain ⟨hmade, cd, hacc⟩ := accepts_of_returned h
  obtain ⟨cs, hcs⟩ := specs_of_fillColumns hacc.filled
  have hle := hmade.le
  unfold maxColumns at hle
  have hn : toUInt32 (fields.length : Int) = fields.length := toUInt32_of_lt (by omega)
  rw [hn]
  refine ⟨cs, hcs, (setOnce_setCallsFrom place hcs ?_).namesOwned heap hle⟩
  exact fun h0 => hzero (List.length_eq_zero_iff.mp h0)

end Validation

/-- Two columns of two rows, with twenty bytes for the arrays of each. -/
theorem makeColumnData_sets_twoColumns :
    ∃ fd, @flatMakeColumnData PyImpl.ascii (pipelineServer [] []) (fun i => (20 * i, 20 * i + 10)) ["d", "e"]
        ["int32", "string:3"] 2 = .ok (some fd, [1, 1]) ∧
      @AsAsked PyImpl.ascii (fun i => (20 * i, 20 * i + 10)) ["d", "e"] ["int32", "string:3"] 2 fd := by
  have hmake : (@makeColumnData PyImpl.ascii (pipelineServer [] []) ["d", "e"] ["int32", "string:3"] 2
      connectedState).1 = .returned (some (1, ⟨2, [freshColumn [0x64] .int32 0 2, freshColumn [0x65] .string 3 2]⟩)) :=
    rfl
  exact @makeColumnData_sets PyImpl.ascii _ (fun i => (20 * i, 20 * i + 10)) _ _ _ _ _ (by decide) (by decide)
    (by decide) hmake

end Monary
