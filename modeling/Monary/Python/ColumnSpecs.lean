import Monary.Python.Sessions

/-!
# The columns that are made

* `columnType` : what field and type name give a column, if `_make_column_data` takes them;
* `Acceptable` : all columns are taken, and no step of the loop raises for a reason of its own;
* `accepts_iff` : for a count that is not negative, the columns are made exactly when they are acceptable, and
  are then fresh columns of their types;
* `holds_accepted` : they hold as many rows as were asked for.
-/

namespace Monary
open CInt

/-- The name, the type and the width of a column. -/
structure ColumnType where
  field : Bytes
  type : MonaryType
  typeArg : Nat
  deriving DecidableEq, Repr

def ColumnType.fresh (c : ColumnType) (rows : Nat) : ColumnItem := freshColumn c.field c.type c.typeArg rows

theorem length_encodeAscii {s : String} {b : Bytes} (h : encodeAscii s = .ok b) : b.length = s.length := by
  unfold encodeAscii at h
  split at h
  · cases h
    rw [List.length_map, String.length_toList]
  · cases h

theorem check_eq_ok {env : Env} {step : Step} : env.check step = .ok () ↔ env.raises step = none := by
  unfold Env.check
  rcases env.raises step with _ | e
  · exact ⟨fun _ => rfl, fun _ => rfl⟩
  · exact ⟨nofun, nofun⟩

theorem numpyZeros_eq_ok {count : Int} {dt : NumpyType} {data : Bytes} (h : numpyZeros count dt = .ok data) :
    0 ≤ count ∧ ∃ k, dt.itemSize = some k ∧ data = List.replicate (count.toNat * k) 0 := by
  unfold numpyZeros at h
  rcases hk : dt.itemSize with _ | k
  · rw [hk] at h
    cases h
  · rw [hk] at h
    dsimp only at h
    split at h
    · cases h
    · cases h
      exact ⟨by omega, k, rfl, rfl⟩

section Specs
variable [PyImpl]

/-- What field and type name give a column. -/
def columnType (field typename : String) : Option ColumnType :=
  if field.length > maxStringLength then none
  else do
    let (cmonaryType, cmonaryTypeArg, numpyType) ← (getMonaryNumpyType typename).toOption
    let _ ← numpyType.itemSize
    let name ← (encodeAscii field).toOption
    return ⟨cString name, cmonaryType, toUInt32 cmonaryTypeArg⟩

/-- No step of the loop raises for a reason of its own at column `i`. -/
structure Env.Makes (env : Env) (i : Nat) : Prop where
  zeros : env.raises (.zeros i) = none
  ones : env.raises (.ones i) = none
  set : env.raises (.setColumnItem i) = none

/-- What the call of `monary_set_column_item` is given. -/
theorem columnSpec_eq_ok {env : Env} {count : Int} {i : Nat} {field typename : String} {c : ColumnSpec}
    (h : columnSpec env count i field typename = .ok c) :
    0 ≤ count ∧ env.Makes i ∧ columnType field typename = some ⟨cString c.field, c.type, c.typeArg⟩ ∧
      c.field.length ≤ maxStringLength ∧ c.typeArg < 2 ^ 32 ∧ (c.type.sized = true → 0 < c.typeArg) ∧
      c.data = List.replicate (count.toNat * c.type.itemSize c.typeArg) 0 ∧
      c.mask = List.replicate count.toNat 1 := by
  unfold columnSpec at h
  split at h
  · cases h
  next hlen =>
  obtain ⟨⟨t, n, dt⟩, htype, h⟩ := bind_eq_ok h
  obtain ⟨⟨⟩, hzeros, h⟩ := bind_eq_ok h
  obtain ⟨data, hdata, h⟩ := bind_eq_ok h
  obtain ⟨⟨⟩, hones, h⟩ := bind_eq_ok h
  obtain ⟨mask, hmask, h⟩ := bind_eq_ok h
  obtain ⟨name, hname, h⟩ := bind_eq_ok h
  obtain ⟨⟨⟩, hset, h⟩ := bind_eq_ok h
  cases h
  obtain ⟨hcount, k, hk, rfl⟩ := numpyZeros_eq_ok hdata
  obtain ⟨hitem, hpos⟩ := itemSize_getMonaryNumpyType htype hk
  refine ⟨hcount, ⟨check_eq_ok.mp hzeros, check_eq_ok.mp hones, check_eq_ok.mp hset⟩, ?_, ?_, toUInt32_lt n, hpos, ?_, ?_⟩
  · unfold columnType
    rw [if_neg hlen, htype]
    show (do let _ ← dt.itemSize; _) = _
    rw [hk]
    show (do let name ← (encodeAscii field).toOption; _) = _
    rw [hname]
    rfl
  · rw [length_encodeAscii hname]
    omega
  · rw [hitem]
  · unfold numpyOnes at hmask
    rw [if_neg (by omega)] at hmask
    cases hmask
    rfl

/-- A column that has a type is taken where no step raises. -/
theorem columnSpec_ok {env : Env} {count : Int} {i : Nat} {field typename : String} {ct : ColumnType}
    (hcount : 0 ≤ count) (hmakes : env.Makes i) (hct : columnType field typename = some ct) :
    ∃ c, columnSpec env count i field typename = .ok c := by
  unfold columnType at hct
  split at hct
  · cases hct
  next hlen =>
  rcases htype : getMonaryNumpyType typename with e | ⟨t, n, dt⟩
  · rw [htype] at hct
    cases hct
  rw [htype] at hct
  rcases hk : dt.itemSize with _ | k
  · simp [Except.toOption, hk] at hct
  rcases hname : encodeAscii field with e | name
  · simp [Except.toOption, hname] at hct
  have hdata : numpyZeros count dt = .ok (List.replicate (count.toNat * k) 0) := by
    unfold numpyZeros
    rw [hk]
    exact if_neg (by omega)
  have hmask : numpyOnes count = .ok (List.replicate count.toNat 1) := if_neg (by omega)
  refine ⟨⟨name, t, toUInt32 n, List.replicate (count.toNat * k) 0, List.replicate count.toNat 1⟩, ?_⟩
  unfold columnSpec
  rw [if_neg hlen, htype]
  show (do env.check (.zeros i); _ : Except PyExn ColumnSpec) = _
  rw [check_eq_ok.mpr hmakes.zeros]
  show (do let data ← numpyZeros count dt; _ : Except PyExn ColumnSpec) = _
  rw [hdata]
  show (do env.check (.ones i); _ : Except PyExn ColumnSpec) = _
  rw [check_eq_ok.mpr hmakes.ones]
  show (do let mask ← numpyOnes count; _ : Except PyExn ColumnSpec) = _
  rw [hmask]
  show (do let name ← encodeAscii field; _ : Except PyExn ColumnSpec) = _
  rw [hname]
  show (do env.check (.setColumnItem i); _ : Except PyExn ColumnSpec) = _
  rw [check_eq_ok.mpr hmakes.set]
  rfl

/-! ## All columns -/

/-- The columns are taken from column `i` on, and have these types. -/
def Acceptable (env : Env) : Nat → List (String × String) → List ColumnType → Prop
  | _, [], cts => cts = []
  | i, p :: columns, cts => env.Makes i ∧ ∃ ct rest, cts = ct :: rest ∧ columnType p.1 p.2 = some ct ∧
      Acceptable env (i + 1) columns rest

theorem fillColumns_cons (env : Env) (count : Int) (i : Nat) (p : String × String)
    (columns : List (String × String)) (coldata : Option ColumnData) :
    fillColumns env count i (p :: columns) coldata = (do
      let c ← columnSpec env count i p.1 p.2
      fillColumns env count (i + 1) columns
        (monarySetColumnItem coldata i c.field c.type.code c.typeArg (some c.data) (some c.mask)).1) := rfl

/-- The loop sets the columns from `i` on as fresh columns of their types, or raises. -/
theorem fillColumns_iff {env : Env} {count : Int} (hcount : 0 ≤ count) {columns : List (String × String)}
    {i n : Nat} {done : List ColumnItem} (hi : done.length = i) {filled : Option ColumnData} :
    fillColumns env count i columns (some ⟨n, done ++ List.replicate columns.length ColumnItem.zeroed⟩) =
        .ok filled ↔
      ∃ cts, Acceptable env i columns cts ∧ filled = some ⟨n, done ++ cts.map (·.fresh count.toNat)⟩ := by
  induction columns generalizing i done with
  | nil =>
    show (Except.ok _ = Except.ok filled) ↔ _
    constructor
    · intro h
      cases h
      exact ⟨[], rfl, rfl⟩
    · rintro ⟨cts, rfl, rfl⟩
      rfl
  | cons p columns ih =>
    have hset {c : ColumnSpec} (h : columnSpec env count i p.1 p.2 = .ok c) :
        (monarySetColumnItem (some ⟨n, done ++ List.replicate (columns.length + 1) ColumnItem.zeroed⟩) i c.field
          c.type.code c.typeArg (some c.data) (some c.mask)).1 =
          some ⟨n, (done ++ [(ColumnType.fresh ⟨cString c.field, c.type, c.typeArg⟩ count.toNat)]) ++
            List.replicate columns.length ColumnItem.zeroed⟩ := by
      obtain ⟨-, -, -, hlen, -, -, hdata, hmask⟩ := columnSpec_eq_ok h
      rw [hdata, hmask, monarySetColumnItem_freshColumn (by simp; omega) hlen]
      show some (ColumnData.mk _ _) = _
      rw [List.set_append_right _ _ (by omega), hi, Nat.sub_self, List.replicate_succ, List.set_cons_zero,
        List.append_assoc]
      rfl
    rw [List.length_cons, fillColumns_cons]
    constructor
    · intro h
      obtain ⟨c, hc, h⟩ := bind_eq_ok h
      rw [hset hc] at h
      obtain ⟨cts, hcts, rfl⟩ := (ih (by rw [List.length_append, List.length_singleton, hi])).mp h
      obtain ⟨-, hmakes, hct, -⟩ := columnSpec_eq_ok hc
      refine ⟨⟨cString c.field, c.type, c.typeArg⟩ :: cts, ⟨hmakes, _, cts, rfl, hct, hcts⟩, ?_⟩
      rw [List.append_assoc]
      rfl
    · rintro ⟨cts, ⟨hmakes, ct, rest, rfl, hct, hrest⟩, rfl⟩
      obtain ⟨c, hc⟩ := columnSpec_ok hcount hmakes hct
      have hct' : ColumnType.mk (cString c.field) c.type c.typeArg = ct := by
        obtain ⟨-, -, h, -⟩ := columnSpec_eq_ok hc
        exact Option.some.inj (h.symm.trans hct)
      rw [hc]
      show fillColumns env count (i + 1) columns _ = _
      rw [hset hc, hct', ih (by rw [List.length_append, List.length_singleton, hi])]
      refine ⟨rest, hrest, ?_⟩
      rw [List.append_assoc]
      rfl

/-- For a count that is not negative, the columns are made exactly when they are acceptable. -/
theorem accepts_iff {env : Env} {fields types : List String} {count : Int} (hcount : 0 ≤ count)
    {cd : ColumnData} :
    Accepts env fields types count cd ↔ fields.length = types.length ∧ ∃ cts, Acceptable env 0 (fields.zip types) cts ∧
      cd = ⟨toUInt32 count, cts.map (·.fresh count.toNat)⟩ := by
  have hblank (hlen : fields.length = types.length) : blankColumns fields.length count =
      ⟨toUInt32 count, [] ++ List.replicate (fields.zip types).length ColumnItem.zeroed⟩ := by
    rw [List.length_zip, ← hlen, Nat.min_self]
    rfl
  have hfill (filled : Option ColumnData) : fillColumns env count 0 (fields.zip types)
      (some ⟨toUInt32 count, [] ++ List.replicate (fields.zip types).length ColumnItem.zeroed⟩) = .ok filled ↔
        ∃ cts, Acceptable env 0 (fields.zip types) cts ∧
          filled = some ⟨toUInt32 count, [] ++ cts.map (·.fresh count.toNat)⟩ :=
    fillColumns_iff hcount List.length_nil
  constructor
  · rintro ⟨hlen, h⟩
    rw [hblank hlen, hfill] at h
    obtain ⟨cts, hcts, h⟩ := h
    exact ⟨hlen, cts, hcts, Option.some.inj h⟩
  · rintro ⟨hlen, cts, hcts, rfl⟩
    refine ⟨hlen, ?_⟩
    rw [hblank hlen, hfill]
    exact ⟨cts, hcts, rfl⟩

/-- The type of a column is one of a column of the table, with a width that its loader can take. -/
theorem columnType_eq_some {field typename : String} {ct : ColumnType} (h : columnType field typename = some ct) :
    ct.typeArg < 2 ^ 32 ∧ (ct.type.sized = true → 0 < ct.typeArg) := by
  have hmakes : Env.Makes ⟨fun _ => none, fun _ => .ok [], fun _ => true, true, fun _ => 0, fun _ _ _ _ => none,
    fun _ => none⟩ 0 := ⟨rfl, rfl, rfl⟩
  obtain ⟨c, hc⟩ := columnSpec_ok (le_refl 0) hmakes h
  obtain ⟨-, -, hct, -, hlt, hpos, -, -⟩ := columnSpec_eq_ok hc
  obtain rfl := Option.some.inj (hct.symm.trans h)
  exact ⟨hlt, hpos⟩

theorem acceptable_types {env : Env} {i : Nat} {columns : List (String × String)} {cts : List ColumnType}
    (h : Acceptable env i columns cts) :
    columns.map (fun p => columnType p.1 p.2) = cts.map some := by
  induction columns generalizing i cts with
  | nil =>
    rw [show cts = [] from h]
    rfl
  | cons p columns ih =>
    obtain ⟨-, ct, rest, rfl, hct, hrest⟩ := h
    rw [List.map_cons, List.map_cons, hct, ih hrest]

/-- Fresh columns hold as many rows as they were made for. -/
theorem holds_fresh {env : Env} {i : Nat} {columns : List (String × String)} {cts : List ColumnType}
    (h : Acceptable env i columns cts) (rows : Nat) :
    ∀ ct ∈ cts, (ct.fresh rows).Holds ct.type rows := by
  intro ct hct
  have hmem : some ct ∈ columns.map (fun p => columnType p.1 p.2) := by
    rw [acceptable_types h]
    exact List.mem_map_of_mem hct
  obtain ⟨p, -, hp⟩ := List.mem_map.mp hmem
  obtain ⟨hlt, hpos⟩ := columnType_eq_some hp
  exact freshColumn_holds _ _ hlt hpos

theorem holds_accepted {env : Env} {fields types : List String} {count : Int} (hcount : 0 ≤ count)
    {cd : ColumnData} (h : Accepts env fields types count cd) : cd.Holds count.toNat := by
  obtain ⟨-, cts, hcts, rfl⟩ := (accepts_iff hcount).mp h
  refine ⟨?_, ?_⟩
  · show toUInt32 count ≤ count.toNat
    unfold toUInt32
    omega
  · intro c hc
    obtain ⟨ct, hct, rfl⟩ := List.mem_map.mp hc
    exact ⟨ct.type, holds_fresh hcts _ ct hct⟩

end Specs

end Monary
