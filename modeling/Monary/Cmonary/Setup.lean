import Monary.Cmonary.Query

/-!
# Setting up a load

* `monaryAllocColumnData`, `monarySetColumnItem` : the functions of these names, a pointer to column data
  being `none` for `NULL`;
* `bsonInitStatic` : the check of the bytes that a query or a pipeline is given as. A byte outside them
  is not to be read;
* `monaryGetBsonFieldsList` : the keys of the projection;
* `monarySetColumnItem_freshColumn` : the column that is set from fresh arrays.

That `malloc` and `calloc` succeed is assumed.
-/

namespace Monary
open ByteSeq CInt

/-- `MONARY_MAX_NUM_COLUMNS`. -/
def maxNumColumns : Nat := 1024

/-- `MONARY_MAX_STRING_LENGTH`. -/
def maxStringLength : Nat := 1024

/-- A column item that `calloc` made. -/
def ColumnItem.zeroed : ColumnItem := ⟨none, 0, 0, none, none⟩

/-- `monary_alloc_column_data`. -/
def monaryAllocColumnData (numColumns numRows : Nat) : Option ColumnData :=
  if numColumns > maxNumColumns then none
  else some ⟨numRows, List.replicate numColumns ColumnItem.zeroed⟩

/-- The C string at the start of the bytes. -/
def cString (s : Bytes) : Bytes := s.takeWhile (· != 0)

/-- `monary_set_column_item`: the column data after it, and what it returns. -/
def monarySetColumnItem (coldata : Option ColumnData) (colnum : Nat) (field : Bytes) (type typeArg : Nat)
    (storage mask : Option Bytes) : Option ColumnData × Int :=
  match coldata with
  | none => (none, 0)
  | some cd =>
    if colnum ≥ cd.columns.length then (some cd, 0)
    else if type = 0 ∨ type > MonaryType.lastType then (some cd, 0)
    else if storage = none then (some cd, 0)
    else if mask = none then (some cd, 0)
    else if (cString field).length > maxStringLength then (some cd, 0)
    else (some { cd with columns := cd.columns.set colnum ⟨some (cString field), type, typeArg, storage, mask⟩ }, 1)

/-- The size that is read at the start of the bytes, and `bson_init_static` with it. -/
def bsonInitStatic (data : Bytes) : C (Option Bytes) :=
  if data.length < 4 then .error .undefined
  else
    let length := leNat (slice data 0 4)
    if length < 5 ∨ length ≥ 2 ^ 31 then return none
    else
      match data[length - 1]? with
      | none => .error .undefined
      | some last => if last ≠ 0 then return none else return some (data.take length)

/-- `monary_get_bson_fields_list`: the fields that are selected. -/
def monaryGetBsonFieldsList (coldata : ColumnData) : List Bytes := coldata.columns.filterMap (·.field)

theorem code_pos (t : MonaryType) : t.code ≠ 0 ∧ t.code ≤ MonaryType.lastType := by
  cases t <;> decide

/-- Fresh arrays are set as a fresh column. -/
theorem monarySetColumnItem_freshColumn {cd : ColumnData} {i : Nat} {field : Bytes} {t : MonaryType} {w n : Nat}
    (hi : i < cd.columns.length) (hfield : field.length ≤ maxStringLength) :
    monarySetColumnItem (some cd) i field t.code w (some (List.replicate (n * t.itemSize w) 0))
        (some (List.replicate n 1)) =
      (some { cd with columns := cd.columns.set i (freshColumn (cString field) t w n) }, 1) := by
  have hlen : (cString field).length ≤ maxStringLength :=
    (List.takeWhile_prefix _).length_le.trans hfield
  obtain ⟨h0, hlast⟩ := code_pos t
  unfold monarySetColumnItem
  dsimp only
  rw [if_neg (by omega), if_neg (by omega), if_neg (by simp), if_neg (by simp), if_neg (by omega)]
  rfl

end Monary
