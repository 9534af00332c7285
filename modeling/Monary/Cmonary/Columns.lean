import Monary.Bson.Find
import Monary.Lib.Ieee754

/-!
# Column data

`monary_column_item` and `monary_column_data`, with the storage and the mask of a column as the byte
arrays their pointers lead to (`none` is `NULL`), and what a C function can come to besides returning:
`Fault.undefined` for undefined behaviour (a write outside an array, a `NULL` dereference, a signed
overflow) and `Fault.diverges` for a loop that never ends.

* `MonaryType` : the type codes, `MonaryType.itemSize` the bytes a row of each type takes;
* `memcpyTo` : a write into an array;
* `freshColumn` : a column before any load;
* `ColumnItem.Holds` : a column whose arrays hold a given number of rows, and the views of a row,
  `ColumnItem.cell` and `ColumnItem.masked`.

The machine is little-endian.
-/

namespace Monary
open ByteSeq CInt Ieee754

inductive Fault where
  | undefined
  | diverges
  deriving DecidableEq, Repr

/-- A C computation. -/
abbrev C := Except Fault

theorem bind_eq_ok {ε α β : Type} {x : Except ε α} {f : α → Except ε β} {r : β} (h : x >>= f = .ok r) :
    ∃ a, x = .ok a ∧ f a = .ok r := by
  rcases x with e | a
  · cases h
  · exact ⟨a, rfl, h⟩

/-! ## Types -/

/-- The type codes of `cmonary.c`. -/
inductive MonaryType where
  | objectid | bool | int8 | int16 | int32 | int64 | uint8 | uint16 | uint32 | uint64
  | float32 | float64 | date | timestamp | string | binary | bson | type | size | length
  deriving DecidableEq, Repr

namespace MonaryType

def code : MonaryType → Nat
  | objectid => 1 | bool => 2 | int8 => 3 | int16 => 4 | int32 => 5 | int64 => 6 | uint8 => 7
  | uint16 => 8 | uint32 => 9 | uint64 => 10 | float32 => 11 | float64 => 12 | date => 13
  | timestamp => 14 | string => 15 | binary => 16 | bson => 17 | type => 18 | size => 19
  | length => 20

/-- `LAST_TYPE`. -/
def lastType : Nat := 20

def all : List MonaryType :=
  [objectid, bool, int8, int16, int32, int64, uint8, uint16, uint32, uint64, float32, float64, date,
    timestamp, string, binary, bson, type, size, length]

/-- The type of a code; `TYPE_UNDEFINED` and the codes above `LAST_TYPE` have none. -/
def ofCode (n : Nat) : Option MonaryType := all.find? (fun t => t.code == n)

theorem ofCode_code (t : MonaryType) : ofCode t.code = some t := by cases t <;> decide

/-- The types whose width is the `type_arg` of the column. -/
def sized : MonaryType → Bool
  | string | binary | bson => true
  | _ => false

/-- The bytes of one row: the numpy item size of the column's array. -/
def itemSize (t : MonaryType) (typeArg : Nat) : Nat :=
  match t with
  | objectid => 12
  | bool | int8 | uint8 | type => 1
  | int16 | uint16 => 2
  | int32 | uint32 | float32 | size | length => 4
  | int64 | uint64 | float64 | date | timestamp => 8
  | string | binary | bson => typeArg

theorem itemSize_of_sized {t : MonaryType} (h : t.sized = true) (typeArg : Nat) :
    t.itemSize typeArg = typeArg := by
  cases t <;> first | rfl | cases h

end MonaryType

/-! ## Columns -/

structure ColumnItem where
  field : Option Bytes
  type : Nat
  typeArg : Nat
  storage : Option Bytes
  mask : Option Bytes
  deriving DecidableEq, Repr

/-- `monary_column_data`; `num_columns` is the length of `columns`. -/
structure ColumnData where
  numRows : Nat
  columns : List ColumnItem
  deriving DecidableEq, Repr

/-- A write of `src` at `dst + off`. -/
def memcpyTo (dst : Option Bytes) (off : Int) (src : Bytes) : C Bytes :=
  match dst with
  | none => .error .undefined
  | some d =>
    if 0 ≤ off ∧ off + src.length ≤ d.length then .ok (patch d off.toNat src)
    else .error .undefined

theorem memcpyTo_ok {d src : Bytes} {off : Nat} (h : off + src.length ≤ d.length) :
    memcpyTo (some d) off src = .ok (patch d off src) := by
  rw [memcpyTo, if_pos ⟨by omega, by omega⟩]
  rfl

theorem memcpyTo_eq_ok {d src d' : Bytes} {off : Int} (h : memcpyTo (some d) off src = .ok d') :
    0 ≤ off ∧ off.toNat + src.length ≤ d.length ∧ d' = patch d off.toNat src := by
  rw [memcpyTo] at h
  split at h
  · next hb =>
    cases h
    exact ⟨hb.1, by omega, rfl⟩
  · cases h

theorem return_memcpyTo (d : Option Bytes) (off : Int) (src : Bytes) :
    (do return some (← memcpyTo d off src) : C (Option Bytes)) = (memcpyTo d off src).map some := by
  cases memcpyTo d off src <;> rfl

/-- Two copies side by side are one. -/
theorem memcpyTo_memcpyTo (d : Option Bytes) (off : Int) (a b : Bytes) :
    (do return some (← memcpyTo (some (← memcpyTo d off a)) (off + a.length) b) : C (Option Bytes)) =
      (memcpyTo d off (a ++ b)).map some := by
  cases d with
  | none => rfl
  | some d =>
    by_cases h1 : 0 ≤ off ∧ off + a.length ≤ d.length
    · have hl : (patch d off.toNat a).length = d.length := length_patch (by omega)
      have ha : memcpyTo (some d) off a = .ok (patch d off.toNat a) := by rw [memcpyTo, if_pos h1]
      rw [ha]
      change (do return some (← memcpyTo (some (patch d off.toNat a)) (off + a.length) b) :
        C (Option Bytes)) = _
      rw [return_memcpyTo, memcpyTo, memcpyTo, hl, List.length_append]
      by_cases h2 : off + a.length + b.length ≤ d.length
      · rw [if_pos ⟨by omega, h2⟩, if_pos ⟨h1.1, by push_cast; omega⟩,
          show (off + (a.length : Int)).toNat = off.toNat + a.length by omega,
          patch_patch_append (by omega)]
      · rw [if_neg (fun h => h2 h.2), if_neg (fun h => h2 (by have := h.2; push_cast at this; omega))]
    · rw [memcpyTo, if_neg h1, memcpyTo, if_neg (fun h => h1 ⟨h.1, by
        have := h.2; rw [List.length_append] at this; push_cast at this; omega⟩)]
      rfl

/-- A column as `_make_column_data` sets it up: a type and a width that fits `unsigned int`, a name,
and a storage and a mask for `numRows` rows. -/
structure ColumnItem.Holds (c : ColumnItem) (t : MonaryType) (numRows : Nat) : Prop where
  type_eq : MonaryType.ofCode c.type = some t
  width_lt : c.typeArg < 2 ^ 32
  width_pos : t.sized = true → 0 < c.typeArg
  field_ne : c.field ≠ none
  storage_eq : ∃ s, c.storage = some s ∧ s.length = numRows * t.itemSize c.typeArg
  mask_eq : ∃ m, c.mask = some m ∧ m.length = numRows

namespace ColumnItem

def itemSize (c : ColumnItem) : Nat :=
  match MonaryType.ofCode c.type with
  | some t => t.itemSize c.typeArg
  | none => 0

/-- The bytes of row `i`. -/
def cell (c : ColumnItem) (i : Nat) : Bytes := slice (c.storage.getD []) (i * c.itemSize) c.itemSize

/-- Whether numpy shows row `i` as masked. -/
def masked (c : ColumnItem) (i : Nat) : Bool := (c.mask.getD []).getD i 1 != 0

/-- What a reader of the masked array sees in row `i`. -/
def view (c : ColumnItem) (i : Nat) : Option Bytes := if c.masked i then none else some (c.cell i)

theorem Holds.itemSize_eq {c : ColumnItem} {t : MonaryType} {n : Nat} (h : c.Holds t n) :
    c.itemSize = t.itemSize c.typeArg := by
  rw [itemSize, h.type_eq]

end ColumnItem

theorem MonaryType.itemSize_pos {t : MonaryType} {w : Nat} (h : t.sized = true → 0 < w) :
    0 < t.itemSize w := by
  cases t <;> first | exact h rfl | (rw [itemSize]; decide)

/-- A column of `n` rows as `_make_column_data` makes it: zeroed storage, every row masked. -/
def freshColumn (field : Bytes) (t : MonaryType) (typeArg n : Nat) : ColumnItem where
  field := some field
  type := t.code
  typeArg := typeArg
  storage := some (List.replicate (n * t.itemSize typeArg) 0)
  mask := some (List.replicate n 1)

theorem freshColumn_holds {t : MonaryType} {typeArg : Nat} (field : Bytes) (n : Nat)
    (hw : typeArg < 2 ^ 32) (hpos : t.sized = true → 0 < typeArg) :
    (freshColumn field t typeArg n).Holds t n :=
  ⟨MonaryType.ofCode_code t, hw, hpos, Option.some_ne_none field, ⟨_, rfl, List.length_replicate⟩,
    ⟨_, rfl, List.length_replicate⟩⟩

end Monary
