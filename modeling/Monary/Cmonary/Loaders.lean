import Monary.Cmonary.Columns
import Monary.Bson.Utf8

/-!
# The loaders

Each loader of `cmonary.c` takes the iterator at an element, the column and the row, and gives back the
storage after the load where the source returns 1, and `none` where it returns 0; no loader writes and
then returns 0. `monaryLoadItem` is the dispatch on the column's type.

A floating-point value outside the range of an integer type converts to a value C leaves open, and so
does the payload of a NaN that is narrowed: `CImpl` is what the platform does there, and no result
depends on it.
-/

namespace Monary
open ByteSeq CInt Ieee754

/-- An integer type of C: its bytes and whether it is signed. -/
structure IntType where
  width : Nat
  signed : Bool
  deriving DecidableEq, Repr

namespace IntType

def min (t : IntType) : Int := if t.signed then -2 ^ (8 * t.width - 1) else 0

def max (t : IntType) : Int :=
  if t.signed then 2 ^ (8 * t.width - 1) - 1 else 2 ^ (8 * t.width) - 1

def int8 : IntType := ⟨1, true⟩
def int16 : IntType := ⟨2, true⟩
def int32 : IntType := ⟨4, true⟩
def int64 : IntType := ⟨8, true⟩
def uint8 : IntType := ⟨1, false⟩
def uint16 : IntType := ⟨2, false⟩
def uint32 : IntType := ⟨4, false⟩
def uint64 : IntType := ⟨8, false⟩

/-- The bytes of `(NUMTYPE) n`: the value modulo a power of two, in two's complement. -/
def ofInt (t : IntType) (n : Int) : Bytes := leBytes t.width (n % 256 ^ t.width).toNat

end IntType

/-- What the platform does where C leaves a conversion open. -/
class CImpl where
  /-- A double outside the range of an integer type. -/
  doubleToInt : IntType → Nat → Int
  /-- A NaN narrowed to `float`. -/
  nanToFloat : Nat → Nat

/-- `cvttsd2si` to `w` bits: the value truncated, or the integer indefinite value where it does not fit. -/
def cvttsd2si (w : Nat) : Option Int → Int
  | some n => if -2 ^ (w - 1) ≤ n ∧ n < 2 ^ (w - 1) then n else -2 ^ (w - 1)
  | none => -2 ^ (w - 1)

/-- The conversions as gcc compiles them for x86-64. The types up to `int32_t` go through a register of 32 bits and the
others through one of 64, the upper half of `uint64_t` by a subtraction before and an addition behind; a NaN that is
narrowed is quiet and keeps the upper bits of its payload. -/
@[reducible] def CImpl.x86 : CImpl where
  doubleToInt t bits :=
    let d := binary64.decode bits
    if t.width ≤ 2 ∨ t = .int32 then cvttsd2si 32 d.trunc
    else if t = .uint64 ∧ (d = .inf false ∨ ∃ n ∈ d.trunc, 2 ^ 63 ≤ n) then
      cvttsd2si 64 (d.trunc.map (· - 2 ^ 63)) + 2 ^ 63
    else cvttsd2si 64 d.trunc
  nanToFloat bits := 0x7FC00000 + bits / 2 ^ 29 % 2 ^ 22 + bits / 2 ^ 63 % 2 * 2 ^ 31

/-- `(NUMTYPE) d` for a double `d`, given by its bits. -/
def IntType.ofDouble [CImpl] (t : IntType) (bits : Nat) : Bytes :=
  match (binary64.decode bits).trunc with
  | some n => if t.min ≤ n ∧ n ≤ t.max then t.ofInt n else t.ofInt (CImpl.doubleToInt t bits)
  | none => t.ofInt (CImpl.doubleToInt t bits)

-- 300.0 to `int8_t`, -1.0 and 2^64 to `uint64_t`
example : @IntType.ofDouble CImpl.x86 .int8 0x4072C00000000000 = [44] := by decide
example : @IntType.ofDouble CImpl.x86 .uint64 0xBFF0000000000000 = List.replicate 8 255 := by decide
example : @IntType.ofDouble CImpl.x86 .uint64 0x43F0000000000000 = List.replicate 8 0 := by decide

inductive FloatType where
  | float
  | double
  deriving DecidableEq, Repr

namespace FloatType

def format : FloatType → Format
  | float => binary32
  | double => binary64

def width : FloatType → Nat
  | float => 4
  | double => 8

def ofInt (t : FloatType) (n : Int) : Bytes := leBytes t.width (t.format.ofInt n)

def ofDouble [CImpl] (t : FloatType) (bits : Nat) : Bytes :=
  match t with
  | double => leBytes 8 bits
  | float =>
    leBytes 4 <|
      match binary64.decode bits with
      | .nan => CImpl.nanToFloat bits
      | .inf neg => (if neg then binary32.signWeight else 0) + binary32.infBits
      | .finite neg m e => binary32.round neg m e

end FloatType

section Loaders
variable [CImpl] (bsonit : BsonIter) (citem : ColumnItem) (idx : Int)

def monaryLoadObjectidValue : C (Option Bytes) :=
  match bsonIterOid bsonit with
  | some oid => do return some (← memcpyTo citem.storage (idx * 12) (oid.take 12))
  | none => return none

/-- `monary_load_bool_value` does not look at the type of the element. -/
def monaryLoadBoolValue : C (Option Bytes) := do
  let value := bsonIterBool bsonit
  return some (← memcpyTo citem.storage idx [if value then 1 else 0])

/-- `MONARY_DEFINE_FLOAT_LOADER`. -/
def monaryDefineFloatLoader (t : FloatType) : C (Option Bytes) :=
  if bsonit.bsonType = some .double then do
    return some (← memcpyTo citem.storage (idx * t.width) (t.ofDouble (bsonIterDouble bsonit)))
  else if bsonit.bsonType = some .int32 then do
    return some (← memcpyTo citem.storage (idx * t.width) (t.ofInt (bsonIterInt32 bsonit)))
  else if bsonit.bsonType = some .int64 then do
    return some (← memcpyTo citem.storage (idx * t.width) (t.ofInt (bsonIterInt64 bsonit)))
  else return none

def monaryLoadFloat32Value : C (Option Bytes) := monaryDefineFloatLoader bsonit citem idx .float
def monaryLoadFloat64Value : C (Option Bytes) := monaryDefineFloatLoader bsonit citem idx .double

/-- `MONARY_DEFINE_INT_LOADER`. -/
def monaryDefineIntLoader (t : IntType) : C (Option Bytes) :=
  if bsonit.bsonType = some .int32 then do
    return some (← memcpyTo citem.storage (idx * t.width) (t.ofInt (bsonIterInt32 bsonit)))
  else if bsonit.bsonType = some .int64 then do
    return some (← memcpyTo citem.storage (idx * t.width) (t.ofInt (bsonIterInt64 bsonit)))
  else if bsonit.bsonType = some .double then do
    return some (← memcpyTo citem.storage (idx * t.width) (t.ofDouble (bsonIterDouble bsonit)))
  else return none

def monaryLoadInt8Value : C (Option Bytes) := monaryDefineIntLoader bsonit citem idx .int8
def monaryLoadInt16Value : C (Option Bytes) := monaryDefineIntLoader bsonit citem idx .int16
def monaryLoadInt32Value : C (Option Bytes) := monaryDefineIntLoader bsonit citem idx .int32
def monaryLoadInt64Value : C (Option Bytes) := monaryDefineIntLoader bsonit citem idx .int64
def monaryLoadUint8Value : C (Option Bytes) := monaryDefineIntLoader bsonit citem idx .uint8
def monaryLoadUint16Value : C (Option Bytes) := monaryDefineIntLoader bsonit citem idx .uint16
def monaryLoadUint32Value : C (Option Bytes) := monaryDefineIntLoader bsonit citem idx .uint32
def monaryLoadUint64Value : C (Option Bytes) := monaryDefineIntLoader bsonit citem idx .uint64

def monaryLoadDatetimeValue : C (Option Bytes) :=
  if bsonit.bsonType = some .dateTime then do
    return some (← memcpyTo citem.storage (idx * 8) (IntType.int64.ofInt (bsonIterDateTime bsonit)))
  else return none

/-- The seconds go to the first four bytes and the increment to the next four. -/
def monaryLoadTimestampValue : C (Option Bytes) :=
  let dest := idx * 8
  if bsonit.bsonType = some .timestamp then do
    let (timestamp, increment) := bsonIterTimestamp bsonit
    let storage ← memcpyTo citem.storage dest (leBytes 4 timestamp)
    return some (← memcpyTo (some storage) (dest + 4) (leBytes 4 increment))
  else return none

/-- A comparison of a `uint32_t` with an `int`, which is converted to unsigned. -/
def clampTo (len : Nat) (size : Int) : Nat := if len > toUInt32 size then toUInt32 size else len

/-- `dest = storage + (idx * size)` and the copy of `len` bytes from `src`. -/
def copyAt (size : Int) (src : Option Bytes) (len : Nat) : C (Option Bytes) :=
  match mulInt32 idx size, src with
  | some off, some p => do return some (← memcpyTo citem.storage off (p.take len))
  | _, _ => .error .undefined

def monaryLoadStringValue : C (Option Bytes) :=
  if bsonit.bsonType = some .utf8 then
    let (src, stringlen) := bsonIterUtf8 bsonit
    let size := toInt32 citem.typeArg
    copyAt citem idx size src (clampTo stringlen size)
  else return none

def monaryLoadBinaryValue : C (Option Bytes) :=
  if bsonit.bsonType = some .binary then
    let (binary, binaryLen) := bsonIterBinary bsonit
    let size := toInt32 citem.typeArg
    copyAt citem idx size binary (clampTo binaryLen size)
  else return none

/-- `monary_load_document_value` scales the row by the length of the value; the product of an `int` and
a `uint32_t` is unsigned. -/
def monaryLoadDocumentValue : C (Option Bytes) :=
  if bsonit.bsonType = some .document then
    match bsonIterDocument bsonit with
    | (some document, documentLen) => do
      let documentLen := if documentLen > citem.typeArg then citem.typeArg else documentLen
      let dest := toUInt32 (idx * documentLen)
      return some (← memcpyTo citem.storage dest (document.take documentLen))
    | (none, _) => .error .undefined
  else return none

def monaryLoadTypeValue : C (Option Bytes) := do
  return some (← memcpyTo citem.storage idx [bsonit.typeByte])

def monaryLoadSizeValue : C (Option Bytes) :=
  let store (size : Nat) : C (Option Bytes) := do
    return some (← memcpyTo citem.storage (idx * 4) (leBytes 4 size))
  match bsonit.bsonType with
  | some .utf8 | some .code => store (bsonIterUtf8 bsonit).2
  | some .binary => store (bsonIterBinary bsonit).2
  | some .document => store (bsonIterDocument bsonit).2
  | some .array => store (bsonIterArray bsonit).2
  | _ => return none

/-- `for (length = 0; *discard; length++) discard = bson_utf8_next_char (discard)`, from the count
`length` on. The first argument bounds the turns; each moves at least one byte on, or none at all and
then forever. -/
def charLoop : Nat → Bytes → Nat → C Nat
  | 0, _, _ => .error .undefined
  | _ + 1, [], _ => .error .undefined
  | n + 1, c :: p, length =>
    if c = 0 then .ok length
    else if utf8Sequence c = 0 then .error .diverges
    else charLoop n (bsonUtf8NextChar (c :: p)) (length + 1)

def monaryLoadLengthValue : C (Option Bytes) :=
  let store (length : Nat) : C (Option Bytes) := do
    return some (← memcpyTo citem.storage (idx * 4) (leBytes 4 length))
  match bsonit.bsonType with
  | some .utf8 | some .code =>
    match (bsonIterUtf8 bsonit).1 with
    | some discard => do store (← charLoop (discard.length + 1) discard 0)
    | none => .error .undefined
  | some .array | some .document =>
    match bsonIterRecurse bsonit with
    | some child => store (bsonIterElements child).length
    | none => return none
  | some .binary => store (bsonIterBinary bsonit).2
  | _ => return none

def monaryLoadItem : C (Option Bytes) :=
  match MonaryType.ofCode citem.type with
  | some .objectid => monaryLoadObjectidValue bsonit citem idx
  | some .date => monaryLoadDatetimeValue bsonit citem idx
  | some .timestamp => monaryLoadTimestampValue bsonit citem idx
  | some .bool => monaryLoadBoolValue bsonit citem idx
  | some .int8 => monaryLoadInt8Value bsonit citem idx
  | some .int16 => monaryLoadInt16Value bsonit citem idx
  | some .int32 => monaryLoadInt32Value bsonit citem idx
  | some .int64 => monaryLoadInt64Value bsonit citem idx
  | some .uint8 => monaryLoadUint8Value bsonit citem idx
  | some .uint16 => monaryLoadUint16Value bsonit citem idx
  | some .uint32 => monaryLoadUint32Value bsonit citem idx
  | some .uint64 => monaryLoadUint64Value bsonit citem idx
  | some .float32 => monaryLoadFloat32Value bsonit citem idx
  | some .float64 => monaryLoadFloat64Value bsonit citem idx
  | some .string => monaryLoadStringValue bsonit citem idx
  | some .binary => monaryLoadBinaryValue bsonit citem idx
  | some .bson => monaryLoadDocumentValue bsonit citem idx
  | some .size => monaryLoadSizeValue bsonit citem idx
  | some .length => monaryLoadLengthValue bsonit citem idx
  | some .type => monaryLoadTypeValue bsonit citem idx
  | none => return none

end Loaders

end Monary
