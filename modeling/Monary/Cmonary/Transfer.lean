import Monary.Cmonary.Loaders

/-!
# What a load does, in one form for all types

Every loader decides whether it takes the element, and copies some bytes to some offset of the storage:

* `payload` : the bytes, `none` where the loader returns 0;
* `destOffset` : the offset, `none` where the product overflows;
* `monaryLoadItem_eq` : `monary_load_item` is exactly that copy;
* `length_payload`, `length_payload_le` : the payload fills a row, or at least fits one.
-/

namespace Monary
open ByteSeq CInt Ieee754

def intPayload [CImpl] (t : IntType) (it : BsonIter) : Option Bytes :=
  match it.bsonType with
  | some .int32 => some (t.ofInt (bsonIterInt32 it))
  | some .int64 => some (t.ofInt (bsonIterInt64 it))
  | some .double => some (t.ofDouble (bsonIterDouble it))
  | _ => none

def floatPayload [CImpl] (t : FloatType) (it : BsonIter) : Option Bytes :=
  match it.bsonType with
  | some .double => some (t.ofDouble (bsonIterDouble it))
  | some .int32 => some (t.ofInt (bsonIterInt32 it))
  | some .int64 => some (t.ofInt (bsonIterInt64 it))
  | _ => none

/-- What a `size` column counts. -/
def sizeValue (it : BsonIter) : Option Nat :=
  match it.bsonType with
  | some .utf8 | some .code => some (bsonIterUtf8 it).2
  | some .binary => some (bsonIterBinary it).2
  | some .document => some (bsonIterDocument it).2
  | some .array => some (bsonIterArray it).2
  | _ => none

/-- What a `length` column counts. -/
def lengthValue (it : BsonIter) : C (Option Nat) :=
  match it.bsonType with
  | some .utf8 | some .code =>
    match (bsonIterUtf8 it).1 with
    | some discard => (charLoop (discard.length + 1) discard 0).map some
    | none => .error .undefined
  | some .array | some .document => .ok ((bsonIterRecurse it).map fun child => (bsonIterElements child).length)
  | some .binary => .ok (some (bsonIterBinary it).2)
  | _ => .ok none

/-- The bytes of a sized element: of a string without its NUL, of a binary without the inner length of
the deprecated subtype, of a document all of them. -/
def sizedValue (t : MonaryType) (it : BsonIter) : Option Bytes :=
  let take (data : Option Bytes × Nat) : Option Bytes := data.1.map (·.take data.2)
  match t with
  | .string => take (bsonIterUtf8 it)
  | .binary => take (bsonIterBinary it)
  | .bson => take (bsonIterDocument it)
  | _ => none

/-- The bytes a load copies. -/
def payload [CImpl] (t : MonaryType) (typeArg : Nat) (it : BsonIter) : C (Option Bytes) :=
  match t with
  | .objectid => return (bsonIterOid it).map (·.take 12)
  | .bool => return some [if bsonIterBool it then 1 else 0]
  | .int8 => return intPayload .int8 it
  | .int16 => return intPayload .int16 it
  | .int32 => return intPayload .int32 it
  | .int64 => return intPayload .int64 it
  | .uint8 => return intPayload .uint8 it
  | .uint16 => return intPayload .uint16 it
  | .uint32 => return intPayload .uint32 it
  | .uint64 => return intPayload .uint64 it
  | .float32 => return floatPayload .float it
  | .float64 => return floatPayload .double it
  | .date =>
    return if it.bsonType = some .dateTime then some (IntType.int64.ofInt (bsonIterDateTime it)) else none
  | .timestamp =>
    return if it.bsonType = some .timestamp then
      some (leBytes 4 (bsonIterTimestamp it).1 ++ leBytes 4 (bsonIterTimestamp it).2) else none
  | .string | .binary | .bson => return (sizedValue t it).map (·.take typeArg)
  | .type => return some [it.typeByte]
  | .size => return (sizeValue it).map (leBytes 4)
  | .length => (lengthValue it).map (·.map (leBytes 4))

/-- Where a load of `len` bytes into row `idx` puts them. -/
def destOffset (t : MonaryType) (typeArg : Nat) (idx : Int) (len : Nat) : Option Int :=
  match t with
  | .string | .binary => mulInt32 idx (toInt32 typeArg)
  | .bson => some (toUInt32 (idx * len))
  | t => some (idx * t.itemSize typeArg)

/-! ## `monary_load_item` is the copy -/

/-- The copy of `src` to the place of row `idx`. -/
def transfer (t : MonaryType) (c : ColumnItem) (idx : Int) : Option Bytes → C (Option Bytes)
  | none => .ok none
  | some src =>
    match destOffset t c.typeArg idx src.length with
    | none => .error .undefined
    | some off => (memcpyTo c.storage off src).map some

theorem transfer_some {t : MonaryType} {c : ColumnItem} {idx off : Int} {src : Bytes}
    (h : destOffset t c.typeArg idx src.length = some off) :
    transfer t c idx (some src) = (memcpyTo c.storage off src).map some := by
  rw [transfer, h]

theorem transfer_none {t : MonaryType} {c : ColumnItem} {idx : Int} {src : Bytes}
    (h : destOffset t c.typeArg idx src.length = none) : transfer t c idx (some src) = .error .undefined := by
  rw [transfer, h]

/-- A copy, as the loaders write it. -/
theorem copy_eq_transfer {t : MonaryType} {c : ColumnItem} {idx off : Int} {src : Bytes}
    (h : destOffset t c.typeArg idx src.length = some off) :
    (do return some (← memcpyTo c.storage off src) : C (Option Bytes)) = transfer t c idx (some src) := by
  rw [return_memcpyTo, transfer_some h]

theorem monaryDefineIntLoader_eq [CImpl] (it : BsonIter) (c : ColumnItem) (idx : Int) {t : MonaryType} {n : IntType}
    (h : ∀ len, destOffset t c.typeArg idx len = some (idx * n.width)) :
    monaryDefineIntLoader it c idx n = transfer t c idx (intPayload n it) := by
  unfold monaryDefineIntLoader intPayload
  split
  · next ht => rw [ht]; exact copy_eq_transfer (h _)
  · split
    · next ht => rw [ht]; exact copy_eq_transfer (h _)
    · split
      · next ht => rw [ht]; exact copy_eq_transfer (h _)
      · next h1 h2 h3 =>
        split
        · next ht => exact absurd ht h1
        · next ht => exact absurd ht h2
        · next ht => exact absurd ht h3
        · rfl

theorem monaryDefineFloatLoader_eq [CImpl] (it : BsonIter) (c : ColumnItem) (idx : Int) {t : MonaryType}
    {n : FloatType} (h : ∀ len, destOffset t c.typeArg idx len = some (idx * n.width)) :
    monaryDefineFloatLoader it c idx n = transfer t c idx (floatPayload n it) := by
  unfold monaryDefineFloatLoader floatPayload
  split
  · next ht => rw [ht]; exact copy_eq_transfer (h _)
  · split
    · next ht => rw [ht]; exact copy_eq_transfer (h _)
    · split
      · next ht => rw [ht]; exact copy_eq_transfer (h _)
      · next h1 h2 h3 =>
        split
        · next ht => exact absurd ht h1
        · next ht => exact absurd ht h2
        · next ht => exact absurd ht h3
        · rfl

theorem clampTo_toInt32 {len w : Nat} (h : w < 2 ^ 32) : clampTo len (toInt32 w) = min len w := by
  unfold clampTo
  rw [toUInt32_toInt32, toUInt32_of_lt h]
  split <;> omega

/-- The two loaders of sized values that scale the row by the width. -/
theorem copyAt_eq {t : MonaryType} {c : ColumnItem} {idx : Int} {p : Bytes} {len : Nat}
    (hw : c.typeArg < 2 ^ 32)
    (h : ∀ len, destOffset t c.typeArg idx len = mulInt32 idx (toInt32 c.typeArg)) :
    copyAt c idx (toInt32 c.typeArg) (some p) (clampTo len (toInt32 c.typeArg)) =
      transfer t c idx (some ((p.take len).take c.typeArg)) := by
  unfold copyAt transfer
  dsimp only
  rw [h, clampTo_toInt32 hw, List.take_take, Nat.min_comm]
  cases mulInt32 idx (toInt32 c.typeArg) with
  | none => rfl
  | some off => exact return_memcpyTo _ _ _

theorem monaryLoadObjectidValue_eq (it : BsonIter) (c : ColumnItem) (idx : Int) :
    monaryLoadObjectidValue it c idx = transfer .objectid c idx ((bsonIterOid it).map (·.take 12)) := by
  unfold monaryLoadObjectidValue
  cases bsonIterOid it with
  | none => rfl
  | some oid => exact copy_eq_transfer rfl

theorem monaryLoadDatetimeValue_eq (it : BsonIter) (c : ColumnItem) (idx : Int) :
    monaryLoadDatetimeValue it c idx = transfer .date c idx
      (if it.bsonType = some .dateTime then some (IntType.int64.ofInt (bsonIterDateTime it)) else none) := by
  unfold monaryLoadDatetimeValue
  by_cases h : it.bsonType = some .dateTime
  · rw [if_pos h, if_pos h]
    exact copy_eq_transfer rfl
  · rw [if_neg h, if_neg h]
    rfl

/-- A load of one byte into row `idx`. -/
theorem byte_eq_transfer {t : MonaryType} (c : ColumnItem) (idx : Int) (b : UInt8)
    (h : destOffset t c.typeArg idx 1 = some (idx * (1 : Nat))) :
    (do return some (← memcpyTo c.storage idx [b]) : C (Option Bytes)) = transfer t c idx (some [b]) :=
  copy_eq_transfer (by rw [List.length_singleton, h, Nat.cast_one, mul_one])

theorem monaryLoadTimestampValue_eq (it : BsonIter) (c : ColumnItem) (idx : Int) :
    monaryLoadTimestampValue it c idx = transfer .timestamp c idx (if it.bsonType = some .timestamp then
      some (leBytes 4 (bsonIterTimestamp it).1 ++ leBytes 4 (bsonIterTimestamp it).2) else none) := by
  unfold monaryLoadTimestampValue
  dsimp only
  split
  · have h := memcpyTo_memcpyTo c.storage (idx * 8) (leBytes 4 (bsonIterTimestamp it).1)
      (leBytes 4 (bsonIterTimestamp it).2)
    rw [length_leBytes] at h
    exact h
  · rfl

theorem monaryLoadStringValue_eq {it : BsonIter} (hit : it.Accepted) (hs : it.len < 2 ^ 31)
    {c : ColumnItem} (hw : c.typeArg < 2 ^ 32) (idx : Int) :
    monaryLoadStringValue it c idx =
      transfer .string c idx ((sizedValue .string it).map (·.take c.typeArg)) := by
  unfold monaryLoadStringValue sizedValue
  split
  · next ht =>
    obtain ⟨hu, -⟩ := hit.utf8 hs ht
    rw [hu]
    exact copyAt_eq hw fun _ => rfl
  · next ht =>
    rw [bsonIterUtf8, if_neg ht]
    rfl

theorem monaryLoadBinaryValue_eq {it : BsonIter} (hit : it.Accepted) {c : ColumnItem}
    (hw : c.typeArg < 2 ^ 32) (idx : Int) :
    monaryLoadBinaryValue it c idx =
      transfer .binary c idx ((sizedValue .binary it).map (·.take c.typeArg)) := by
  unfold monaryLoadBinaryValue sizedValue
  split
  · next ht =>
    obtain ⟨p, hp, -⟩ := hit.binaryData ht
    rw [show bsonIterBinary it = (some p, (bsonIterBinary it).2) from Prod.ext hp rfl]
    exact copyAt_eq hw fun _ => rfl
  · next ht =>
    rw [bsonIterBinary, if_neg ht]
    rfl

theorem monaryLoadDocumentValue_eq {it : BsonIter} (hit : it.Accepted) (c : ColumnItem) (idx : Int) :
    monaryLoadDocumentValue it c idx =
      transfer .bson c idx ((sizedValue .bson it).map (·.take c.typeArg)) := by
  unfold monaryLoadDocumentValue sizedValue
  split
  · next ht =>
    have hl := (hit.documentData (by simp [ht])).1
    rw [bsonIterDocument, if_pos ht]
    have hmin : (if it.uint32At it.d1 > c.typeArg then c.typeArg else it.uint32At it.d1) =
        min c.typeArg (it.uint32At it.d1) := by split <;> omega
    have hlen : ((it.ptr it.d1).take (min c.typeArg (it.uint32At it.d1))).length =
        min c.typeArg (it.uint32At it.d1) := by
      rw [List.length_take]
      omega
    dsimp only [Option.map_some]
    rw [hmin, List.take_take]
    refine copy_eq_transfer ?_
    rw [hlen]
    rfl
  · next ht =>
    rw [bsonIterDocument, if_neg ht]
    rfl

theorem monaryLoadSizeValue_eq (it : BsonIter) (c : ColumnItem) (idx : Int) :
    monaryLoadSizeValue it c idx = transfer .size c idx ((sizeValue it).map (leBytes 4)) := by
  unfold monaryLoadSizeValue sizeValue
  generalize it.bsonType = ty
  rcases ty with _ | ty
  · rfl
  · cases ty <;> rfl

theorem monaryLoadLengthValue_eq (it : BsonIter) (c : ColumnItem) (idx : Int) :
    monaryLoadLengthValue it c idx =
      (lengthValue it).map (·.map (leBytes 4)) >>= transfer .length c idx := by
  unfold monaryLoadLengthValue lengthValue
  generalize it.bsonType = ty
  rcases ty with _ | ty
  · rfl
  · cases ty
    case utf8 | code =>
      rcases (bsonIterUtf8 it).1 with _ | p
      · rfl
      · dsimp only
        rcases charLoop (p.length + 1) p 0 with f | n <;> rfl
    case array | document => rcases bsonIterRecurse it with _ | child <;> rfl
    all_goals rfl

/-- What `monary_load_item` does: it gets the payload of the element and copies it. -/
theorem monaryLoadItem_eq [CImpl] (e : Element) {c : ColumnItem} {t : MonaryType}
    (ht : MonaryType.ofCode c.type = some t) (hw : c.typeArg < 2 ^ 32) (idx : Int) :
    monaryLoadItem e.iter c idx = payload t c.typeArg e.iter >>= transfer t c idx := by
  have hint {t : MonaryType} {n : IntType} := monaryDefineIntLoader_eq e.iter c idx (t := t) (n := n)
  unfold monaryLoadItem
  rw [ht]
  cases t
  case objectid => exact monaryLoadObjectidValue_eq _ c idx
  case timestamp => exact monaryLoadTimestampValue_eq _ c idx
  case date => exact monaryLoadDatetimeValue_eq _ c idx
  case string => exact monaryLoadStringValue_eq e.accepted e.small hw idx
  case binary => exact monaryLoadBinaryValue_eq e.accepted hw idx
  case bson => exact monaryLoadDocumentValue_eq e.accepted c idx
  case size => exact monaryLoadSizeValue_eq _ c idx
  case length => exact monaryLoadLengthValue_eq _ c idx
  case bool => exact byte_eq_transfer (t := .bool) c idx _ rfl
  case type => exact byte_eq_transfer (t := .type) c idx _ rfl
  case float32 => exact monaryDefineFloatLoader_eq _ c idx (t := .float32) (n := .float) fun _ => rfl
  case float64 => exact monaryDefineFloatLoader_eq _ c idx (t := .float64) (n := .double) fun _ => rfl
  case int8 => exact hint (t := .int8) (n := .int8) fun _ => rfl
  case int16 => exact hint (t := .int16) (n := .int16) fun _ => rfl
  case int32 => exact hint (t := .int32) (n := .int32) fun _ => rfl
  case int64 => exact hint (t := .int64) (n := .int64) fun _ => rfl
  case uint8 => exact hint (t := .uint8) (n := .uint8) fun _ => rfl
  case uint16 => exact hint (t := .uint16) (n := .uint16) fun _ => rfl
  case uint32 => exact hint (t := .uint32) (n := .uint32) fun _ => rfl
  case uint64 => exact hint (t := .uint64) (n := .uint64) fun _ => rfl

/-! ## The bytes that are copied -/

@[simp] theorem IntType.length_ofInt (t : IntType) (n : Int) : (t.ofInt n).length = t.width :=
  length_leBytes _ _

@[simp] theorem IntType.length_ofDouble [CImpl] (t : IntType) (bits : Nat) :
    (t.ofDouble bits).length = t.width := by
  unfold IntType.ofDouble
  split
  · split <;> exact t.length_ofInt _
  · exact t.length_ofInt _

@[simp] theorem FloatType.length_ofInt (t : FloatType) (n : Int) : (t.ofInt n).length = t.width :=
  length_leBytes _ _

@[simp] theorem FloatType.length_ofDouble [CImpl] (t : FloatType) (bits : Nat) :
    (t.ofDouble bits).length = t.width := by
  cases t <;> exact length_leBytes _ _

theorem length_intPayload [CImpl] {t : IntType} {it : BsonIter} {src : Bytes}
    (h : intPayload t it = some src) : src.length = t.width := by
  unfold intPayload at h
  split at h <;> cases h <;> simp

theorem length_floatPayload [CImpl] {t : FloatType} {it : BsonIter} {src : Bytes}
    (h : floatPayload t it = some src) : src.length = t.width := by
  unfold floatPayload at h
  split at h <;> cases h <;> simp

theorem payload_of_sized [CImpl] {t : MonaryType} (h : t.sized = true) (w : Nat) (it : BsonIter) :
    payload t w it = .ok ((sizedValue t it).map (·.take w)) := by
  cases t <;> first | rfl | cases h

theorem sizedValue_of_not_sized {t : MonaryType} (h : t.sized = false) (it : BsonIter) :
    sizedValue t it = none := by
  cases t <;> first | rfl | cases h

/-- The payload of a type without a width fills its row. -/
theorem length_payload [CImpl] {e : Element} {t : MonaryType} {w : Nat} {src : Bytes}
    (hs : t.sized = false) (h : payload t w e.iter = .ok (some src)) : src.length = t.itemSize w := by
  have hok {p : Option Bytes} (h : (return p : C (Option Bytes)) = .ok (some src)) : p = some src :=
    Except.ok.inj h
  cases t
  case string | binary | bson => cases hs
  case objectid =>
    have h := hok h
    rw [Option.map_eq_some_iff] at h
    obtain ⟨oid, ho, rfl⟩ := h
    rw [bsonIterOid, Option.ite_none_right_eq_some] at ho
    obtain ⟨ht, ho⟩ := ho
    cases ho
    have h1 := e.accepted.oid ht
    have h2 := e.accepted.next_lt
    have h3 : e.iter.len ≤ e.iter.raw.length := e.accepted.fits
    rw [BsonIter.ptr, List.length_take, List.length_drop]
    show min 12 _ = 12
    omega
  case bool | type => cases hok h; rfl
  case date | timestamp =>
    have h := hok h
    rw [Option.ite_none_right_eq_some] at h
    cases h.2
    simp [MonaryType.itemSize, IntType.int64]
  case float32 | float64 => exact length_floatPayload (hok h)
  case size =>
    obtain ⟨n, -, rfl⟩ := Option.map_eq_some_iff.mp (hok h)
    exact length_leBytes _ _
  case length =>
    simp only [payload] at h
    rcases hl : lengthValue e.iter with f | n <;> rw [hl] at h
    · cases h
    · obtain ⟨n, -, rfl⟩ := Option.map_eq_some_iff.mp (Except.ok.inj h)
      exact length_leBytes _ _
  all_goals exact length_intPayload (hok h)

/-- No payload is longer than a row. -/
theorem length_payload_le [CImpl] {e : Element} {t : MonaryType} {w : Nat} {src : Bytes}
    (h : payload t w e.iter = .ok (some src)) : src.length ≤ t.itemSize w := by
  by_cases hs : t.sized = true
  · rw [payload_of_sized hs] at h
    obtain ⟨v, -, rfl⟩ := Option.map_eq_some_iff.mp (Except.ok.inj h)
    rw [MonaryType.itemSize_of_sized hs, List.length_take]
    exact Nat.min_le_left _ _
  · exact le_of_eq (length_payload (by simpa using hs) h)

end Monary
