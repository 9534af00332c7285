import Monary.Bson.Layout
import Monary.Lib.CInt

/-!
# Writing BSON

`bson_t` as it is written: a buffer, inside the structure or allocated, in which a document and the
subdocuments that are begun in it are laid out one inside the other.

* `BsonWriter` : the buffer and the documents that are open in it; `bsonInit`, `bsonSizedNew`;
* `bsonGrow` : `_bson_grow`, `junk` being what new memory holds; `bsonAppendPairs` : `_bson_append`;
* `bsonAppendBsonBegin`, `bsonAppendBsonEnd` : subdocuments and arrays;
* `BsonArg`, `bsonAppendArg` : the functions `bson_append_int32`, `bson_append_utf8` and so on.
-/

namespace Monary
open ByteSeq CInt

/-- `BSON_MAX_SIZE`, which is `INT32_MAX`. -/
def bsonMaxSize : Nat := 2 ^ 31 - 1

/-- `v |= v >> n`, for one `n` after the other. -/
def smear (ns : List Nat) (v : Nat) : Nat := ns.foldl (fun v n => v ||| v >>> n) v

/-- `bson_next_power_of_two`, of a positive `size_t`. -/
def bsonNextPowerOfTwo (v : Nat) : Nat := smear [1, 2, 4, 8, 16, 32] (v - 1) + 1

/-- A document that is open in the buffer. -/
structure BsonOpen where
  offset : Nat
  len : Nat
  deriving DecidableEq, Repr

/-- `doc` is what is written to; `parents` are the documents that it was begun in, the nearest first. `inl` is
`BSON_FLAG_INLINE`. -/
structure BsonWriter where
  buf : Bytes
  inl : Bool
  doc : BsonOpen
  parents : List BsonOpen
  deriving DecidableEq, Repr

/-- The builds compile `BSON_ASSERT` and the checks of the arguments out. -/
inductive WriteFault where
  /-- A write outside of the buffer. -/
  | outside
  /-- What `BSON_ASSERT` says does not happen, does. What becomes of it is left open. -/
  | unchecked
  /-- `strlen (NULL)`. -/
  | null
  deriving DecidableEq, Repr

/-- `memcpy (buf + o, src, n)`. -/
def writeAt (buf : Bytes) (o : Nat) (src : Bytes) : Except WriteFault Bytes :=
  if o + src.length ≤ buf.length then .ok (patch buf o src) else .error .outside

section
variable (junk : Nat → UInt8)

/-- A larger block that starts with `bs`. -/
def enlarge (bs : Bytes) (n : Nat) : Bytes := bs ++ (List.range' bs.length (n - bs.length)).map junk

def bsonInit : BsonWriter := ⟨enlarge junk [5, 0, 0, 0, 0] 120, true, ⟨0, 5⟩, []⟩

/-- `bson_sized_new`, of a size up to `INT32_MAX`. -/
def bsonSizedNew (size : Nat) : BsonWriter :=
  if size ≤ 120 then bsonInit junk
  else ⟨enlarge junk [5, 0, 0, 0, 0] (max 5 size), false, ⟨0, 5⟩, []⟩

/-- `_bson_impl_inline_grow`. -/
def bsonImplInlineGrow (w : BsonWriter) (size : Nat) : Bool × BsonWriter :=
  if w.doc.len + size ≤ 120 then (true, w)
  else
    let req := bsonNextPowerOfTwo (w.doc.len + size)
    if req ≤ bsonMaxSize then (true, { w with buf := enlarge junk (w.buf.take w.doc.len) req, inl := false })
    else (false, w)

/-- `_bson_impl_alloc_grow`: the buffer also has room for the ends of the parents. -/
def bsonImplAllocGrow (w : BsonWriter) (size : Nat) : Bool × BsonWriter :=
  let req := w.doc.offset + w.doc.len + size + w.parents.length
  if req ≤ w.buf.length then (true, w)
  else
    let req := bsonNextPowerOfTwo req
    if req ≤ bsonMaxSize then (true, { w with buf := enlarge junk w.buf req })
    else (false, w)

def bsonGrow (w : BsonWriter) (size : Nat) : Bool × BsonWriter :=
  if w.inl then bsonImplInlineGrow junk w size else bsonImplAllocGrow junk w size

/-- The loop of `_bson_append_va`; where it ends in the buffer. -/
def copyPairs (buf : Bytes) (o : Nat) : List Bytes → Except WriteFault (Bytes × Nat)
  | [] => .ok (buf, o)
  | data :: pairs => do
    let buf ← writeAt buf o data
    copyPairs buf (o + data.length) pairs

/-- `_bson_append_va`. -/
def bsonAppendVa (w : BsonWriter) (nBytes : Nat) (pairs : List Bytes) : Except WriteFault (Bool × BsonWriter) := do
  let r := bsonGrow junk w nBytes
  if r.1 then
    let w := r.2
    let o := w.doc.offset + w.doc.len - 1
    let (buf, last) ← copyPairs w.buf o pairs
    let len := w.doc.len + (last - o)
    -- `_bson_encode_length`
    let buf ← writeAt buf w.doc.offset (leBytes 4 len)
    let buf ← writeAt buf last [0]
    return (true, { w with buf, doc := { w.doc with len } })
  else return (false, r.2)

/-- `_bson_append`; `n_bytes` is a `uint32_t`. -/
def bsonAppendPairs (w : BsonWriter) (nBytes : Nat) (first : Bytes) (rest : List Bytes) :
    Except WriteFault (Bool × BsonWriter) :=
  if first.isEmpty then .error .unchecked
  else if nBytes % 2 ^ 32 > bsonMaxSize - w.doc.len then .ok (false, w)
  else bsonAppendVa junk w (nBytes % 2 ^ 32) (first :: rest)

/-- The writer of a subdocument: a document inside the structure is moved out of it first. -/
def bsonMoveOut (w : BsonWriter) : Bool × BsonWriter :=
  if w.inl then bsonGrow junk w (128 - w.doc.len) else (true, w)

/-- `_bson_append_bson_begin`. -/
def bsonAppendBsonBegin (w : BsonWriter) (key : Bytes) (type : BsonType) : Except WriteFault (Bool × BsonWriter) :=
  if type ≠ .document ∧ type ≠ .array then .error .unchecked
  else if w.inl = true ∧ 120 < w.doc.len then .error .unchecked
  else
    let r := bsonMoveOut junk w
    if r.1 = false then .ok (false, r.2)
    else if r.2.inl then .error .unchecked
    else do
      let a ← bsonAppendPairs junk r.2 (1 + key.length + 1 + 5) [type.toByte] [key, [0], [5, 0, 0, 0, 0]]
      if a.1 then
        .ok (true, { a.2 with doc := ⟨a.2.doc.offset + a.2.doc.len - 1 - 5, 5⟩, parents := a.2.doc :: a.2.parents })
      else .ok (false, a.2)

/-- `_bson_append_bson_end`. Of a child that was not begun nothing is known, its length neither. -/
def bsonAppendBsonEnd (w : BsonWriter) : Except WriteFault (Bool × BsonWriter) :=
  match w.parents with
  | [] => .error .unchecked
  | parent :: parents => do
    let len := parent.len + w.doc.len - 5
    let buf ← writeAt w.buf (parent.offset + len - 1) [0]
    let buf ← writeAt buf parent.offset (leBytes 4 len)
    return (true, { w with buf, doc := ⟨parent.offset, len⟩, parents })

/-- A document that is passed to a function: what `_bson_data` and `len` give of it. -/
abbrev BsonData := Bytes

def bsonEmpty (data : BsonData) : Bool := data.length == 5 || data.getD 4 0 == 0

/-- The values of the functions that append. `javascript`, `pattern`, `options` and `collection` are C
strings. -/
inductive BsonArg where
  | array (data : BsonData)
  | binary (subtype : UInt8) (data : Bytes)
  | bool (b : Bool)
  | code (javascript : Bytes)
  | codeWithScope (javascript : Bytes) (scope : Option BsonData)
  | dbpointer (collection oid : Bytes)
  | document (data : BsonData)
  | double (bits : Nat)
  | int32 (v : Int)
  | int64 (v : Int)
  | maxkey
  | minkey
  | null
  | oid (oid : Bytes)
  | regex (pattern options : Bytes)
  | utf8 (value : Option Bytes)
  | symbol (value : Option Bytes)
  | timestamp (seconds increment : Nat)
  | dateTime (v : Int)
  | undefined

/-- The type byte, the number of bytes that is asked for beside those of the key, and what is copied for the
value. -/
def BsonArg.pairs : BsonArg → BsonType × Nat × List Bytes
  | .array data => (.array, data.length, [data])
  | .binary subtype data =>
    if subtype = binaryDeprecated then
      (.binary, 4 + 1 + 4 + data.length,
        [leBytes 4 (data.length + 4), [subtype], leBytes 4 data.length, data])
    else (.binary, 4 + 1 + data.length, [leBytes 4 data.length, [subtype], data])
  | .bool b => (.bool, 1, [[if b then 1 else 0]])
  | .code js => (.code, 4 + (js.length + 1), [leBytes 4 (js.length + 1), js ++ [0]])
  | .codeWithScope js scope =>
    match scope.filter fun data => !bsonEmpty data with
    -- `bson_append_code`
    | none => (.code, 4 + (js.length + 1), [leBytes 4 (js.length + 1), js ++ [0]])
    | some data =>
      (.codewscope, 4 + 4 + (js.length + 1) + data.length,
        [leBytes 4 (4 + 4 + (js.length + 1) + data.length), leBytes 4 (js.length + 1), js ++ [0], data])
  | .dbpointer collection id =>
    (.dbpointer, 4 + (collection.length + 1) + 12, [leBytes 4 (collection.length + 1), collection ++ [0], id])
  | .document data => (.document, data.length, [data])
  | .double bits => (.double, 8, [leBytes 8 bits])
  | .int32 v => (.int32, 4, [leBytes 4 (toUInt32 v)])
  | .int64 v => (.int64, 8, [leBytes 8 (v % 2 ^ 64).toNat])
  | .maxkey => (.maxkey, 0, [])
  | .minkey => (.minkey, 0, [])
  | .null => (.null, 0, [])
  | .oid id => (.oid, 12, [id])
  | .regex pattern options =>
    (.regex, (pattern.length + 1) + (options.length + 1), [pattern ++ [0], options ++ [0]])
  | .utf8 none => (.null, 0, [])
  | .utf8 (some value) => (.utf8, 4 + value.length + 1, [leBytes 4 (value.length + 1), value, [0]])
  | .symbol none => (.null, 0, [])
  | .symbol (some value) => (.symbol, 4 + value.length + 1, [leBytes 4 (value.length + 1), value, [0]])
  | .timestamp seconds increment => (.timestamp, 8, [leBytes 8 (seconds <<< 32 ||| increment)])
  | .dateTime v => (.dateTime, 8, [leBytes 8 (v % 2 ^ 64).toNat])
  | .undefined => (.undefined, 0, [])

/-- `bson_append_int32`, `bson_append_utf8` and so on: the type, the key, a NUL, and what is copied for the
value. -/
def bsonAppendArg (w : BsonWriter) (key : Bytes) (arg : BsonArg) : Except WriteFault (Bool × BsonWriter) :=
  bsonAppendPairs junk w (1 + key.length + 1 + arg.pairs.2.1) [arg.pairs.1.toByte] (key :: [0] :: arg.pairs.2.2)

end

/-- `bson_get_data`, and `len` bytes of it. -/
def bsonGetData (w : BsonWriter) : Bytes := slice w.buf w.doc.offset w.doc.len

end Monary
