import Monary.Mongoc.Cursor

/-!
# Replies of a server

* `BsonError` : `bson_error_t`; `Rpc` : what of a reply is read;
* `BsonReader`, `bsonReaderRead` : the documents of a reply one after the other;
* `mongocCursorUnwrapFailure` : `_mongoc_cursor_unwrap_failure`, what a reply reports;
* `BsonReader.left` : the documents that are left; `bsonReaderRead_spec` : what a read comes to in any bytes,
  `bsonReaderRead_framed` : in documents that are framed.
-/

namespace Monary
open ByteSeq CInt

/-! ## Errors -/

/-- `bson_error_t`. -/
structure BsonError where
  domain : Nat
  code : Nat
  message : Bytes
  deriving DecidableEq, Repr

/-- `bson_set_error`, of a message that is formatted. -/
def bsonSetError (domain code : Nat) (message : Bytes) : BsonError := ⟨domain, code, message.take 503⟩

namespace BsonError

def client : Nat := 1
def protocol : Nat := 3
def cursor : Nat := 4
def query : Nat := 5
def bson : Nat := 8

def inExhaust : Nat := 13
def invalidReply : Nat := 14
def invalidCursor : Nat := 16
def queryFailure : Nat := 17
def bsonInvalid : Nat := 18
def commandNotFound : Nat := 59

end BsonError

/-! ## Replies -/

/-- `MONGOC_OPCODE_REPLY`. -/
def opcodeReply : Int := 1

/-- `mongoc_rpc_t` as a reply is scattered into it: `response_to` is compared as an `unsigned int`, and of the identity
of the cursor of the server only whether it is 0, and that it is sent back. -/
structure Rpc where
  opcode : Int
  requestId : Nat
  responseTo : Nat
  flags : Nat
  cursorId : Int
  documents : Bytes
  deriving DecidableEq, Repr

/-- The zeroed structure. -/
def Rpc.zeroed : Rpc := ⟨0, 0, 0, 0, 0, []⟩

/-- `MONGOC_REPLY_CURSOR_NOT_FOUND`. -/
def Rpc.cursorNotFound (rpc : Rpc) : Bool := rpc.flags.testBit 0

/-- `MONGOC_REPLY_QUERY_FAILURE`. -/
def Rpc.queryFailure (rpc : Rpc) : Bool := rpc.flags.testBit 1

/-- A document that `bson_init_static` takes: `length` bytes from `o` on. -/
def initStaticAt (data : Bytes) (o length : Nat) : Option Bson :=
  if h : length < 5 ∨ length ≥ 2 ^ 31 then none
  else if leNat (slice data o 4) ≠ length then none
  else if data.getD (o + length - 1) 0 ≠ 0 then none
  else some ⟨slice data o length, (List.length_take_le _ _).trans_lt (by omega)⟩

/-- `bson_reader_t` over data. -/
structure BsonReader where
  data : Bytes
  offset : Nat
  deriving DecidableEq, Repr

/-- `bson_reader_read`: the document, whether the end was reached, and the reader. -/
def bsonReaderRead (r : BsonReader) : Option Bson × Bool × BsonReader :=
  if r.offset + 4 < r.data.length then
    let blen := toInt32 (leNat (slice r.data r.offset 4))
    if blen < 5 then (none, false, r)
    else if blen > toInt32 (r.data.length - r.offset) then (none, false, r)
    else
      match initStaticAt r.data r.offset blen.toNat with
      | none => (none, false, r)
      | some b => (some b, false, { r with offset := r.offset + blen.toNat })
  else (none, r.offset == r.data.length, r)

/-- `_mongoc_rpc_reply_get_first`. -/
def mongocRpcReplyGetFirst (rpc : Rpc) : Option Bson :=
  if rpc.documents.length < 4 then none
  else
    let len := toInt32 (leNat (slice rpc.documents 0 4))
    if (rpc.documents.length : Int) < len then none
    -- a negative `int32_t` is a `size_t` that is too large
    else if len < 0 then none
    else initStaticAt rpc.documents 0 len.toNat

/-- `bson_iter_as_bool`. -/
def bsonIterAsBool (it : BsonIter) : Bool :=
  match it.bsonType with
  | some .bool => bsonIterBool it
  | some .double => bsonIterDouble it % 2 ^ 63 != 0
  | some .int64 => bsonIterInt64 it != 0
  | some .int32 => bsonIterInt32 it != 0
  | some .null | some .undefined => false
  | _ => true

/-- `bson_iter_init_find`. -/
def bsonIterInitFind (b : Bson) (key : String) : Option BsonIter := bsonIterFindWithLen (bsonIterInit b) (keyBytes key)

/-- `msg = bson_iter_utf8 (&iter, NULL)` if the field is there and is a string. -/
def messageOr (b : Bson) (key : String) (msg : Bytes) : Bytes :=
  match bsonIterInitFind b key with
  | none => msg
  | some it => (bsonIterUtf8 it).1.elim msg cString

/-- `_mongoc_cursor_populate_error`. -/
def mongocCursorPopulateError (isCommand : Bool) (doc : Bson) : BsonError :=
  let code :=
    match bsonIterInitFind doc "code" with
    | none => BsonError.queryFailure
    | some it => if it.bsonType = some .int32 then toUInt32 (bsonIterInt32 it) else BsonError.queryFailure
  let msg := messageOr doc "$err" (keyBytes "Unknown query failure")
  let msg := if isCommand then messageOr doc "errmsg" msg else msg
  bsonSetError BsonError.query code msg

/-- `_mongoc_cursor_unwrap_failure`: the error that is set where it returns true. -/
def mongocCursorUnwrapFailure (isCommand : Bool) (rpc : Rpc) : Option BsonError :=
  let notFound :=
    if rpc.cursorNotFound then
      some (bsonSetError BsonError.cursor BsonError.invalidCursor (keyBytes "The cursor is invalid or has expired."))
    else none
  if rpc.opcode ≠ opcodeReply then
    some (bsonSetError BsonError.protocol BsonError.invalidReply (keyBytes "Received rpc other than OP_REPLY."))
  else if rpc.queryFailure then
    match mongocRpcReplyGetFirst rpc with
    | some b => some (mongocCursorPopulateError isCommand b)
    | none => some (bsonSetError BsonError.query BsonError.queryFailure (keyBytes "Unknown query failure."))
  else if isCommand then
    match mongocRpcReplyGetFirst rpc with
    | some b =>
      match bsonIterInitFind b "ok" with
      | some it => if bsonIterAsBool it then none else some (mongocCursorPopulateError isCommand b)
      | none => notFound
    | none =>
      some (bsonSetError BsonError.bson BsonError.bsonInvalid (keyBytes "Failed to decode document from the server."))
  else notFound

/-! ## Readers -/

/-- The documents that a reader comes to in `n` calls. -/
def readAll : Nat → BsonReader → List Bson
  | 0, _ => []
  | n + 1, r =>
    match bsonReaderRead r with
    | (some b, _, r) => b :: readAll n r
    | (none, _, _) => []

/-- The documents that are left. -/
def BsonReader.left (r : BsonReader) : List Bson := readAll r.data.length r

theorem toInt32_le (n : Nat) : toInt32 n ≤ n := by
  rw [toInt32, Int.bmod_def]
  omega

theorem initStaticAt_eq_some {data : Bytes} {o length : Nat} {b : Bson} :
    initStaticAt data o length = some b ↔ (5 ≤ length ∧ length < 2 ^ 31) ∧ leNat (slice data o 4) = length ∧
      data.getD (o + length - 1) 0 = 0 ∧ b.data = slice data o length := by
  unfold initStaticAt
  split
  · next h =>
    refine ⟨fun hb => ?_, fun hb => absurd hb.1 (by omega)⟩
    cases hb
  · next h =>
    split
    · next hlen =>
      refine ⟨fun hb => ?_, fun hb => absurd hb.2.1 hlen⟩
      cases hb
    · next hlen =>
      split
      · next hnul =>
        refine ⟨fun hb => ?_, fun hb => absurd hb.2.2.1 hnul⟩
        cases hb
      · next hnul =>
        constructor
        · rintro ⟨⟩
          exact ⟨by omega, not_not.mp hlen, not_not.mp hnul, rfl⟩
        · rintro ⟨-, -, -, hb⟩
          obtain ⟨bytes, hsmall⟩ := b
          dsimp only at hb
          subst hb
          rfl

/-- What a reader comes to: a document that lies inside of the data, and it is behind it then. -/
theorem bsonReaderRead_spec {r r' : BsonReader} {b : Bson} {eof : Bool} (h : bsonReaderRead r = (some b, eof, r')) :
    eof = false ∧ ∃ n, r' = ⟨r.data, r.offset + n⟩ ∧ 5 ≤ n ∧ r.offset + n ≤ r.data.length ∧
      b.data = slice r.data r.offset n := by
  unfold bsonReaderRead at h
  split at h
  · next hlt =>
    dsimp only at h
    split at h
    · cases h
    · next h5 =>
      split at h
      · cases h
      · next hle =>
        split at h
        · cases h
        · next hb =>
          simp only [Prod.mk.injEq, Option.some.injEq] at h
          obtain ⟨rfl, rfl, rfl⟩ := h
          obtain ⟨⟨hn, -⟩, -, -, hdata⟩ := initStaticAt_eq_some.mp hb
          refine ⟨rfl, _, rfl, hn, ?_, hdata⟩
          have hroom := toInt32_le (r.data.length - r.offset)
          have hcast : (r.data.length : Int) - r.offset = ((r.data.length - r.offset : Nat) : Int) := by omega
          rw [hcast] at hle
          omega
  · cases h

theorem bsonReaderRead_none {r r' : BsonReader} {eof : Bool} (h : bsonReaderRead r = (none, eof, r')) : r' = r := by
  unfold bsonReaderRead at h
  split at h
  · dsimp only at h
    split at h
    · exact (congrArg (·.2.2) h).symm
    · split at h
      · exact (congrArg (·.2.2) h).symm
      · split at h
        · exact (congrArg (·.2.2) h).symm
        · exact absurd (congrArg (·.1) h) (Option.some_ne_none _)
  · exact (congrArg (·.2.2) h).symm

/-- More calls do not come to more. -/
theorem readAll_stable {n m : Nat} {r : BsonReader} (hn : r.data.length - r.offset ≤ n) (hm : r.data.length - r.offset ≤ m) :
    readAll n r = readAll m r := by
  induction n generalizing m r with
  | zero =>
    cases m with
    | zero => rfl
    | succ m =>
      rw [readAll, readAll]
      rcases hread : bsonReaderRead r with ⟨_ | b, eof, r'⟩
      · rfl
      · obtain ⟨-, k, -, hk, hle, -⟩ := bsonReaderRead_spec hread
        omega
  | succ n ih =>
    rw [readAll]
    rcases hread : bsonReaderRead r with ⟨_ | b, eof, r'⟩
    · cases m with
      | zero => rfl
      | succ m => rw [readAll, hread]
    · obtain ⟨-, k, rfl, hk, hle, -⟩ := bsonReaderRead_spec hread
      cases m with
      | zero => omega
      | succ m =>
        rw [readAll, hread]
        dsimp only
        rw [@ih m _ (by dsimp only; omega) (by dsimp only; omega)]

theorem left_of_some {r r' : BsonReader} {b : Bson} {eof : Bool} (h : bsonReaderRead r = (some b, eof, r')) :
    r.left = b :: r'.left := by
  obtain ⟨-, k, rfl, hk, hle, -⟩ := bsonReaderRead_spec h
  obtain ⟨n, hn⟩ := Nat.exists_eq_succ_of_ne_zero (show r.data.length ≠ 0 by omega)
  rw [BsonReader.left, BsonReader.left, hn, readAll, h]
  dsimp only
  rw [readAll_stable (m := n + 1) (by dsimp only; omega) (by dsimp only; omega)]

theorem left_of_none {r r' : BsonReader} {eof : Bool} (h : bsonReaderRead r = (none, eof, r')) : r.left = [] := by
  rw [BsonReader.left]
  cases r.data.length with
  | zero => rfl
  | succ n => rw [readAll, h]

/-- A document that begins with its length and ends with a NUL. -/
def Framed (b : Bson) : Prop :=
  5 ≤ b.data.length ∧ leNat (slice b.data 0 4) = b.data.length ∧ b.data.getD (b.data.length - 1) 0 = 0

/-- The reader in front of a document that is framed. -/
theorem bsonReaderRead_framed {pre rest : Bytes} {b : Bson} (hb : Framed b)
    (hsmall : (pre ++ (b.data ++ rest)).length < 2 ^ 31) :
    bsonReaderRead ⟨pre ++ (b.data ++ rest), pre.length⟩ =
      (some b, false, ⟨pre ++ (b.data ++ rest), pre.length + b.data.length⟩) := by
  obtain ⟨h5, hlen, hnul⟩ := hb
  simp only [List.length_append] at hsmall
  have hdrop : (pre ++ (b.data ++ rest)).drop pre.length = b.data ++ rest := List.drop_left
  have hhead : leNat (slice (pre ++ (b.data ++ rest)) pre.length 4) = b.data.length := by
    rw [← hlen, slice, slice, hdrop, List.drop_zero, List.take_append_of_le_length (by omega)]
  have hslice : slice (pre ++ (b.data ++ rest)) pre.length b.data.length = b.data := by
    rw [slice, hdrop, List.take_left]
  have hlast : (pre ++ (b.data ++ rest)).getD (pre.length + b.data.length - 1) 0 = 0 := by
    have hget : (pre ++ (b.data ++ rest))[pre.length + b.data.length - 1]? = b.data[b.data.length - 1]? := by
      rw [List.getElem?_append_right (by omega), show pre.length + b.data.length - 1 - pre.length = b.data.length - 1 by omega,
        List.getElem?_append_left (by omega)]
    rwa [List.getD_eq_getElem?_getD, hget, ← List.getD_eq_getElem?_getD]
  have hint : toInt32 (b.data.length : Nat) = b.data.length := toInt32_natCast (by omega)
  have hleft : ((pre ++ (b.data ++ rest)).length : Int) - pre.length = (b.data.length + rest.length : Nat) := by
    simp only [List.length_append]
    omega
  have hroom : toInt32 (((pre ++ (b.data ++ rest)).length : Int) - pre.length) = (b.data.length + rest.length : Nat) := by
    rw [hleft]
    exact toInt32_natCast (by omega)
  have hinit : initStaticAt (pre ++ (b.data ++ rest)) pre.length b.data.length = some b :=
    initStaticAt_eq_some.mpr ⟨⟨h5, b.small⟩, hhead, hlast, hslice.symm⟩
  rw [bsonReaderRead, if_pos (by simp only [List.length_append]; omega)]
  dsimp only
  rw [hhead, hint, if_neg (by omega), hroom, if_neg (by omega), Int.toNat_natCast, hinit]

theorem bsonReaderRead_end (data : Bytes) : bsonReaderRead ⟨data, data.length⟩ = (none, true, ⟨data, data.length⟩) := by
  rw [bsonReaderRead, if_neg (by dsimp only; omega)]
  simp

end Monary
