import Monary.Mongoc.Reply

/-!
# The cursor of the driver

* `Connection` : what the network does, as a function of the requests that were sent over it;
* `CursorState` : `mongoc_cursor_t`; `Driver` : a cursor and what it uses of its client;
* `mongocCursorQuery`, `mongocCursorGetMore` : the two exchanges with the server;
* `cursorNext` : `_mongoc_cursor_next`; `driverNext` : `mongoc_cursor_next`;
* `driverDestroy` : `_mongoc_cursor_destroy`.

Functions that return `bool` through `RETURN` give the state behind it; the read preferences are the connection's.
-/

namespace Monary
open ByteSeq CInt

/-- The requests that a cursor sends. -/
inductive Request where
  | query (flags skip : Nat) (nReturn : Int) (query : Bytes) (fields : Option Bytes)
  | getMore (nReturn cursorId : Int)
  | killCursors (cursorId : Int)
  deriving DecidableEq, Repr

/-- `_mongoc_client_warm_up`, the part of `_mongoc_client_sendv` behind the request number, and
`_mongoc_client_recv`. A node is not 0; a message that is not received may leave any values behind. -/
structure Connection where
  warmUp : List Request → Option BsonError
  sendv : List Request → Request → Nat → Except BsonError Nat
  recv : List Request → Except (BsonError × Rpc) Rpc

/-- What a cursor uses of `mongoc_client_t`, and the requests that were sent. -/
structure Client where
  inExhaust : Bool
  requestId : Nat
  log : List Request

/-- `mongoc_cursor_t`. -/
structure CursorState where
  hint : Nat
  isCommand : Bool
  sent : Bool
  done : Bool
  failed : Bool
  endOfEvent : Bool
  inExhaust : Bool
  hasFields : Bool
  query : Bytes
  fields : Bytes
  flags : Nat
  skip : Nat
  limit : Nat
  count : Nat
  batchSize : Nat
  error : BsonError
  rpc : Rpc
  reader : Option BsonReader

namespace CursorState

/-- `MONGOC_QUERY_TAILABLE_CURSOR`. -/
def tailable (c : CursorState) : Bool := c.flags.testBit 1

/-- `MONGOC_QUERY_EXHAUST`. -/
def exhaust (c : CursorState) : Bool := c.flags.testBit 6

/-- A cursor that `_mongoc_cursor_new` made of a query it takes. -/
def new (isCommand : Bool) (flags skip limit batchSize : Nat) (query : Bytes) (fields : Option Bytes) : CursorState :=
  ⟨0, isCommand, false, false, false, false, false, fields.isSome, query, fields.getD [5, 0, 0, 0, 0], flags, skip, limit,
    0, batchSize, ⟨0, 0, []⟩, Rpc.zeroed, none⟩

end CursorState

structure Driver where
  client : Client
  cursor : CursorState

def Driver.setError (d : Driver) (error : BsonError) : Driver := { d with cursor := { d.cursor with error } }

/-- The label `failure`. -/
def Driver.fail (d : Driver) (error : BsonError) : Driver :=
  { d with cursor := { d.cursor with error, failed := true, done := true } }

/-- `_mongoc_n_return`. -/
def mongocNReturn (c : CursorState) : Int :=
  if c.isCommand then 1
  else if c.limit ≠ 0 then min (toInt32 c.batchSize) (toInt32 (toUInt32 ((c.limit : Int) - c.count)))
  else toInt32 c.batchSize

/-- What is asked for, in both exchanges. -/
def nReturn (c : CursorState) : Int := if c.tailable then 0 else mongocNReturn c

section
variable (net : Connection)

/-- `_mongoc_client_sendv` with one request: the node. -/
def clientSendv (k : Client) (r : Request) : Except BsonError Nat × Client :=
  if k.inExhaust then
    (.error (bsonSetError BsonError.client BsonError.inExhaust
      (keyBytes "A cursor derived from this client is in exhaust.")), k)
  else
    let k := { k with requestId := (k.requestId + 1) % 2 ^ 32 }
    match net.sendv k.log r k.requestId with
    | .error e => (.error e, k)
    | .ok hint => (.ok hint, { k with log := k.log ++ [r] })

/-- The part of both exchanges from `_mongoc_client_recv` on to the checks of the reply: the error, if there is
one. -/
def receiveReply (d : Driver) (requestId : Nat) : Option BsonError × Driver :=
  match net.recv d.client.log with
  | .error (e, rpc) => (some e, { d with cursor := { d.cursor with rpc } })
  | .ok rpc =>
    let d := { d with cursor := { d.cursor with rpc } }
    if rpc.opcode ≠ opcodeReply then
      (some (bsonSetError BsonError.protocol BsonError.invalidReply
        (keyBytes s!"Invalid opcode. Expected {opcodeReply}, got {rpc.opcode}.")), d)
    else if rpc.responseTo ≠ requestId then
      (some (bsonSetError BsonError.protocol BsonError.invalidReply
        (keyBytes s!"Invalid response_to. Expected {toInt32 requestId}, got {toInt32 rpc.responseTo}.")), d)
    else (mongocCursorUnwrapFailure d.cursor.isCommand rpc, d)

/-- The reader of the documents of the reply. -/
def Driver.read (d : Driver) : Driver :=
  { d with cursor := { d.cursor with reader := some ⟨d.cursor.rpc.documents, 0⟩, endOfEvent := false } }

/-- `_mongoc_cursor_query`. -/
def mongocCursorQuery (d : Driver) : Bool × Driver :=
  match net.warmUp d.client.log with
  | some e => (false, { d with cursor := { d.cursor with error := e, failed := true } })
  | none =>
    let c := d.cursor
    let request := Request.query c.flags c.skip (nReturn c) c.query (if c.hasFields then some c.fields else none)
    match clientSendv net d.client request with
    | (.error e, client) => (false, Driver.fail { d with client } e)
    | (.ok hint, client) =>
      match receiveReply net ⟨client, { c with hint }⟩ client.requestId with
      | (some e, d) => (false, d.fail e)
      | (none, d) =>
        let d := d.read
        let exhaust := d.cursor.exhaust
        (true, { client := { d.client with inExhaust := d.client.inExhaust || exhaust },
                 cursor := { d.cursor with inExhaust := d.cursor.inExhaust || exhaust, done := false, sent := true } })

/-- `_mongoc_cursor_get_more`. -/
def mongocCursorGetMore (d : Driver) : Bool × Driver :=
  let receive (d : Driver) (requestId : Nat) : Bool × Driver :=
    match receiveReply net d requestId with
    | (some e, d) => (false, d.fail e)
    | (none, d) => (true, d.read)
  if d.cursor.inExhaust then receive d d.cursor.rpc.requestId
  else
    match net.warmUp d.client.log with
    | some e => (false, { d with cursor := { d.cursor with error := e, failed := true } })
    | none =>
      if d.cursor.rpc.cursorId = 0 then
        (false, d.fail (bsonSetError BsonError.cursor BsonError.invalidCursor
          (keyBytes "No valid cursor was provided.")))
      else
        match clientSendv net d.client (.getMore (nReturn d.cursor) d.cursor.rpc.cursorId) with
        | (.error e, client) => (false, Driver.fail { d with client } e)
        | (.ok _, client) => receive { d with client } client.requestId

/-- `bson_reader_read` of the reader of the cursor, which leaves `eof` as it is where there is none. -/
def Driver.readNext (d : Driver) : Option Bson × Driver :=
  match d.cursor.reader with
  | none => (none, { d with cursor := { d.cursor with endOfEvent := false } })
  | some r =>
    let (b, eof, r) := bsonReaderRead r
    (b, { d with cursor := { d.cursor with reader := some r, endOfEvent := eof } })

/-- The label `complete`. -/
def Driver.complete (d : Driver) (b : Option Bson) (eof : Bool) : Option Bson × Driver :=
  let c := d.cursor
  let d := { d with cursor := { c with
    done := c.endOfEvent && (c.inExhaust && c.rpc.cursorId == 0 || b.isNone && !c.tailable) } }
  if b.isNone && !eof then
    (none, { d with cursor := { d.cursor with
      failed := true
      error := bsonSetError BsonError.cursor BsonError.invalidReply (keyBytes "The reply was corrupt.") } })
  else (b, d)

/-- Whether the server is asked for more, and how. -/
def Driver.fetch (d : Driver) : Bool × Driver :=
  if !d.cursor.sent then mongocCursorQuery net d
  else if d.cursor.endOfEvent && d.cursor.rpc.cursorId != 0 then mongocCursorGetMore net d
  else (true, d)

/-- `_mongoc_cursor_next` from where there is no further document in the reader. -/
def Driver.fetchNext (d : Driver) : Option Bson × Driver :=
  match d.fetch net with
  | (false, d) => (none, d)
  | (true, d) =>
    let (b, d) := d.readNext
    d.complete b d.cursor.endOfEvent

/-- `_mongoc_cursor_next`. -/
def cursorNext (d : Driver) : Option Bson × Driver :=
  if d.cursor.done || d.cursor.failed then
    (none, d.setError (bsonSetError BsonError.cursor BsonError.invalidCursor
      (keyBytes "Cannot advance a completed or failed cursor.")))
  else if d.client.inExhaust && !d.cursor.inExhaust then
    (none, { d with cursor := { d.cursor with
      error := bsonSetError BsonError.client BsonError.inExhaust
        (keyBytes "Another cursor derived from this client is in exhaust.")
      failed := true } })
  else if d.cursor.limit ≠ 0 ∧ d.cursor.limit ≤ d.cursor.count then
    (none, { d with cursor := { d.cursor with done := true } })
  else if d.cursor.reader.isSome then
    let (b, d) := d.readNext
    if b.isSome then d.complete b false else d.fetchNext net
  else d.fetchNext net

/-- `mongoc_cursor_next`, of a cursor without an interface of its own. -/
def driverNext (d : Driver) : Option Bson × Driver :=
  if d.cursor.failed then (none, d)
  else
    let (b, d) := cursorNext net d
    (b, { d with cursor := { d.cursor with count := (d.cursor.count + 1) % 2 ^ 32 } })

/-- `mongoc_cursor_error`: the error where it returns true. -/
def driverError (d : Driver) : Option BsonError :=
  if d.cursor.failed then
    let error := bsonSetError d.cursor.error.domain d.cursor.error.code d.cursor.error.message
    some (if d.cursor.isCommand ∧ (error.code = 17 ∨ error.code = 13390) then
      { error with code := BsonError.commandNotFound } else error)
  else none

/-- `_mongoc_cursor_destroy`, what it does of the cursor that the server has: in exhaust mode the node is
disconnected. -/
def driverDestroy (d : Driver) : Client :=
  if d.cursor.inExhaust then { d.client with inExhaust := false }
  else if d.cursor.rpc.cursorId ≠ 0 then (clientSendv net d.client (.killCursors d.cursor.rpc.cursorId)).2
  else d.client

end

end Monary
