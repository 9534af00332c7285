import Monary.Cmonary.Loaders
import Monary.Mongoc.Served

/-!
# Cursors of an aggregation

* `CursorId` : `mongoc_cursor_cursorid_t`; `AggregateCursor` : the cursor of `mongoc_collection_aggregate`, which reads
  the first batch out of the reply to the command;
* `cursoridNext` : `_mongoc_cursor_cursorid_next`; `aggregateNext` : `mongoc_cursor_next` of such a cursor;
* `ServesAggregate` : a server that answers the command with a first batch and further requests with further ones;
* `aggregateNext_served` : the calls give the documents of the first batch and of the further ones up to the first
  further one that is empty.
-/

namespace Monary
open ByteSeq CInt

/-- `bson_iter_as_int64`. -/
def bsonIterAsInt64 [CImpl] (it : BsonIter) : Int :=
  match it.bsonType with
  | some .bool => if bsonIterBool it then 1 else 0
  | some .double => toInt64 (leNat (IntType.int64.ofDouble (bsonIterDouble it)))
  | some .int64 => bsonIterInt64 it
  | some .int32 => bsonIterInt32 it
  | _ => 0

/-- `mongoc_cursor_cursorid_t`. -/
structure CursorId where
  hasCursor : Bool
  inFirstBatch : Bool
  firstBatchIter : Option BsonIter
  deriving DecidableEq

/-- `_mongoc_cursor_cursorid_new`. -/
def CursorId.new : CursorId := ⟨false, false, none⟩

structure AggregateCursor where
  driver : Driver
  cid : CursorId

/-- The document at an element of the first batch, if `bson_init_static` takes it. -/
def batchDocument (e : BsonIter) : Option Bson :=
  if e.bsonType = some .document then initStaticAt ((bsonIterDocument e).1.getD []) 0 (bsonIterDocument e).2 else none

/-- `while (bson_iter_next (&cid->first_batch_iter))`, to the document that is returned, and the iterator there. -/
def firstBatchNext (it : BsonIter) : Option (Bson × BsonIter) :=
  (bsonIterElements it).findSome? fun e => (batchDocument e).map (·, e)

/-- What the loop over the `cursor` document of the reply does at an element; the namespace is not kept. Where `ns` is no
string `bson_iter_utf8` gives `NULL`, from which `bson_strncpy` copies: see `CursorReply`. -/
def cursorField [CImpl] (s : Int × CursorId) (e : BsonIter) : Int × CursorId :=
  if bsonIterKey e = keyBytes "id" then (bsonIterAsInt64 e, s.2)
  else if bsonIterKey e = keyBytes "ns" then s
  else if bsonIterKey e = keyBytes "firstBatch" ∧ e.bsonType = some .array then
    (bsonIterRecurse e).elim s fun child => (s.1, { s.2 with inFirstBatch := true, firstBatchIter := some child })
  else s

/-- The document under `cursor`. -/
def cursorDocument (b : Bson) : Option BsonIter :=
  (bsonIterInitFind b "cursor").bind fun it => if it.bsonType = some .document then bsonIterRecurse it else none

section
variable (net : Connection)

/-- `_mongoc_cursor_next`, of the cursor in it. -/
def AggregateCursor.advance (c : AggregateCursor) : Option Bson × AggregateCursor :=
  let r := cursorNext net c.driver
  (r.1, { c with driver := r.2 })

/-- From the label `process_first_batch` on, where `has_cursor` is set. -/
def AggregateCursor.processFirstBatch (c : AggregateCursor) : Option Bson × AggregateCursor :=
  match c.cid.firstBatchIter.bind firstBatchNext with
  | some (b, it) => (some b, { c with cid := { c.cid with firstBatchIter := some it } })
  | none =>
    let d := { c.driver with cursor := { c.driver.cursor with endOfEvent := true } }
    let cid := { c.cid with inFirstBatch := false }
    if d.cursor.rpc.cursorId = 0 then (none, ⟨{ d with cursor := { d.cursor with done := true } }, cid⟩)
    else AggregateCursor.advance net ⟨d, cid⟩

/-- `_mongoc_cursor_cursorid_next`. -/
def cursoridNext [CImpl] (c : AggregateCursor) : Option Bson × AggregateCursor :=
  if c.cid.inFirstBatch then c.processFirstBatch net
  else if c.cid.hasCursor then c.advance net
  else
    let (b, c) := c.advance net
    let c := { c with cid := { c.cid with hasCursor := true } }
    match b.bind cursorDocument with
    | none => (b, c)
    | some child =>
      let (cursorId, cid) := (bsonIterElements child).foldl cursorField (c.driver.cursor.rpc.cursorId, c.cid)
      let cursor := { c.driver.cursor with rpc := { c.driver.cursor.rpc with cursorId }, isCommand := false }
      if cid.inFirstBatch then
        AggregateCursor.processFirstBatch net ⟨{ c.driver with cursor := { cursor with endOfEvent := false } }, cid⟩
      else if cursorId ≠ 0 then AggregateCursor.advance net ⟨{ c.driver with cursor }, cid⟩
      else (b, ⟨{ c.driver with cursor }, cid⟩)

/-- `mongoc_cursor_next`, of a cursor with this interface. -/
def aggregateNext [CImpl] (c : AggregateCursor) : Option Bson × AggregateCursor :=
  if c.driver.cursor.failed then (none, c)
  else
    let (b, c) := cursoridNext net c
    (b, { c with driver := { c.driver with cursor := { c.driver.cursor with
      count := (c.driver.cursor.count + 1) % 2 ^ 32 } } })

end

/-- The cursor of `mongoc_collection_aggregate` for a server of wire version 1 or later. -/
def AggregateCursor.new (client : Client) (flags batchSize : Nat) (command : Bytes) : AggregateCursor :=
  ⟨⟨client, .new true flags 0 0 batchSize command none⟩, .new⟩

/-! ## The first batch -/

/-- The documents that are left of the first batch. -/
def batchDocuments (it : BsonIter) : List Bson := (bsonIterElements it).filterMap batchDocument

theorem findSome_elements {it : BsonIter} {f : BsonIter → Option Bson} :
    (∀ b e, (bsonIterElements it).findSome? (fun e => (f e).map (·, e)) = some (b, e) →
      (bsonIterElements it).filterMap f = b :: (bsonIterElements e).filterMap f) ∧
    ((bsonIterElements it).findSome? (fun e => (f e).map (·, e)) = none → (bsonIterElements it).filterMap f = []) := by
  generalize hes : bsonIterElements it = es
  induction es generalizing it with
  | nil => simp
  | cons first es ih =>
    have hstep : bsonIterElements first = es := by
      rw [bsonIterElements_eq] at hes
      cases hnext : bsonIterNext it with
      | none => rw [hnext] at hes; cases hes
      | some it' =>
        rw [hnext] at hes
        obtain ⟨rfl, rfl⟩ := List.cons.inj hes
        rfl
    obtain ⟨hsome, hnone⟩ := ih hstep
    cases hf : f first with
    | none =>
      refine ⟨fun b e h => ?_, fun h => ?_⟩
      · rw [List.filterMap_cons_none hf]
        exact hsome b e (by simpa [hf] using h)
      · rw [List.filterMap_cons_none hf]
        exact hnone (by simpa [hf] using h)
    | some b' =>
      refine ⟨fun b e h => ?_, fun h => ?_⟩
      · obtain ⟨rfl, rfl⟩ : b' = b ∧ first = e := by simpa [hf] using h
        rw [List.filterMap_cons_some hf, hstep]
      · simp [hf] at h

theorem firstBatchNext_some {it e : BsonIter} {b : Bson} (h : firstBatchNext it = some (b, e)) :
    batchDocuments it = b :: batchDocuments e := findSome_elements.1 b e h

theorem firstBatchNext_none {it : BsonIter} (h : firstBatchNext it = none) : batchDocuments it = [] :=
  findSome_elements.2 h

/-! ## A server that answers in batches -/

/-- A reply document with the identity of a cursor and a first batch; `ns` is a string in it. -/
structure CursorReply [CImpl] (doc : Bson) (id : Int) (batch : List Bson) : Prop where
  framed : Framed doc
  ok : ∃ e, bsonIterInitFind doc "ok" = some e ∧ bsonIterAsBool e = true
  cursor : ∃ child first, cursorDocument doc = some child ∧
    (∀ e ∈ bsonIterElements child, bsonIterKey e = keyBytes "ns" → e.bsonType = some .utf8) ∧
    batchDocuments first = batch ∧ (bsonIterElements child).foldl cursorField (0, ⟨true, false, none⟩) = (id, ⟨true, true, some first⟩)

/-- The connection answers the command with the first batch, and the further requests with the others. -/
structure ServesAggregate [CImpl] (net : Connection) (base : List Request) (q : Request) (first : Nat) (id : Int)
    (batches : List (List Bson)) : Prop extends Serves net base q first id batches where
  command : ∃ rpc doc, net.recv (base ++ [q]) = .ok rpc ∧ rpc.opcode = opcodeReply ∧
    rpc.responseTo = (first + 1) % 2 ^ 32 ∧ rpc.queryFailure = false ∧ rpc.cursorNotFound = false ∧ rpc.cursorId = 0 ∧
    rpc.documents = doc.data ∧ CursorReply doc (if 1 < batches.length then id else 0) (batches.getD 0 [])

section
variable [CImpl] {net : Connection} {base : List Request} {q : Request} {first : Nat} {id : Int} {batches : List (List Bson)}
  {c : AggregateCursor} {d : Driver}

omit [CImpl] in
theorem mongocRpcReplyGetFirst_framed {rpc : Rpc} {doc : Bson} (hdoc : Framed doc) (h : rpc.documents = doc.data) :
    mongocRpcReplyGetFirst rpc = some doc := by
  obtain ⟨h5, hlen, hnul⟩ := hdoc
  have hsmall := doc.small
  have hslice : slice doc.data 0 doc.data.length = doc.data := by simp [slice]
  have hint : toInt32 (doc.data.length : Nat) = doc.data.length := toInt32_natCast (by omega)
  have hlast : doc.data.getD (0 + doc.data.length - 1) 0 = 0 := by simpa using hnul
  have hinit : initStaticAt doc.data 0 doc.data.length = some doc :=
    initStaticAt_eq_some.mpr ⟨⟨h5, hsmall⟩, hlen, hlast, hslice.symm⟩
  rw [mongocRpcReplyGetFirst, h, if_neg (by omega)]
  dsimp only
  rw [hlen, hint, if_neg (by omega), if_neg (by omega), Int.toNat_natCast, hinit]

theorem CursorReply.unwrap {rpc : Rpc} {doc : Bson} {n : Int} {batch : List Bson} (hdoc : CursorReply doc n batch)
    (hopcode : rpc.opcode = opcodeReply) (hfail : rpc.queryFailure = false) (h : rpc.documents = doc.data) :
    mongocCursorUnwrapFailure true rpc = none := by
  obtain ⟨e, hfind, hok⟩ := hdoc.ok
  rw [mongocCursorUnwrapFailure]
  rw [if_neg (not_not.mpr hopcode), if_neg (by simp [hfail]), if_pos (by rfl),
    mongocRpcReplyGetFirst_framed hdoc.framed h]
  dsimp only
  rw [hfind]
  dsimp only
  rw [if_pos hok]

/-- The driver behind the reply to the command, once it is unpacked. -/
def unpacked (d : Driver) (cursorId : Int) : Driver :=
  { d with cursor := { d.cursor with
    rpc := { d.cursor.rpc with cursorId }
    isCommand := false
    endOfEvent := false } }

/-- The first call of `_mongoc_cursor_next`: the reply to the command. -/
theorem ServesAggregate.cursorNext (hs : ServesAggregate net base q first id batches) (h : Unread d)
    (hcommand : d.cursor.isCommand = true) (hlog : d.client.log = base) (hfirst : d.client.requestId = first)
    (hq : queryRequest d.cursor = q) :
    ∃ doc d' n, Monary.cursorNext net d = (some doc, d') ∧ CursorReply doc n (batches.getD 0 []) ∧
      d'.cursor.rpc.cursorId = 0 ∧ d'.cursor.settings = d.cursor.settings ∧
      Active base q first id batches 1 [] (unpacked d' n) := by
  obtain ⟨rpc, doc, hrecv, hopcode, hresponse, hfail, -, hid, hdocs, hdoc⟩ := hs.command
  have hunwrap : mongocCursorUnwrapFailure d.cursor.isCommand rpc = none := by
    rw [hcommand]
    exact hdoc.unwrap hopcode hfail hdocs
  obtain ⟨hint, hfetch⟩ := hs.toServes.query h hlog hfirst hq hrecv hopcode hresponse hunwrap
  have hlimit : ¬ (d.cursor.limit ≠ 0 ∧ d.cursor.limit ≤ d.cursor.count) := by
    rw [h.count]
    omega
  have hreads : (queriedWith d ((first + 1) % 2 ^ 32) q hint rpc).Reads [doc] := by
    refine ⟨[], ?_, fun b hb => ?_, ?_⟩
    · simp [queriedWith, Driver.read, hdocs]
    · exact List.mem_singleton.mp hb ▸ hdoc.framed
    · simpa using doc.small
  obtain ⟨r, hread, hreads'⟩ := hreads.readNext_cons
  let d₁ := queriedWith d ((first + 1) % 2 ^ 32) q hint rpc
  let d₂ : Driver := { d₁ with cursor := { d₁.cursor with reader := some r, endOfEvent := false, done := false } }
  have hnext : Monary.cursorNext net d = (some doc, d₂) := by
    rw [Monary.cursorNext, if_neg (by simp [h.done, h.failed]), if_neg (by simp [h.plain.client]), if_neg hlimit,
      if_neg (by simp [h.reader]), Driver.fetchNext, hfetch]
    dsimp only
    rw [hread]
    rfl
  have hsettings : d₁.cursor.settings = d.cursor.settings := queriedWith_settings h.plain
  refine ⟨doc, d₂, _, hnext, hdoc, hid, hsettings, ?_⟩
  have hplain : PlainCursor d₁ := queriedWith_plain h.plain
  constructor
  case plain => exact ⟨hplain.tailable, hplain.exhaust, hplain.inExhaust, hplain.client⟩
  case isCommand => rfl
  case failed => exact h.failed
  case done => rfl
  case sent => rfl
  case reads => exact hreads'
  case pos => exact Nat.one_pos
  case le => exact List.length_pos_iff.mpr hs.nonempty
  case cursorId => rfl
  case asked => exact ⟨[], rfl, by rw [← hlog]; rfl⟩
  case requestId => rfl

/-! ## Runs -/

/-- A cursor of an aggregation that was advanced, with the documents that are left. -/
inductive Unpacked (base : List Request) (q : Request) (first : Nat) (id : Int) (batches : List (List Bson)) :
    AggregateCursor → List Bson → Prop
  | firstBatch {c : AggregateCursor} {it : BsonIter} (h : Active base q first id batches 1 [] c.driver)
      (hlimit : c.driver.cursor.limit = 0) (hcid : c.cid = ⟨true, true, some it⟩) :
      Unpacked base q first id batches c (batchDocuments it ++ pulled (batches.drop 1))
  | later {c : AggregateCursor} {k : Nat} {rest : List Bson} (h : Active base q first id batches k rest c.driver)
      (hlimit : c.driver.cursor.limit = 0) (hcursor : c.cid.hasCursor = true) (hfirst : c.cid.inFirstBatch = false) :
      Unpacked base q first id batches c (rest ++ pulled (batches.drop k))
  | ended {c : AggregateCursor} (h : Over c.driver) (hcursor : c.cid.hasCursor = true)
      (hfirst : c.cid.inFirstBatch = false) : Unpacked base q first id batches c []

/-- A call gives the first of the documents, or the end. -/
def GivesFirst (base : List Request) (q : Request) (first : Nat) (id : Int) (batches : List (List Bson)) (left : List Bson)
    (r : Option Bson × AggregateCursor) : Prop :=
  (∃ b l, left = b :: l ∧ r.1 = some b ∧ Unpacked base q first id batches r.2 l) ∨
    left = [] ∧ r.1 = none ∧ Unpacked base q first id batches r.2 []

omit [CImpl] in
theorem advance_gives (hs : Serves net base q first id batches) {k : Nat} {rest : List Bson}
    (h : Active base q first id batches k rest c.driver) (hlimit : c.driver.cursor.limit = 0)
    (hcursor : c.cid.hasCursor = true) (hfirst : c.cid.inFirstBatch = false) :
    GivesFirst base q first id batches (rest ++ pulled (batches.drop k)) (c.advance net) := by
  rw [AggregateCursor.advance]
  rcases h.cursorNext hs (by simp [hlimit]) with ⟨b, k', rest', d', hnext, hsettings, hdocs, h'⟩ | ⟨d', hnext, hdocs, hover⟩
  · rw [hnext, hdocs]
    have hl : d'.cursor.limit = 0 := (congrArg CursorSettings.limit hsettings).trans hlimit
    exact Or.inl ⟨b, _, rfl, rfl, .later h' hl hcursor hfirst⟩
  · rw [hnext, hdocs]
    exact Or.inr ⟨rfl, rfl, .ended hover hcursor hfirst⟩

omit [CImpl] in
theorem processFirstBatch_gives (hs : Serves net base q first id batches) {it : BsonIter}
    (h : Active base q first id batches 1 [] c.driver) (hlimit : c.driver.cursor.limit = 0)
    (hcid : c.cid = ⟨true, true, some it⟩) :
    GivesFirst base q first id batches (batchDocuments it ++ pulled (batches.drop 1)) (c.processFirstBatch net) := by
  rw [AggregateCursor.processFirstBatch, hcid, Option.bind_some]
  rcases hfirst : firstBatchNext it with _ | ⟨b, e⟩
  · dsimp only
    rw [firstBatchNext_none hfirst, List.nil_append]
    split
    · next hid =>
      have hone : ¬ 1 < batches.length := by
        intro hlt
        rw [h.cursorId, if_pos hlt] at hid
        exact hs.id_ne hid
      rw [List.drop_eq_nil_of_le (by omega), pulled_nil]
      exact Or.inr ⟨rfl, rfl, .ended ⟨h.failed, rfl⟩ rfl rfl⟩
    · have h' : Active base q first id batches 1 []
          { c.driver with cursor := { c.driver.cursor with endOfEvent := true } } := h.of_read h.done h.reads
      exact advance_gives (c := ⟨{ c.driver with cursor := { c.driver.cursor with endOfEvent := true } },
        ⟨true, false, some it⟩⟩) hs h' hlimit rfl rfl
  · dsimp only
    rw [firstBatchNext_some hfirst]
    exact Or.inl ⟨b, _, rfl, rfl, .firstBatch h hlimit rfl⟩

omit [CImpl] in
theorem Unpacked.counted {left : List Bson} (h : Unpacked base q first id batches c left) :
    Unpacked base q first id batches { c with driver := c.driver.counted } left := by
  cases h with
  | firstBatch h hlimit hcid => exact .firstBatch h.counted hlimit hcid
  | later h hlimit hcursor hfirst => exact .later h.counted hlimit hcursor hfirst
  | ended h hcursor hfirst => exact .ended ⟨h.failed, h.done⟩ hcursor hfirst

theorem aggregateNext_eq (hfailed : c.driver.cursor.failed = false) :
    aggregateNext net c =
      ((cursoridNext net c).1, { (cursoridNext net c).2 with driver := (cursoridNext net c).2.driver.counted }) := by
  rw [aggregateNext, if_neg (by simp [hfailed])]
  rfl

theorem GivesFirst.aggregateNext {left : List Bson} (hfailed : c.driver.cursor.failed = false)
    (h : GivesFirst base q first id batches left (cursoridNext net c)) :
    GivesFirst base q first id batches left (aggregateNext net c) := by
  rw [aggregateNext_eq hfailed]
  rcases h with ⟨b, l, hleft, hval, hstate⟩ | ⟨hleft, hval, hstate⟩
  · exact Or.inl ⟨b, l, hleft, hval, hstate.counted⟩
  · exact Or.inr ⟨hleft, hval, hstate.counted⟩

theorem Unpacked.next {left : List Bson} (h : Unpacked base q first id batches c left)
    (hs : Serves net base q first id batches) : GivesFirst base q first id batches left (Monary.aggregateNext net c) := by
  cases h with
  | firstBatch h hlimit hcid =>
    apply GivesFirst.aggregateNext h.failed
    rw [cursoridNext, if_pos (by rw [hcid])]
    exact processFirstBatch_gives hs h hlimit hcid
  | later h hlimit hcursor hfirst =>
    apply GivesFirst.aggregateNext h.failed
    rw [cursoridNext, if_neg (by simp [hfirst]), if_pos hcursor]
    exact advance_gives hs h hlimit hcursor hfirst
  | ended h hcursor hfirst =>
    apply GivesFirst.aggregateNext h.failed
    have hnext : Monary.cursorNext net c.driver = (none, c.driver.setError (bsonSetError BsonError.cursor
        BsonError.invalidCursor (keyBytes "Cannot advance a completed or failed cursor."))) := by
      rw [Monary.cursorNext, if_pos (by simp [h.done])]
    rw [cursoridNext, if_neg (by simp [hfirst]), if_pos hcursor, AggregateCursor.advance, hnext]
    exact Or.inr ⟨rfl, rfl, .ended ⟨h.failed, h.done⟩ hcursor hfirst⟩

/-- The first call takes the reply to the command and gives the first document of all. -/
theorem ServesAggregate.next (hs : ServesAggregate net base q first id batches) (h : Unread c.driver)
    (hcommand : c.driver.cursor.isCommand = true) (hlimit : c.driver.cursor.limit = 0) (hcid : c.cid = .new)
    (hlog : c.driver.client.log = base) (hfirst : c.driver.client.requestId = first)
    (hq : queryRequest c.driver.cursor = q) :
    GivesFirst base q first id batches (batches.getD 0 [] ++ pulled (batches.drop 1)) (Monary.aggregateNext net c) := by
  apply GivesFirst.aggregateNext h.failed
  obtain ⟨doc, d', n, hnext, hdoc, hid, hsettings, hactive⟩ := hs.cursorNext h hcommand hlog hfirst hq
  obtain ⟨child, it, hchild, -, hdocs, hfold⟩ := hdoc.cursor
  have hhas : c.cid.hasCursor = false := by rw [hcid, CursorId.new]
  have hin : c.cid.inFirstBatch = false := by rw [hcid, CursorId.new]
  have hiter : c.cid.firstBatchIter = none := by rw [hcid, CursorId.new]
  rw [cursoridNext, if_neg (by simp [hin]), if_neg (by simp [hhas]), AggregateCursor.advance, hnext]
  dsimp only
  rw [Option.bind_some, hchild]
  dsimp only
  rw [hid, hin, hiter, hfold]
  dsimp only
  rw [if_pos (by rfl), ← hdocs]
  have hl : d'.cursor.limit = 0 := (congrArg CursorSettings.limit hsettings).trans hlimit
  exact processFirstBatch_gives (c := ⟨unpacked d' n, ⟨true, true, some it⟩⟩) hs.toServes hactive hl rfl

/-- A cursor of an aggregation, with the documents that are left. -/
inductive Aggregates (base : List Request) (q : Request) (first : Nat) (id : Int) (batches : List (List Bson)) :
    AggregateCursor → List Bson → Prop
  | unread {c : AggregateCursor} (h : Unread c.driver) (hcommand : c.driver.cursor.isCommand = true)
      (hlimit : c.driver.cursor.limit = 0) (hcid : c.cid = .new) (hlog : c.driver.client.log = base)
      (hfirst : c.driver.client.requestId = first) (hq : queryRequest c.driver.cursor = q) :
      Aggregates base q first id batches c (batches.getD 0 [] ++ pulled (batches.drop 1))
  | unpacked {c : AggregateCursor} {left : List Bson} (h : Unpacked base q first id batches c left) :
      Aggregates base q first id batches c left

theorem Aggregates.next {left : List Bson} (h : Aggregates base q first id batches c left)
    (hs : ServesAggregate net base q first id batches) :
    GivesFirst base q first id batches left (Monary.aggregateNext net c) := by
  cases h with
  | unread h hcommand hlimit hcid hlog hfirst hq => exact hs.next h hcommand hlimit hcid hlog hfirst hq
  | unpacked h => exact h.next hs.toServes

theorem aggregates_source (hs : ServesAggregate net base q first id batches) :
    Pull.Source (aggregateNext net) (Aggregates base q first id batches) where
  cons h := by
    rcases h.next hs with ⟨b, l, heq, hval, hstate⟩ | ⟨heq, -⟩
    · obtain ⟨rfl, rfl⟩ := List.cons.inj heq
      exact ⟨hval, .unpacked hstate⟩
    · cases heq
  nil h := by
    rcases h.next hs with ⟨b, l, heq, -⟩ | ⟨-, hval, hstate⟩
    · cases heq
    · exact ⟨hval, .unpacked hstate⟩

omit [CImpl] in
theorem Aggregates.failed {left : List Bson} (h : Aggregates base q first id batches c left) :
    c.driver.cursor.failed = false := by
  cases h with
  | unread h => exact h.failed
  | unpacked h =>
    cases h with
    | firstBatch h => exact h.failed
    | later h => exact h.failed
    | ended h => exact h.failed

end

/-- Over a server that answers in batches, calls of `mongoc_cursor_next` on a cursor of an aggregation return the
documents of the first batch, then those of the others up to the first of them that is empty, and then none; the cursor
does not fail. -/
theorem aggregateNext_served [CImpl] {net : Connection} {client : Client} {flags batchSize : Nat} {command : Bytes}
    {id : Int} {batches : List (List Bson)} (htailable : flags.testBit 1 = false) (hexhaust : flags.testBit 6 = false)
    (hclient : client.inExhaust = false) (hs : ServesAggregate net client.log
      (queryRequest (AggregateCursor.new client flags batchSize command).driver.cursor) client.requestId id batches)
    (n : Nat) {docs : List Bson} (hdocs : docs = batches.getD 0 [] ++ pulled (batches.drop 1)) :
    (Pull.run (aggregateNext net) n (.new client flags batchSize command)).1 =
        (docs.take n).map some ++ List.replicate (n - docs.length) none ∧
      (Pull.run (aggregateNext net) n (.new client flags batchSize command)).2.driver.cursor.failed = false ∧
      ((∀ batch ∈ batches.drop 1, batch ≠ []) → docs = batches.flatten) := by
  have hstart : Aggregates client.log (queryRequest (AggregateCursor.new client flags batchSize command).driver.cursor)
      client.requestId id batches (.new client flags batchSize command) docs := by
    rw [hdocs]
    exact .unread (unread_new true 0 batchSize command none htailable hexhaust (by decide) hclient) rfl rfl rfl rfl rfl rfl
  obtain ⟨hrun, hstate⟩ := (aggregates_source hs).run hstart n
  refine ⟨hrun, hstate.failed, fun hne => ?_⟩
  rw [hdocs, pulled_eq_flatten hne]
  have hpos : 0 < batches.length := List.length_pos_iff.mpr hs.nonempty
  have hcons := List.drop_eq_getElem_cons hpos
  rw [List.drop_zero, ← List.getD_eq_getElem batches [] hpos] at hcons
  conv_rhs => rw [hcons]
  rfl

/-- `{"cursor": {"id": 7, "ns": "a.b", "firstBatch": [{}]}, "ok": 1.0}`. -/
def commandReply : Bson := ⟨[0x4F, 0, 0, 0,
  3, 0x63, 0x75, 0x72, 0x73, 0x6F, 0x72, 0, 0x36, 0, 0, 0,
  0x12, 0x69, 0x64, 0, 7, 0, 0, 0, 0, 0, 0, 0,
  2, 0x6E, 0x73, 0, 4, 0, 0, 0, 0x61, 0x2E, 0x62, 0,
  4, 0x66, 0x69, 0x72, 0x73, 0x74, 0x42, 0x61, 0x74, 0x63, 0x68, 0, 13, 0, 0, 0, 3, 0x30, 0, 5, 0, 0, 0, 0, 0, 0,
  1, 0x6F, 0x6B, 0, 0, 0, 0, 0, 0, 0, 0xF0, 0x3F, 0], by decide⟩

/-- A server that answers a command with one document and a further request with another one. -/
def commandServer : Connection where
  warmUp _ := none
  sendv _ _ requestId := .ok requestId
  recv log := .ok ⟨opcodeReply, 0, log.length, 0, 0, if log.length = 1 then commandReply.data else noFields.data⟩

theorem cursorReply_commandReply : @CursorReply CImpl.x86 commandReply 7 [noFields] := by
  let _ := CImpl.x86
  refine ⟨⟨by decide, by decide, by decide⟩, ⟨_, rfl, by decide⟩, ?_⟩
  refine ⟨⟨commandReply.data.drop 12, 54, 0, 0, 0, 0, 0, 0, 0, 4⟩, ⟨commandReply.data.drop 52, 13, 0, 0, 0, 0, 0, 0, 0, 4⟩,
    ?_, ?_, ?_, ?_⟩
  · decide
  · decide
  · rfl
  · decide

theorem servesAggregate_commandServer : @ServesAggregate CImpl.x86 commandServer findAll.client.log
    (queryRequest (AggregateCursor.new findAll.client 0 0 noFields.data).driver.cursor) findAll.client.requestId 7
    [[noFields], [noFields]] := by
  have hframed : Framed noFields := ⟨by decide, by decide, by decide⟩
  refine @ServesAggregate.mk CImpl.x86 _ _ _ _ _ _ ⟨by decide, by simp, fun _ => rfl, fun _ _ n => ⟨n, rfl⟩, ?_, ?_⟩ ?_
  · intro batch hb
    obtain rfl : batch = [noFields] := by simpa using hb
    exact ⟨by simpa using hframed, by decide⟩
  · intro sizes hne hlt
    obtain ⟨n, rfl⟩ : ∃ n, sizes = [n] := List.length_eq_one_iff.mp <| by
      have := List.length_pos_iff.mpr hne
      have : sizes.length < 2 := hlt
      omega
    exact ⟨_, rfl, rfl, rfl, Nat.zero_testBit 0, Nat.zero_testBit 1, rfl, rfl⟩
  · exact ⟨_, commandReply, rfl, rfl, rfl, Nat.zero_testBit 1, Nat.zero_testBit 0, rfl, rfl, cursorReply_commandReply⟩

theorem aggregateNext_commandServer :
    (Pull.run (@aggregateNext commandServer CImpl.x86) 3 (.new findAll.client 0 0 noFields.data)).1 =
        (([noFields, noFields] : List Bson).take 3).map some ++ List.replicate (3 - [noFields, noFields].length) none ∧
      (Pull.run (@aggregateNext commandServer CImpl.x86) 3
        (.new findAll.client 0 0 noFields.data)).2.driver.cursor.failed = false ∧
      ((∀ batch ∈ [[noFields], [noFields]].drop 1, batch ≠ []) → [noFields, noFields] = [[noFields], [noFields]].flatten) :=
  @aggregateNext_served CImpl.x86 _ _ _ _ _ _ _ (by decide) (by decide) rfl servesAggregate_commandServer 3 _ rfl

end Monary
