import Monary.Lib.Pull
import Monary.Mongoc.Driver

/-!
# Runs of the cursor of the driver

* `PlainCursor` : a cursor that is not tailable and not in exhaust mode;
* `Asked` : the requests of a cursor and the replies it took: a query, and each further request with the identity that
  the reply before it gave;
* `Tracks` : what holds after any calls: the documents that were returned and those that are left in the reader are the
  documents of the replies, in their order; `Tracks.next` : a call keeps it;
* `driverRun_unread` : calls of `mongoc_cursor_next` on a cursor, whatever the server does; `driverDestroy_unread` : and
  of `mongoc_cursor_destroy` after them.
-/

namespace Monary
open ByteSeq CInt

variable {net : Connection} {d d' : Driver}

/-- Neither tailable nor in exhaust mode. -/
structure PlainCursor (d : Driver) : Prop where
  tailable : d.cursor.tailable = false
  exhaust : d.cursor.exhaust = false
  inExhaust : d.cursor.inExhaust = false
  client : d.client.inExhaust = false

/-! ## Exchanges -/

/-- The documents of a reply. -/
def Rpc.docs (rpc : Rpc) : List Bson := BsonReader.left ⟨rpc.documents, 0⟩

/-- The requests and the replies that were taken, the first request being `q`; `base` was sent before. -/
inductive Asked (net : Connection) (base : List Request) (q : Request) : List Rpc → List Request → Prop
  | none : Asked net base q [] []
  | first {r} (h : net.recv (base ++ [q]) = .ok r) : Asked net base q [r] [q]
  | more {rs r log r'} (n : Int) (h : Asked net base q (rs ++ [r]) log) (hid : r.cursorId ≠ 0)
      (hrecv : net.recv (base ++ (log ++ [.getMore n r.cursorId])) = .ok r') :
      Asked net base q (rs ++ [r, r']) (log ++ [.getMore n r.cursorId])

/-- The members that an exchange does not set. -/
structure CursorSettings where
  isCommand : Bool
  inExhaust : Bool
  hasFields : Bool
  query : Bytes
  fields : Bytes
  flags : Nat
  skip : Nat
  limit : Nat
  count : Nat
  batchSize : Nat

def CursorState.settings (c : CursorState) : CursorSettings :=
  ⟨c.isCommand, c.inExhaust, c.hasFields, c.query, c.fields, c.flags, c.skip, c.limit, c.count, c.batchSize⟩

theorem PlainCursor.of_settings (h : PlainCursor d) (hs : d'.cursor.settings = d.cursor.settings)
    (hc : d'.client.inExhaust = d.client.inExhaust) : PlainCursor d' := by
  have hflags : d'.cursor.flags = d.cursor.flags := congrArg CursorSettings.flags hs
  refine ⟨?_, ?_, (congrArg CursorSettings.inExhaust hs).trans h.inExhaust, hc.trans h.client⟩
  · rw [CursorState.tailable, hflags]
    exact h.tailable
  · rw [CursorState.exhaust, hflags]
    exact h.exhaust

theorem receiveReply_error {requestId : Nat} {e : BsonError} (h : receiveReply net d requestId = (some e, d')) :
    d'.client = d.client ∧ ∃ rpc, d'.cursor = { d.cursor with rpc } := by
  unfold receiveReply at h
  grind

theorem receiveReply_none {requestId : Nat} (h : receiveReply net d requestId = (none, d')) :
    ∃ rpc, net.recv d.client.log = .ok rpc ∧ d' = { d with cursor := { d.cursor with rpc } } := by
  unfold receiveReply at h
  grind

theorem clientSendv_log {k k' : Client} {r : Request} {res : Except BsonError Nat} (h : clientSendv net k r = (res, k')) :
    k'.inExhaust = k.inExhaust ∧
      ((∃ e, res = .error e) ∧ k'.log = k.log ∨ (∃ hint, res = .ok hint) ∧ k'.log = k.log ++ [r]) := by
  unfold clientSendv at h
  grind

/-- The `OP_QUERY` of a cursor. -/
def queryRequest (c : CursorState) : Request :=
  .query c.flags c.skip (nReturn c) c.query (if c.hasFields then some c.fields else none)

/-- The request of an exchange: the first one, or one with the identity that the last reply gave. -/
def Asks (d : Driver) (req : Request) : Prop :=
  (d.cursor.sent = false ∧ req = queryRequest d.cursor) ∨
    (d.cursor.sent = true ∧ d.cursor.rpc.cursorId ≠ 0 ∧ ∃ n, req = .getMore n d.cursor.rpc.cursorId)

/-- An exchange that fails, before or after its request is sent. -/
structure Broken (d d' : Driver) : Prop where
  failed : d'.cursor.failed = true
  same : d'.cursor.settings = d.cursor.settings
  reader : d'.cursor.reader = d.cursor.reader
  client : d'.client.inExhaust = d.client.inExhaust
  log : d'.client.log = d.client.log ∨ ∃ r, Asks d r ∧ d'.client.log = d.client.log ++ [r]

/-- An exchange that gives new documents. -/
structure Refilled (net : Connection) (d d' : Driver) (req : Request) (rpc : Rpc) : Prop where
  recv : net.recv (d.client.log ++ [req]) = .ok rpc
  log : d'.client.log = d.client.log ++ [req]
  same : d'.cursor.settings = d.cursor.settings
  client : d'.client.inExhaust = d.client.inExhaust
  reader : d'.cursor.reader = some ⟨rpc.documents, 0⟩
  rpc_eq : d'.cursor.rpc = rpc
  sent : d'.cursor.sent = true
  failed : d'.cursor.failed = d.cursor.failed
  done : d.cursor.done = false → d'.cursor.done = false

/-- A request is sent and its reply is received. -/
theorem receive_spec {k : Client} {c : CursorState} {r : Request} {hint : Nat} {res : Option BsonError} {d₁ : Driver}
    (hsend : clientSendv net d.client r = (.ok hint, k)) (hrecv : receiveReply net ⟨k, c⟩ k.requestId = (res, d₁)) :
    d₁.client.inExhaust = d.client.inExhaust ∧ d₁.client.log = d.client.log ++ [r] ∧
      (∃ rpc, d₁.cursor = { c with rpc }) ∧
      (res = none → net.recv (d.client.log ++ [r]) = .ok d₁.cursor.rpc) := by
  obtain ⟨hexhaust, ⟨⟨e, he⟩, -⟩ | ⟨-, hlog⟩⟩ := clientSendv_log hsend
  · cases he
  · cases res with
    | some e =>
      obtain ⟨hclient, rpc, hcursor⟩ := receiveReply_error hrecv
      rw [hclient]
      exact ⟨hexhaust, hlog, ⟨rpc, hcursor⟩, nofun⟩
    | none =>
      obtain ⟨rpc, hrpc, rfl⟩ := receiveReply_none hrecv
      exact ⟨hexhaust, hlog, ⟨rpc, rfl⟩, fun _ => by rw [← hlog]; exact hrpc⟩

theorem mongocCursorQuery_spec {ok : Bool} (hp : PlainCursor d) (hsent : d.cursor.sent = false)
    (h : mongocCursorQuery net d = (ok, d')) :
    (ok = false ∧ Broken d d') ∨ (ok = true ∧ ∃ rpc, Refilled net d d' (queryRequest d.cursor) rpc) := by
  unfold mongocCursorQuery at h
  split at h
  · cases h
    exact Or.inl ⟨rfl, rfl, rfl, rfl, rfl, Or.inl rfl⟩
  · dsimp only at h
    split at h
    · next e client hsend =>
      cases h
      obtain ⟨hexhaust, ⟨-, hlog⟩ | ⟨⟨hint, hhint⟩, -⟩⟩ := clientSendv_log hsend
      · exact Or.inl ⟨rfl, rfl, rfl, rfl, hexhaust, Or.inl hlog⟩
      · cases hhint
    · next hint client hsend =>
      split at h
      · next e d₁ hrecv =>
        cases h
        obtain ⟨hexhaust, hlog, ⟨rpc, hcursor⟩, -⟩ := receive_spec hsend hrecv
        refine Or.inl ⟨rfl, rfl, ?_, ?_, hexhaust, Or.inr ⟨_, Or.inl ⟨hsent, rfl⟩, hlog⟩⟩
        · simp only [Driver.fail, hcursor, CursorState.settings]
        · simp only [Driver.fail, hcursor]
      · next d₁ hrecv =>
        cases h
        obtain ⟨hexhaust, hlog, ⟨rpc, hcursor⟩, hrpc⟩ := receive_spec hsend hrecv
        have hflag : d₁.read.cursor.exhaust = false := by
          rw [Driver.read, hcursor]
          exact hp.exhaust
        refine Or.inr ⟨rfl, d₁.cursor.rpc, ?_⟩
        rw [hflag]
        constructor
        case recv => exact hrpc rfl
        case log => exact hlog
        case same =>
          simp only [Driver.read, hcursor, Bool.or_false, CursorState.settings]
        case client =>
          simp only [Driver.read, Bool.or_false]
          exact hexhaust
        case reader => rfl
        case rpc_eq => rfl
        case sent => rfl
        case failed => simp only [Driver.read, hcursor]
        case done => exact fun _ => rfl

theorem mongocCursorGetMore_spec {ok : Bool} (hp : PlainCursor d) (hid : d.cursor.rpc.cursorId ≠ 0)
    (hsent : d.cursor.sent = true) (h : mongocCursorGetMore net d = (ok, d')) :
    (ok = false ∧ Broken d d') ∨
      (ok = true ∧ ∃ n rpc, Refilled net d d' (.getMore n d.cursor.rpc.cursorId) rpc) := by
  unfold mongocCursorGetMore at h
  dsimp only at h
  rw [if_neg (by rw [hp.inExhaust]; exact Bool.false_ne_true)] at h
  split at h
  · cases h
    exact Or.inl ⟨rfl, rfl, rfl, rfl, rfl, Or.inl rfl⟩
  · rw [if_neg hid] at h
    split at h
    · next e client hsend =>
      cases h
      obtain ⟨hexhaust, ⟨-, hlog⟩ | ⟨⟨hint, hhint⟩, -⟩⟩ := clientSendv_log hsend
      · exact Or.inl ⟨rfl, rfl, rfl, rfl, hexhaust, Or.inl hlog⟩
      · cases hhint
    · next hint client hsend =>
      split at h
      · next e d₁ hrecv =>
        cases h
        obtain ⟨hexhaust, hlog, ⟨rpc, hcursor⟩, -⟩ := receive_spec hsend hrecv
        refine Or.inl ⟨rfl, rfl, ?_, ?_, hexhaust, Or.inr ⟨_, Or.inr ⟨hsent, hid, _, rfl⟩, hlog⟩⟩
        · simp only [Driver.fail, hcursor, CursorState.settings]
        · simp only [Driver.fail, hcursor]
      · next d₁ hrecv =>
        cases h
        obtain ⟨hexhaust, hlog, ⟨rpc, hcursor⟩, hrpc⟩ := receive_spec hsend hrecv
        refine Or.inr ⟨rfl, nReturn d.cursor, d₁.cursor.rpc, ?_⟩
        constructor
        case recv => exact hrpc rfl
        case log => exact hlog
        case same =>
          simp only [Driver.read, hcursor, CursorState.settings]
        case client => exact hexhaust
        case reader => rfl
        case rpc_eq => rfl
        case sent => simp only [Driver.read, hcursor, hsent]
        case failed => simp only [Driver.read, hcursor]
        case done => simp only [Driver.read, hcursor, imp_self]

/-! ## One call -/

/-- The documents that are left in the reader. -/
def Driver.remaining (d : Driver) : List Bson := d.cursor.reader.elim [] BsonReader.left

/-- What `_mongoc_cursor_next` can do. -/
inductive Advance (net : Connection) (d : Driver) : Option Bson → Driver → Prop
  /-- The limit is reached. -/
  | limited {d' : Driver} (hlimit : d.cursor.limit ≠ 0) (hcount : d.cursor.limit ≤ d.cursor.count)
      (client : d'.client = d.client) (same : d'.cursor.settings = d.cursor.settings)
      (rpc : d'.cursor.rpc = d.cursor.rpc) (reader : d'.cursor.reader = d.cursor.reader)
      (sent : d'.cursor.sent = d.cursor.sent) (failed : d'.cursor.failed = false) (done : d'.cursor.done = true) :
      Advance net d none d'
  /-- The reader has a further document. -/
  | read {b : Bson} {d' : Driver} (docs : d.remaining = b :: d'.remaining) (client : d'.client = d.client)
      (same : d'.cursor.settings = d.cursor.settings) (rpc : d'.cursor.rpc = d.cursor.rpc)
      (reader : d'.cursor.reader.isSome = d.cursor.reader.isSome) (sent : d'.cursor.sent = d.cursor.sent)
      (failed : d'.cursor.failed = false) (done : d'.cursor.done = false) : Advance net d (some b) d'
  /-- An exchange fails. -/
  | broken {d' : Driver} (docs : d.remaining = []) (h : Broken d d') : Advance net d none d'
  /-- There is nothing left to ask for, or the reply was corrupt. -/
  | ended {d' : Driver} (docs : d.remaining = []) (hsent : d.cursor.sent = true) (client : d'.client = d.client)
      (same : d'.cursor.settings = d.cursor.settings) (reader : d'.cursor.reader = d.cursor.reader)
      (rpc : d'.cursor.rpc = d.cursor.rpc) (sent : d'.cursor.sent = d.cursor.sent)
      (h : d'.cursor.failed = true ∨ d'.cursor.failed = false ∧ d'.cursor.done = true ∧ d.cursor.rpc.cursorId = 0) :
      Advance net d none d'
  /-- A reply is taken, and its first document is returned, if it has one. -/
  | refilled {req : Request} {rpc : Rpc} {b : Option Bson} {d₁ d' : Driver} (docs : d.remaining = [])
      (asks : Asks d req) (h : Refilled net d d₁ req rpc)
      (client : d'.client = d₁.client) (same : d'.cursor.settings = d₁.cursor.settings)
      (rpc_eq : d'.cursor.rpc = d₁.cursor.rpc) (sent : d'.cursor.sent = d₁.cursor.sent)
      (reader : d'.cursor.reader.isSome = true) (first : rpc.docs = b.toList ++ d'.remaining)
      (h : b.isSome = true ∧ d'.cursor.failed = false ∧ d'.cursor.done = false ∨
        b = none ∧ rpc.docs = [] ∧ (d'.cursor.failed = true ∨ d'.cursor.failed = false ∧ d'.cursor.done = true)) :
      Advance net d b d'

theorem fetch_spec {ok : Bool} (hp : PlainCursor d) (h : d.fetch net = (ok, d')) :
    (ok = false ∧ Broken d d') ∨ (ok = true ∧ ∃ req rpc, Asks d req ∧ Refilled net d d' req rpc) ∨
      (ok = true ∧ d' = d ∧ d.cursor.sent = true ∧ (d.cursor.endOfEvent = true → d.cursor.rpc.cursorId = 0)) := by
  unfold Driver.fetch at h
  cases hsent : d.cursor.sent with
  | false =>
    rw [hsent, if_pos (by rfl)] at h
    rcases mongocCursorQuery_spec hp hsent h with hb | ⟨rfl, rpc, hr⟩
    · exact Or.inl hb
    · exact Or.inr (Or.inl ⟨rfl, _, rpc, Or.inl ⟨hsent, rfl⟩, hr⟩)
  | true =>
    rw [hsent, if_neg (by simp)] at h
    split at h
    · next hmore =>
      rw [Bool.and_eq_true, bne_iff_ne] at hmore
      rcases mongocCursorGetMore_spec hp hmore.2 hsent h with hb | ⟨rfl, n, rpc, hr⟩
      · exact Or.inl hb
      · exact Or.inr (Or.inl ⟨rfl, _, rpc, Or.inr ⟨hsent, hmore.2, n, rfl⟩, hr⟩)
    · next hmore =>
      cases h
      exact Or.inr (Or.inr ⟨rfl, rfl, rfl, fun heof => by simpa [heof] using hmore⟩)

/-- A read, and whether it was a document, the end or neither. -/
theorem readNext_spec {b : Option Bson} (h : d.readNext = (b, d')) :
    d'.client = d.client ∧ d'.cursor = { d.cursor with reader := d'.cursor.reader, endOfEvent := d'.cursor.endOfEvent } ∧
      d'.cursor.reader.isSome = d.cursor.reader.isSome ∧ d.remaining = b.toList ++ d'.remaining ∧
      (b = none → d'.cursor.reader = d.cursor.reader ∧ d.remaining = []) ∧
      (b.isSome → d'.cursor.endOfEvent = false) := by
  unfold Driver.readNext at h
  cases hreader : d.cursor.reader with
  | none =>
    rw [hreader] at h
    cases h
    refine ⟨rfl, rfl, by simp [hreader], ?_, fun _ => ⟨hreader, ?_⟩, by simp⟩
    · simp [Driver.remaining, hreader]
    · simp [Driver.remaining, hreader]
  | some r =>
    rw [hreader] at h
    dsimp only at h
    rcases hread : bsonReaderRead r with ⟨_ | x, eof, r'⟩
    · rw [hread] at h
      cases h
      obtain rfl := bsonReaderRead_none hread
      have hleft := left_of_none hread
      refine ⟨rfl, rfl, rfl, ?_, fun _ => ⟨rfl, ?_⟩, by simp⟩
      · simp [Driver.remaining, hreader, hleft]
      · simp [Driver.remaining, hreader, hleft]
    · rw [hread] at h
      cases h
      obtain ⟨rfl, -⟩ := bsonReaderRead_spec hread
      refine ⟨rfl, rfl, rfl, ?_, by simp, fun _ => rfl⟩
      simp [Driver.remaining, hreader, left_of_some hread]

theorem complete_spec {b : Option Bson} {eof : Bool} {b' : Option Bson} (hp : PlainCursor d)
    (hb : b.isSome → d.cursor.endOfEvent = false) (heof : b = none → eof = d.cursor.endOfEvent)
    (h : d.complete b eof = (b', d')) :
    b' = b ∧ d'.client = d.client ∧ d'.cursor.settings = d.cursor.settings ∧ d'.cursor.rpc = d.cursor.rpc ∧
      d'.cursor.reader = d.cursor.reader ∧ d'.cursor.sent = d.cursor.sent ∧
      (b.isSome → d'.cursor.failed = d.cursor.failed ∧ d'.cursor.done = false) ∧
      (b = none → d'.cursor.failed = true ∨
        d'.cursor.failed = d.cursor.failed ∧ d'.cursor.done = true ∧ d.cursor.endOfEvent = true) := by
  unfold Driver.complete at h
  dsimp only at h
  split at h
  · next hcorrupt =>
    cases h
    rw [Bool.and_eq_true, Option.isNone_iff_eq_none] at hcorrupt
    obtain ⟨rfl, -⟩ := hcorrupt
    exact ⟨rfl, rfl, rfl, rfl, rfl, rfl, by simp, fun _ => Or.inl rfl⟩
  · next hcorrupt =>
    cases h
    refine ⟨rfl, rfl, rfl, rfl, rfl, rfl, fun hsome => ⟨rfl, by simp [hb hsome]⟩, ?_⟩
    rintro rfl
    have hend : d.cursor.endOfEvent = true := by simpa [heof rfl] using hcorrupt
    exact Or.inr ⟨rfl, by simp [hend, hp.tailable], hend⟩

theorem fetchNext_advance {b : Option Bson} (hp : PlainCursor d) (hfailed : d.cursor.failed = false)
    (hdone : d.cursor.done = false) (hdocs : d.remaining = []) (heof : d.cursor.sent = true →
      d.cursor.endOfEvent = (d.readNext).2.cursor.endOfEvent) (h : d.fetchNext net = (b, d')) : Advance net d b d' := by
  unfold Driver.fetchNext at h
  rcases hfetch : d.fetch net with ⟨ok, d₁⟩
  rw [hfetch] at h
  rcases fetch_spec hp hfetch with ⟨rfl, hbroken⟩ | ⟨rfl, req, rpc, hasks, hrefill⟩ | ⟨rfl, rfl, hsent, hid⟩
  · cases h
    exact .broken hdocs hbroken
  · rcases hread : d₁.readNext with ⟨x, d₂⟩
    dsimp only at h
    rw [hread] at h
    obtain ⟨hclient, hcursor, hreader, hrem, hstop, heof₂⟩ := readNext_spec hread
    have hsettings : d₂.cursor.settings = d₁.cursor.settings := by
      rw [hcursor]
      rfl
    have hp₁ : PlainCursor d₂ := hp.of_settings (hsettings.trans hrefill.same) (by rw [hclient, hrefill.client])
    obtain ⟨rfl, hclient', hsame', hrpc', hreader', hsent', hsome, hnone⟩ := complete_spec hp₁ heof₂ (fun _ => rfl) h
    have hfirst : rpc.docs = b.toList ++ d'.remaining := by
      rw [Driver.remaining, hreader']
      rw [Driver.remaining, hrefill.reader] at hrem
      exact hrem
    refine .refilled hdocs hasks hrefill (by rw [hclient', hclient]) ?_ ?_ ?_ ?_ hfirst ?_
    · rw [hsame', hsettings]
    · rw [hrpc', hcursor]
    · rw [hsent', hcursor]
    · rw [hreader', hreader, hrefill.reader]
      rfl
    · have hf₂ : d₂.cursor.failed = false := by
        rw [hcursor]
        exact hrefill.failed.trans hfailed
      cases b with
      | some x =>
        obtain ⟨hf', hd'⟩ := hsome rfl
        exact Or.inl ⟨rfl, hf'.trans hf₂, hd'⟩
      | none =>
        have hempty : rpc.docs = [] := by
          obtain ⟨-, hleft⟩ := hstop rfl
          rw [Driver.remaining, hrefill.reader] at hleft
          exact hleft
        rcases hnone rfl with hf' | ⟨hf', hd', -⟩
        · exact Or.inr ⟨rfl, hempty, Or.inl hf'⟩
        · exact Or.inr ⟨rfl, hempty, Or.inr ⟨hf'.trans hf₂, hd'⟩⟩
  · rcases hread : d₁.readNext with ⟨x, d₂⟩
    dsimp only at h
    rw [hread] at h
    obtain ⟨hclient, hcursor, -, hrem, hstop, heof₂⟩ := readNext_spec hread
    have hsettings : d₂.cursor.settings = d₁.cursor.settings := by
      rw [hcursor]
      rfl
    obtain rfl : x = none := by
      rw [hdocs] at hrem
      cases x with
      | none => rfl
      | some x => simp at hrem
    obtain ⟨hreader, -⟩ := hstop rfl
    have hp₂ : PlainCursor d₂ := hp.of_settings hsettings (by rw [hclient])
    obtain ⟨rfl, hclient', hsame', hrpc', hreader', hsent', -, hnone⟩ := complete_spec hp₂ heof₂ (fun _ => rfl) h
    refine .ended hdocs hsent (hclient'.trans hclient) ?_ (hreader'.trans hreader) ?_ ?_ ?_
    · rw [hsame', hsettings]
    · rw [hrpc', hcursor]
    · rw [hsent', hcursor]
    · rcases hnone rfl with hf' | ⟨hf', hd', hend⟩
      · exact Or.inl hf'
      · refine Or.inr ⟨?_, hd', hid ?_⟩
        · rw [hf', hcursor]
          exact hfailed
        · rw [heof hsent, hread]
          exact hend

/-- `endOfEvent` is not what a step is about. -/
theorem Advance.of_endOfEvent {d₁ : Driver} {b : Option Bson} {e : Bool} (hclient : d₁.client = d.client)
    (hcursor : d₁.cursor = { d.cursor with endOfEvent := e }) (h : Advance net d₁ b d') : Advance net d b d' := by
  obtain ⟨client, cursor⟩ := d₁
  dsimp only at hclient hcursor
  subst hclient hcursor
  cases h with
  | limited hlimit hcount client same rpc reader sent failed done =>
    exact .limited hlimit hcount client same rpc reader sent failed done
  | read docs client same rpc reader sent failed done => exact .read docs client same rpc reader sent failed done
  | broken docs h => exact .broken docs ⟨h.failed, h.same, h.reader, h.client, h.log⟩
  | ended docs hsent client same reader rpc sent h => exact .ended docs hsent client same reader rpc sent h
  | refilled docs asks h client same rpc sent reader first hend =>
    exact .refilled docs asks ⟨h.recv, h.log, h.same, h.client, h.reader, h.rpc_eq, h.sent, h.failed, h.done⟩ client same
      rpc sent reader first hend

theorem Advance.settings {b : Option Bson} (h : Advance net d b d') : d'.cursor.settings = d.cursor.settings := by
  cases h with
  | limited _ _ _ same => exact same
  | read _ _ same => exact same
  | broken _ h => exact h.same
  | ended _ _ _ same => exact same
  | refilled _ _ h _ same => exact same.trans h.same

theorem Advance.failed {b : Bson} (h : Advance net d (some b) d') : d'.cursor.failed = false := by
  cases h with
  | read _ _ _ _ _ _ failed => exact failed
  | refilled _ _ _ _ _ _ _ _ _ h => exact h.elim (·.2.1) fun h => absurd h.1 (Option.some_ne_none b)

theorem readNext_again (h : d.readNext = (none, d')) : d'.readNext = (none, d') := by
  unfold Driver.readNext at h
  cases hreader : d.cursor.reader with
  | none =>
    rw [hreader] at h
    cases h
    unfold Driver.readNext
    dsimp only
    rw [hreader]
  | some r =>
    rw [hreader] at h
    dsimp only at h
    rcases hread : bsonReaderRead r with ⟨_ | x, eof, r'⟩
    · rw [hread] at h
      cases h
      obtain rfl := bsonReaderRead_none hread
      unfold Driver.readNext
      dsimp only
      rw [hread]
    · rw [hread] at h
      cases h

/-- `_mongoc_cursor_next` of a cursor that has not ended. -/
theorem cursorNext_advance {b : Option Bson} (hp : PlainCursor d) (hfailed : d.cursor.failed = false)
    (hdone : d.cursor.done = false) (hsent : d.cursor.sent = true → d.cursor.reader.isSome = true)
    (h : cursorNext net d = (b, d')) : Advance net d b d' := by
  unfold cursorNext at h
  rw [if_neg (by simp [hfailed, hdone]), if_neg (by simp [hp.client])] at h
  split at h
  · next hlimit =>
    cases h
    exact .limited hlimit.1 hlimit.2 rfl rfl rfl rfl rfl hfailed rfl
  · split at h
    · next hreader =>
      rcases hread : d.readNext with ⟨x, d₁⟩
      rw [hread] at h
      dsimp only at h
      obtain ⟨hclient, hcursor, hsome, hrem, hstop, heof⟩ := readNext_spec hread
      have hsettings : d₁.cursor.settings = d.cursor.settings := by
        rw [hcursor]
        rfl
      have hp₁ : PlainCursor d₁ := hp.of_settings hsettings (by rw [hclient])
      cases x with
      | some x =>
        rw [if_pos (by rfl)] at h
        obtain ⟨rfl, hclient', hsame', hrpc', hreader', hsent', hdoc, -⟩ := complete_spec hp₁ heof (by simp) h
        obtain ⟨hf', hd'⟩ := hdoc rfl
        refine .read ?_ (hclient'.trans hclient) (hsame'.trans hsettings) ?_ ?_ ?_ ?_ hd'
        · rw [hrem, Driver.remaining, Driver.remaining, hreader']
          rfl
        · rw [hrpc', hcursor]
        · rw [hreader', hsome]
        · rw [hsent', hcursor]
        · rw [hf', hcursor]
          exact hfailed
      | none =>
        rw [if_neg (by simp)] at h
        obtain ⟨hreader', hleft⟩ := hstop rfl
        have hcursor' : d₁.cursor = { d.cursor with endOfEvent := d₁.cursor.endOfEvent } := by
          rw [hcursor, hreader']
        refine Advance.of_endOfEvent hclient hcursor' (fetchNext_advance hp₁ ?_ ?_ ?_ (fun _ => ?_) h)
        · rw [hcursor]
          exact hfailed
        · rw [hcursor]
          exact hdone
        · rw [Driver.remaining, hreader']
          exact hleft
        · rw [readNext_again hread]
    · next hreader =>
      refine fetchNext_advance hp hfailed hdone ?_ (fun hs => absurd (hsent hs) hreader) h
      rw [Bool.not_eq_true, Option.isSome_eq_false_iff, Option.isNone_iff_eq_none] at hreader
      rw [Driver.remaining, hreader]
      rfl

theorem cursorNext_limit {b : Bson} (h : cursorNext net d = (some b, d')) (hlimit : d.cursor.limit ≠ 0) :
    d.cursor.count < d.cursor.limit := by
  by_contra hle
  unfold cursorNext at h
  split at h
  · cases h
  · split at h
    · cases h
    · rw [if_pos ⟨hlimit, by omega⟩] at h
      cases h

/-! ## Runs -/

/-- A request whose reply was not taken: the first one, or one with the identity that the last reply gave. -/
def Unanswered (q : Request) (rs : List Rpc) (r : Request) : Prop :=
  (rs = [] ∧ r = q) ∨ ∃ last ∈ rs.getLast?, last.cursorId ≠ 0 ∧ ∃ n, r = .getMore n last.cursorId

/-- What holds after any calls, `rs` being the replies that were taken and `out` the documents that were
returned. -/
structure Tracks (net : Connection) (base : List Request) (q : Request) (d : Driver) (rs : List Rpc) (out : List Bson) :
    Prop where
  plain : PlainCursor d
  limit_lt : d.cursor.limit < 2 ^ 32
  asked : ∃ log, Asked net base q rs log ∧ (d.client.log = base ++ log ∨
    d.cursor.failed = true ∧ ∃ r, Unanswered q rs r ∧ d.client.log = base ++ log ++ [r])
  docs : rs.flatMap Rpc.docs = out ++ d.remaining
  sent : d.cursor.failed = false → (d.cursor.sent = true ↔ rs ≠ []) ∧ ∀ r ∈ rs.getLast?, d.cursor.rpc = r
  unasked : d.cursor.failed = false → rs = [] → d.cursor.rpc.cursorId = 0
  reader : d.cursor.failed = false → d.cursor.sent = true → d.cursor.reader.isSome = true
  first : d.cursor.failed = false → d.cursor.done = false → d.cursor.sent = false → queryRequest d.cursor = q
  limit : d.cursor.limit ≠ 0 → out.length ≤ d.cursor.limit
  count : d.cursor.failed = false → d.cursor.done = false → d.cursor.count = out.length % 2 ^ 32
  ended : d.cursor.failed = false → d.cursor.done = true → (d.cursor.limit ≠ 0 ∧ out.length = d.cursor.limit) ∨
    (d.remaining = [] ∧ ∃ r ∈ rs.getLast?, r.cursorId = 0 ∨ r.docs = [])

def Driver.Stopped (d : Driver) : Prop := d.cursor.failed = true ∨ d.cursor.done = true

theorem Asks.unanswered {q req : Request} {rs : List Rpc} (h : Asks d req) (hsent : d.cursor.sent = true ↔ rs ≠ [])
    (hlast : ∀ r ∈ rs.getLast?, d.cursor.rpc = r) (hfirst : d.cursor.sent = false → queryRequest d.cursor = q) :
    Unanswered q rs req := by
  rcases h with ⟨hs, rfl⟩ | ⟨hs, hid, n, rfl⟩
  · refine Or.inl ⟨?_, hfirst hs⟩
    by_contra hne
    rw [hsent.mpr hne] at hs
    cases hs
  · obtain ⟨rs, r, rfl⟩ := (List.eq_nil_or_concat rs).resolve_left (hsent.mp hs)
    have hrpc : d.cursor.rpc = r := hlast r (by simp)
    rw [hrpc] at hid ⊢
    exact Or.inr ⟨r, by simp, hid, n, rfl⟩

/-- The replies that were taken, after an exchange. -/
theorem Asked.snoc {base : List Request} {q req : Request} {rs : List Rpc} {log : List Request} {rpc : Rpc}
    (h : Asked net base q rs log) (hlog : d.client.log = base ++ log) (hsent : d.cursor.sent = true ↔ rs ≠ [])
    (hlast : ∀ r ∈ rs.getLast?, d.cursor.rpc = r) (hfirst : d.cursor.sent = false → queryRequest d.cursor = q)
    (hasks : Asks d req) (hrecv : net.recv (d.client.log ++ [req]) = .ok rpc) :
    Asked net base q (rs ++ [rpc]) (log ++ [req]) := by
  rcases hasks with ⟨hs, rfl⟩ | ⟨hs, hid, n, rfl⟩
  · have hrs : rs = [] := by
      by_contra hne
      rw [hsent.mpr hne] at hs
      cases hs
    subst hrs
    rw [hfirst hs] at hrecv ⊢
    generalize hl : log = l at h
    generalize hr : ([] : List Rpc) = l' at h
    cases h with
    | none =>
      rw [hlog, hl, List.append_nil] at hrecv
      exact .first hrecv
    | first => cases hr
    | more => simp at hr
  · obtain ⟨rs, r, rfl⟩ := (List.eq_nil_or_concat rs).resolve_left (hsent.mp hs)
    have hrpc : d.cursor.rpc = r := hlast r (by simp)
    rw [hrpc] at hid hrecv ⊢
    rw [hlog, List.append_assoc] at hrecv
    rw [List.concat_eq_append] at h ⊢
    rw [List.append_assoc]
    exact .more n h hid hrecv

/-- `cursor->count++`. -/
def Driver.counted (d : Driver) : Driver :=
  { d with cursor := { d.cursor with count := (d.cursor.count + 1) % 2 ^ 32 } }

theorem driverNext_eq (hfailed : d.cursor.failed = false) :
    driverNext net d = ((cursorNext net d).1, (cursorNext net d).2.counted) := by
  unfold driverNext
  rw [if_neg (by simp [hfailed])]
  rfl

theorem PlainCursor.counted (h : PlainCursor d) : PlainCursor d.counted := ⟨h.tailable, h.exhaust, h.inExhaust, h.client⟩

variable {base : List Request} {q : Request} {rs : List Rpc} {out : List Bson}

/-- A step of a cursor that has not ended. -/
theorem Tracks.advance {b : Option Bson} (h : Tracks net base q d rs out) (hfailed : d.cursor.failed = false)
    (hdone : d.cursor.done = false) (hlimit : b.isSome = true → d.cursor.limit ≠ 0 → d.cursor.count < d.cursor.limit)
    (ha : Advance net d b d') :
    ∃ more, Tracks net base q d'.counted (rs ++ more) (out ++ b.toList) ∧ (b = none → d'.Stopped) := by
  obtain ⟨log, hasked, hlog⟩ := h.asked
  have hlog : d.client.log = base ++ log := hlog.resolve_right fun hf => by simp [hfailed] at hf
  obtain ⟨hsent, hlast⟩ := h.sent hfailed
  have hcount := h.count hfailed hdone
  have hlt := h.limit_lt
  have hsettled : ∀ {d₁ : Driver}, d₁.cursor.settings = d.cursor.settings →
      d₁.cursor.limit = d.cursor.limit ∧ d₁.cursor.count = d.cursor.count :=
    fun hs => ⟨congrArg CursorSettings.limit hs, congrArg CursorSettings.count hs⟩
  have hroom : ∀ x : Bson, b = some x → d.cursor.limit ≠ 0 → (out ++ [x]).length ≤ d.cursor.limit := by
    intro x hb hl
    have hle := h.limit hl
    have := hlimit (by rw [hb]; rfl) hl
    rw [List.length_append, List.length_singleton]
    omega
  cases ha with
  | limited hne hle client same rpc reader sent failed done =>
    obtain ⟨hl, -⟩ := hsettled same
    refine ⟨[], ?_, fun _ => Or.inr done⟩
    rw [List.append_nil, Option.toList_none, List.append_nil]
    constructor
    case plain => exact (h.plain.of_settings same (by rw [client])).counted
    case limit_lt => exact hl ▸ hlt
    case asked => exact ⟨log, hasked, Or.inl (by rw [← hlog, ← client]; rfl)⟩
    case docs =>
      rw [h.docs, Driver.remaining, Driver.remaining, ← reader]
      rfl
    case sent =>
      refine fun _ => ⟨?_, fun r hr => rpc.trans (hlast r hr)⟩
      rw [← hsent, ← sent]
      rfl
    case unasked => exact fun _ hrs => (congrArg Rpc.cursorId rpc).trans (h.unasked hfailed hrs)
    case reader => exact fun _ hs => reader ▸ h.reader hfailed (sent ▸ hs)
    case first => exact fun _ hd => absurd (hd.symm.trans done) Bool.false_ne_true
    case limit => exact fun hne => hl ▸ h.limit (hl ▸ hne)
    case count => exact fun _ hd => absurd (hd.symm.trans done) Bool.false_ne_true
    case ended =>
      refine fun _ _ => Or.inl ⟨hl.symm ▸ hne, ?_⟩
      have := h.limit hne
      show out.length = d'.cursor.limit
      rw [hl]
      omega
  | @read x _ docs client same rpc reader sent failed done =>
    obtain ⟨hl, hc⟩ := hsettled same
    have hrs : rs ≠ [] := by
      rintro rfl
      have := h.docs
      rw [docs] at this
      simp at this
    refine ⟨[], ?_, nofun⟩
    rw [List.append_nil, Option.toList_some]
    constructor
    case plain => exact (h.plain.of_settings same (by rw [client])).counted
    case limit_lt => exact hl ▸ hlt
    case asked => exact ⟨log, hasked, Or.inl (by rw [← hlog, ← client]; rfl)⟩
    case docs =>
      rw [h.docs, docs, List.append_assoc]
      rfl
    case sent =>
      refine fun _ => ⟨?_, fun r hr => rpc.trans (hlast r hr)⟩
      rw [← hsent, ← sent]
      rfl
    case unasked => exact fun _ hnil => absurd hnil hrs
    case reader => exact fun _ hs => reader.trans (h.reader hfailed (sent ▸ hs))
    case first =>
      intro _ _ hs
      exact absurd ((sent ▸ hsent.mpr hrs).symm.trans hs) (by simp)
    case limit => exact fun hne => hl ▸ hroom x rfl (hl ▸ hne)
    case count =>
      intro _ _
      show (d'.cursor.count + 1) % 2 ^ 32 = _
      rw [hc, hcount, List.length_append, List.length_singleton, Nat.mod_add_mod]
    case ended => exact fun _ hd => absurd (done.symm.trans hd) Bool.false_ne_true
  | broken docs hb =>
    obtain ⟨hl, -⟩ := hsettled hb.same
    refine ⟨[], ?_, fun _ => Or.inl hb.failed⟩
    rw [List.append_nil, Option.toList_none, List.append_nil]
    have hnot : ∀ {P : Prop}, d'.counted.cursor.failed = false → P :=
      fun hf => absurd (hf.symm.trans hb.failed) Bool.false_ne_true
    constructor
    case plain => exact (h.plain.of_settings hb.same hb.client).counted
    case limit_lt => exact hl ▸ hlt
    case asked =>
      refine ⟨log, hasked, ?_⟩
      rcases hb.log with hb' | ⟨r, hasks, hb'⟩
      · exact Or.inl (hb'.trans hlog)
      · exact Or.inr ⟨hb.failed, r, hasks.unanswered hsent hlast (h.first hfailed hdone), by rw [← hlog]; exact hb'⟩
    case docs =>
      rw [h.docs, Driver.remaining, Driver.remaining, ← hb.reader]
      rfl
    case sent => exact hnot
    case unasked => exact hnot
    case reader => exact hnot
    case first => exact hnot
    case limit => exact fun hne => hl ▸ h.limit (hl ▸ hne)
    case count => exact hnot
    case ended => exact hnot
  | ended docs hs client same reader rpc sent hend =>
    obtain ⟨hl, -⟩ := hsettled same
    have hstop : d'.Stopped := hend.imp id fun hd => hd.2.1
    refine ⟨[], ?_, fun _ => hstop⟩
    rw [List.append_nil, Option.toList_none, List.append_nil]
    have hnot : ∀ {P : Prop}, d'.counted.cursor.failed = false → d'.counted.cursor.done = false → P := by
      intro P hf hd
      rcases hstop with hs | hs
      · exact absurd (hf.symm.trans hs) Bool.false_ne_true
      · exact absurd (hd.symm.trans hs) Bool.false_ne_true
    constructor
    case plain => exact (h.plain.of_settings same (by rw [client])).counted
    case limit_lt => exact hl ▸ hlt
    case asked => exact ⟨log, hasked, Or.inl (by rw [← hlog, ← client]; rfl)⟩
    case docs =>
      rw [h.docs, Driver.remaining, Driver.remaining, ← reader]
      rfl
    case sent =>
      refine fun _ => ⟨?_, fun r hr => rpc.trans (hlast r hr)⟩
      rw [← hsent, ← sent]
      rfl
    case unasked => exact fun _ hrs => (congrArg Rpc.cursorId rpc).trans (h.unasked hfailed hrs)
    case reader => exact fun _ hs => reader ▸ h.reader hfailed (sent ▸ hs)
    case first => exact fun hf hd => hnot hf hd
    case limit => exact fun hne => hl ▸ h.limit (hl ▸ hne)
    case count => exact hnot
    case ended =>
      intro hf _
      obtain ⟨rs, r, rfl⟩ := (List.eq_nil_or_concat rs).resolve_left (hsent.mp hs)
      have hr : d.cursor.rpc = r := hlast r (by simp)
      have hid : d.cursor.rpc.cursorId = 0 := (hend.resolve_left fun ht => by
        rw [show d'.cursor.failed = false from hf] at ht
        cases ht).2.2
      refine Or.inr ⟨?_, r, by simp, Or.inl (hr ▸ hid)⟩
      rw [← docs, Driver.remaining, Driver.remaining, ← reader]
      rfl
  | @refilled req rpc _ d₁ _ docs asks href client same rpc_eq sent reader first hend =>
    have hsame := same.trans href.same
    obtain ⟨hl, hc⟩ := hsettled hsame
    have hstop : b = none → d'.Stopped := by
      rintro rfl
      rcases hend with ⟨hsome, -⟩ | ⟨-, -, hf | ⟨-, hd⟩⟩
      · cases hsome
      · exact Or.inl hf
      · exact Or.inr hd
    refine ⟨[rpc], ?_, hstop⟩
    constructor
    case plain => exact (h.plain.of_settings hsame (by rw [client, href.client])).counted
    case limit_lt => exact hl ▸ hlt
    case asked =>
      refine ⟨log ++ [req], hasked.snoc hlog hsent hlast (h.first hfailed hdone) asks href.recv, Or.inl ?_⟩
      rw [← List.append_assoc, ← hlog, ← href.log, ← client]
      rfl
    case docs =>
      rw [List.flatMap_append, h.docs, docs, List.append_nil, List.flatMap_singleton, first, List.append_assoc]
      rfl
    case sent =>
      refine fun _ => ⟨⟨fun _ => by simp, fun _ => sent.trans href.sent⟩, fun r hr => ?_⟩
      obtain rfl : rpc = r := by simpa using hr
      exact rpc_eq.trans href.rpc_eq
    case unasked => exact fun _ hnil => absurd hnil (by simp)
    case reader => exact fun _ _ => reader
    case first =>
      intro _ _ hs
      exact absurd ((sent.trans href.sent).symm.trans hs) (by simp)
    case limit =>
      intro hne
      cases b with
      | none => simpa using hl ▸ h.limit (hl ▸ hne)
      | some x => exact hl ▸ hroom x rfl (hl ▸ hne)
    case count =>
      intro hf hd
      cases b with
      | none =>
        rcases hstop rfl with hs | hs
        · exact absurd (hf.symm.trans hs) Bool.false_ne_true
        · exact absurd (hd.symm.trans hs) Bool.false_ne_true
      | some x =>
        show (d'.cursor.count + 1) % 2 ^ 32 = _
        rw [hc, hcount, Option.toList_some, List.length_append, List.length_singleton, Nat.mod_add_mod]
    case ended =>
      intro hf hd
      rcases hend with ⟨-, -, hd'⟩ | ⟨rfl, hempty, -⟩
      · exact absurd (hd'.symm.trans hd) Bool.false_ne_true
      · refine Or.inr ⟨?_, rpc, by simp, Or.inr hempty⟩
        rw [hempty] at first
        exact first.symm

/-- A call keeps it; a cursor that has ended returns no document. -/
theorem Tracks.next {b : Option Bson} (h : Tracks net base q d rs out) (hn : driverNext net d = (b, d')) :
    (∃ more, Tracks net base q d' (rs ++ more) (out ++ b.toList)) ∧ d'.cursor.limit = d.cursor.limit ∧
      (b.isSome → d'.cursor.failed = false) ∧ (b = none → d'.Stopped) ∧
      (d.Stopped → b = none ∧ d'.cursor.failed = d.cursor.failed) := by
  by_cases hfailed : d.cursor.failed = true
  · unfold driverNext at hn
    rw [if_pos hfailed] at hn
    cases hn
    exact ⟨⟨[], by simpa using h⟩, rfl, by simp, fun _ => Or.inl hfailed, fun _ => ⟨rfl, rfl⟩⟩
  · rw [Bool.not_eq_true] at hfailed
    rw [driverNext_eq hfailed] at hn
    cases hn
    by_cases hdone : d.cursor.done = true
    · have hstopped : cursorNext net d = (none, d.setError (bsonSetError BsonError.cursor BsonError.invalidCursor
          (keyBytes "Cannot advance a completed or failed cursor."))) := by
        unfold cursorNext
        rw [if_pos (by simp [hdone])]
      rw [hstopped]
      refine ⟨⟨[], ?_⟩, rfl, by simp, fun _ => Or.inr hdone, fun _ => ⟨rfl, rfl⟩⟩
      rw [List.append_nil, Option.toList_none, List.append_nil]
      have hnot : ∀ {P : Prop}, d.cursor.done = false → P := fun hd => absurd (hd.symm.trans hdone) Bool.false_ne_true
      exact ⟨⟨h.plain.tailable, h.plain.exhaust, h.plain.inExhaust, h.plain.client⟩, h.limit_lt, h.asked, h.docs, h.sent,
        h.unasked, h.reader, fun _ hd => hnot hd, h.limit, fun _ hd => hnot hd, h.ended⟩
    · rw [Bool.not_eq_true] at hdone
      have ha : Advance net d (cursorNext net d).1 (cursorNext net d).2 :=
        cursorNext_advance h.plain hfailed hdone (h.reader hfailed) rfl
      have hlimit : (cursorNext net d).1.isSome → d.cursor.limit ≠ 0 → d.cursor.count < d.cursor.limit := by
        intro hsome hne
        obtain ⟨x, hx⟩ := Option.isSome_iff_exists.mp hsome
        have hcall : cursorNext net d = (some x, (cursorNext net d).2) := Prod.ext hx rfl
        exact cursorNext_limit hcall hne
      obtain ⟨more, htracks, hstop⟩ := h.advance hfailed hdone hlimit ha
      have hvalue : (cursorNext net d).1.isSome → (cursorNext net d).2.counted.cursor.failed = false := by
        intro hsome
        obtain ⟨x, hx⟩ := Option.isSome_iff_exists.mp hsome
        rw [hx] at ha
        exact ha.failed
      refine ⟨⟨more, htracks⟩, congrArg CursorSettings.limit ha.settings, hvalue, hstop, fun hs => ?_⟩
      rcases hs with hs | hs
      · exact absurd (hfailed.symm.trans hs) Bool.false_ne_true
      · exact absurd (hdone.symm.trans hs) Bool.false_ne_true

/-- A cursor that has ended stays so. -/
theorem Tracks.run_stopped (h : Tracks net base q d rs out) (hs : d.Stopped) (n : Nat) :
    (Pull.run (driverNext net) n d).1 = List.replicate n none ∧ (Pull.run (driverNext net) n d).2.cursor.limit = d.cursor.limit ∧
      (Pull.run (driverNext net) n d).2.Stopped ∧ ∃ more, Tracks net base q (Pull.run (driverNext net) n d).2 (rs ++ more) out := by
  induction n generalizing d rs with
  | zero => exact ⟨rfl, rfl, hs, [], by rwa [List.append_nil]⟩
  | succ n ih =>
    have hnext : driverNext net d = ((driverNext net d).1, (driverNext net d).2) := rfl
    obtain ⟨⟨more, htracks⟩, hlimit, -, hstop, hnone⟩ := h.next hnext
    have hb : (driverNext net d).1 = none := (hnone hs).1
    rw [hb, Option.toList_none, List.append_nil] at htracks
    obtain ⟨hrun, hlimit', hs', more', htracks'⟩ := ih htracks (hstop hb)
    refine ⟨?_, hlimit'.trans hlimit, hs', more ++ more', ?_⟩
    · rw [Pull.run_succ, hb, hrun, List.replicate_succ]
    · rw [← List.append_assoc]
      exact htracks'

theorem Tracks.run (h : Tracks net base q d rs out) (n : Nat) :
    ∃ docs more, (Pull.run (driverNext net) n d).1 = docs.map some ++ List.replicate (n - docs.length) none ∧
      Tracks net base q (Pull.run (driverNext net) n d).2 (rs ++ more) (out ++ docs) ∧
      (Pull.run (driverNext net) n d).2.cursor.limit = d.cursor.limit ∧
        (docs.length < n → (Pull.run (driverNext net) n d).2.Stopped) := by
  induction n generalizing d rs out with
  | zero => exact ⟨[], [], rfl, by simpa using h, rfl, by simp⟩
  | succ n ih =>
    have hnext : driverNext net d = ((driverNext net d).1, (driverNext net d).2) := rfl
    obtain ⟨⟨more, htracks⟩, hlimit, -, hstop, -⟩ := h.next hnext
    cases hb : (driverNext net d).1 with
    | none =>
      rw [hb, Option.toList_none, List.append_nil] at htracks
      obtain ⟨hrun, hlimit', hs', more', htracks'⟩ := htracks.run_stopped (hstop hb) n
      refine ⟨[], more ++ more', ?_, ?_, hlimit'.trans hlimit, fun _ => hs'⟩
      · rw [Pull.run_succ, hb, hrun]
        rfl
      · rw [← List.append_assoc, List.append_nil]
        exact htracks'
    | some x =>
      rw [hb, Option.toList_some] at htracks
      obtain ⟨docs, more', hrun, htracks', hlimit', hs'⟩ := ih htracks
      refine ⟨x :: docs, more ++ more', ?_, ?_, hlimit'.trans hlimit,
        fun hlt => hs' (by rw [List.length_cons] at hlt; omega)⟩
      · rw [Pull.run_succ, hb, hrun, List.length_cons, Nat.succ_sub_succ]
        rfl
      · rw [← List.append_assoc]
        simpa using htracks'

/-- A cursor that was not advanced yet, of a query that is neither tailable nor in exhaust mode. -/
structure Unread (d : Driver) : Prop where
  plain : PlainCursor d
  limit_lt : d.cursor.limit < 2 ^ 32
  count : d.cursor.count = 0
  sent : d.cursor.sent = false
  done : d.cursor.done = false
  failed : d.cursor.failed = false
  rpc : d.cursor.rpc.cursorId = 0
  reader : d.cursor.reader = none

theorem unread_new {client : Client} (isCommand : Bool) {flags : Nat} (skip : Nat) {limit : Nat} (batchSize : Nat)
    (query : Bytes) (fields : Option Bytes) (htailable : flags.testBit 1 = false) (hexhaust : flags.testBit 6 = false)
    (hlimit : limit < 2 ^ 32) (hclient : client.inExhaust = false) :
    Unread ⟨client, .new isCommand flags skip limit batchSize query fields⟩ :=
  ⟨⟨htailable, hexhaust, rfl, hclient⟩, hlimit, rfl, rfl, rfl, rfl, rfl, rfl⟩

theorem Unread.tracks (h : Unread d) (net : Connection) : Tracks net d.client.log (queryRequest d.cursor) d [] [] := by
  constructor
  case plain => exact h.plain
  case limit_lt => exact h.limit_lt
  case asked => exact ⟨[], .none, Or.inl (List.append_nil _).symm⟩
  case docs =>
    rw [Driver.remaining, h.reader]
    rfl
  case sent => exact fun _ => ⟨by simp [h.sent], by simp⟩
  case unasked => exact fun _ _ => h.rpc
  case reader => exact fun _ hs => absurd (h.sent.symm.trans hs) Bool.false_ne_true
  case first => exact fun _ _ _ => rfl
  case limit => exact fun _ => Nat.zero_le _
  case count => exact fun _ _ => h.count
  case ended => exact fun _ hd => absurd (h.done.symm.trans hd) Bool.false_ne_true

/-- Whatever the server answers, calls of `mongoc_cursor_next` return the documents of its replies in their order, each
once, as many as the limit allows, and then none. One query is sent, and a further request only with the identity of a
cursor that the reply before it gave; only the last one, of a cursor that failed, may have no reply. -/
theorem driverRun_unread (h : Unread d) (net : Connection) (n : Nat) :
    ∃ docs rs log, (Pull.run (driverNext net) n d).1 = docs.map some ++ List.replicate (n - docs.length) none ∧
      Asked net d.client.log (queryRequest d.cursor) rs log ∧
      ((Pull.run (driverNext net) n d).2.client.log = d.client.log ++ log ∨ (Pull.run (driverNext net) n d).2.cursor.failed = true ∧
        ∃ r, Unanswered (queryRequest d.cursor) rs r ∧
          (Pull.run (driverNext net) n d).2.client.log = d.client.log ++ log ++ [r]) ∧
      rs.flatMap Rpc.docs = docs ++ (Pull.run (driverNext net) n d).2.remaining ∧
      (d.cursor.limit ≠ 0 → docs.length ≤ d.cursor.limit) ∧
      (docs.length < n → (Pull.run (driverNext net) n d).2.cursor.failed = true ∨
        (d.cursor.limit ≠ 0 ∧ docs.length = d.cursor.limit) ∨
        ((Pull.run (driverNext net) n d).2.remaining = [] ∧ ∃ r ∈ rs.getLast?, r.cursorId = 0 ∨ r.docs = [])) := by
  obtain ⟨docs, rs, hrun, htracks, hlimit, hstop⟩ := (h.tracks net).run n
  rw [List.nil_append, List.nil_append] at htracks
  obtain ⟨log, hasked, hlog⟩ := htracks.asked
  rw [← hlimit]
  refine ⟨docs, rs, log, hrun, hasked, hlog, htracks.docs, htracks.limit, fun hlt => ?_⟩
  cases hfailed : (Pull.run (driverNext net) n d).2.cursor.failed with
  | true => exact Or.inl rfl
  | false =>
    rcases hstop hlt with hs | hs
    · exact absurd (hfailed.symm.trans hs) Bool.false_ne_true
    · exact Or.inr (htracks.ended hfailed hs)

/-- A server that has one document in each of two replies. -/
def twoReplies : Connection where
  warmUp _ := none
  sendv _ _ requestId := .ok requestId
  recv log := .ok ⟨opcodeReply, 0, log.length, 0, if log.length = 1 then 7 else 0, [5, 0, 0, 0, 0]⟩

/-- A cursor for all documents. -/
def findAll : Driver := ⟨⟨false, 0, []⟩, .new false 0 0 0 0 [5, 0, 0, 0, 0] none⟩

theorem driverRun_twoReplies : (Pull.run (driverNext twoReplies) 3 findAll).1.map Option.isSome = [true, true, false] ∧
    ∃ docs rs log, (Pull.run (driverNext twoReplies) 3 findAll).1 = docs.map some ++ List.replicate (3 - docs.length) none ∧
      Asked twoReplies [] (queryRequest findAll.cursor) rs log ∧
      ((Pull.run (driverNext twoReplies) 3 findAll).2.client.log = [] ++ log ∨
        (Pull.run (driverNext twoReplies) 3 findAll).2.cursor.failed = true ∧
          ∃ r, Unanswered (queryRequest findAll.cursor) rs r ∧
            (Pull.run (driverNext twoReplies) 3 findAll).2.client.log = [] ++ log ++ [r]) ∧
      rs.flatMap Rpc.docs = docs ++ (Pull.run (driverNext twoReplies) 3 findAll).2.remaining ∧
      (findAll.cursor.limit ≠ 0 → docs.length ≤ findAll.cursor.limit) ∧
      (docs.length < 3 → (Pull.run (driverNext twoReplies) 3 findAll).2.cursor.failed = true ∨
        (findAll.cursor.limit ≠ 0 ∧ docs.length = findAll.cursor.limit) ∨
        ((Pull.run (driverNext twoReplies) 3 findAll).2.remaining = [] ∧ ∃ r ∈ rs.getLast?, r.cursorId = 0 ∨ r.docs = [])) :=
  ⟨by decide, driverRun_unread (unread_new false 0 0 _ none (by decide) (by decide) (by decide) rfl) twoReplies 3⟩

/-- A cursor that did not fail asks the server to close its cursor exactly when the last reply has left it open there,
and once. -/
theorem driverDestroy_unread (h : Unread d) {net : Connection} (hsend : ∀ log r n, ∃ hint, net.sendv log r n = .ok hint)
    (n : Nat) (hfailed : (Pull.run (driverNext net) n d).2.cursor.failed = false) :
    ∃ rs log, Asked net d.client.log (queryRequest d.cursor) rs log ∧
      (driverDestroy net (Pull.run (driverNext net) n d).2).log =
        d.client.log ++ (log ++ (rs.getLast?.filter (·.cursorId ≠ 0)).toList.map (.killCursors ·.cursorId)) := by
  obtain ⟨docs, rs, -, htracks, -, -⟩ := (h.tracks net).run n
  rw [List.nil_append, List.nil_append] at htracks
  generalize (Pull.run (driverNext net) n d).2 = d' at htracks hfailed
  obtain ⟨log, hasked, hlog⟩ := htracks.asked
  have hlog : d'.client.log = d.client.log ++ log := hlog.resolve_right fun hf => by simp [hfailed] at hf
  refine ⟨rs, log, hasked, ?_⟩
  have hopen : rs.getLast?.filter (·.cursorId ≠ 0) = if d'.cursor.rpc.cursorId ≠ 0 then some d'.cursor.rpc else none := by
    rcases List.eq_nil_or_concat rs with rfl | ⟨rs, r, rfl⟩
    · rw [htracks.unasked hfailed rfl]
      rfl
    · have hr : d'.cursor.rpc = r := (htracks.sent hfailed).2 r (by simp)
      rw [hr, List.concat_eq_append, List.getLast?_append, List.getLast?_singleton, Option.some_or, Option.filter]
      simp
  rw [hopen, driverDestroy, if_neg (by simp [htracks.plain.inExhaust])]
  split
  · next hid =>
    obtain ⟨hint, hsent⟩ := hsend d'.client.log (.killCursors d'.cursor.rpc.cursorId) ((d'.client.requestId + 1) % 2 ^ 32)
    rw [clientSendv, if_neg (by simp [htracks.plain.client])]
    dsimp only
    rw [hsent]
    simp [hlog]
  · simpa using hlog

theorem driverDestroy_findAll :
    (driverDestroy twoReplies (Pull.run (driverNext twoReplies) 1 findAll).2).log =
        [queryRequest findAll.cursor, .killCursors 7] ∧
      ∃ rs log, Asked twoReplies findAll.client.log (queryRequest findAll.cursor) rs log ∧
        (driverDestroy twoReplies (Pull.run (driverNext twoReplies) 1 findAll).2).log =
          findAll.client.log ++ (log ++ (rs.getLast?.filter (·.cursorId ≠ 0)).toList.map (.killCursors ·.cursorId)) :=
  ⟨by decide, driverDestroy_unread (unread_new false 0 0 _ none (by decide) (by decide) (by decide) rfl)
    (fun _ _ n => ⟨n, rfl⟩) 1 (by decide)⟩

end Monary
