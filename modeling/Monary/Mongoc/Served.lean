import Monary.Mongoc.DriverRuns

/-!
# Servers that answer in batches

* `Serves` : a connection that answers the further requests of a cursor with the batches of a result; `ServesQuery` :
  and its query with the first one;
* `Active` : a cursor between two calls, with what is left of its reply; `Active.cursorNext` : what a call does;
* `pulled` : the documents of the batches up to the first one that is empty;
* `driverNext_served` : the calls give these documents, as many as the limit allows, and then none, without an error.
-/

namespace Monary
open ByteSeq CInt

/-- A reply with the `k`-th batch. The cursor of the server is closed with the last one. -/
structure AnswersWith (id : Int) (batches : List (List Bson)) (k requestId : Nat) (rpc : Rpc) : Prop where
  opcode : rpc.opcode = opcodeReply
  responseTo : rpc.responseTo = requestId
  cursorNotFound : rpc.cursorNotFound = false
  queryFailure : rpc.queryFailure = false
  cursorId : rpc.cursorId = if k + 1 < batches.length then id else 0
  documents : rpc.documents = (batches.getD k []).flatMap Bson.data

/-- The requests of a cursor that has taken `k + 1` replies; how many documents it asks for does not matter. -/
def asking (base : List Request) (q : Request) (id : Int) (sizes : List Int) : List Request :=
  base ++ q :: sizes.map (.getMore · id)

/-- The connection answers every further request with the next batch. The number of the request before `q` is `first`,
and `base` was sent before. -/
structure Serves (net : Connection) (base : List Request) (q : Request) (first : Nat) (id : Int)
    (batches : List (List Bson)) : Prop where
  id_ne : id ≠ 0
  nonempty : batches ≠ []
  warmUp : ∀ log, net.warmUp log = none
  sendv : ∀ log r requestId, ∃ hint, net.sendv log r requestId = .ok hint
  framed : ∀ batch ∈ batches, (∀ b ∈ batch, Framed b) ∧ (batch.flatMap Bson.data).length < 2 ^ 31
  more : ∀ sizes : List Int, sizes ≠ [] → sizes.length < batches.length →
    ∃ rpc, net.recv (asking base q id sizes) = .ok rpc ∧
      AnswersWith id batches sizes.length ((first + sizes.length + 1) % 2 ^ 32) rpc

/-- And the query with the first one. -/
structure ServesQuery (net : Connection) (base : List Request) (q : Request) (first : Nat) (id : Int)
    (batches : List (List Bson)) : Prop extends Serves net base q first id batches where
  query : ∃ rpc, net.recv (base ++ [q]) = .ok rpc ∧ AnswersWith id batches 0 ((first + 1) % 2 ^ 32) rpc

/-- The documents of the batches up to the first one that is empty. -/
def pulled (batches : List (List Bson)) : List Bson := (batches.takeWhile (!·.isEmpty)).flatten

@[simp] theorem pulled_nil : pulled [] = [] := rfl

@[simp] theorem pulled_empty (batches : List (List Bson)) : pulled ([] :: batches) = [] := rfl

@[simp] theorem pulled_cons (b : Bson) (batch : List Bson) (batches : List (List Bson)) :
    pulled ((b :: batch) :: batches) = (b :: batch) ++ pulled batches := rfl

/-- Nothing is lost when no batch is empty. -/
theorem pulled_eq_flatten {batches : List (List Bson)} (h : ∀ batch ∈ batches, batch ≠ []) :
    pulled batches = batches.flatten := by
  have hall : ∀ batch ∈ batches, (!batch.isEmpty) = true := fun batch hb => by simpa using h batch hb
  rw [pulled, List.takeWhile_eq_self_iff.mpr hall]

/-- The reader has the documents in front of it. -/
def Driver.Reads (d : Driver) (rest : List Bson) : Prop :=
  ∃ pre : Bytes, d.cursor.reader = some ⟨pre ++ rest.flatMap Bson.data, pre.length⟩ ∧ (∀ b ∈ rest, Framed b) ∧
    (pre ++ rest.flatMap Bson.data).length < 2 ^ 31

section
variable {net : Connection} {base : List Request} {q : Request} {first : Nat} {id : Int} {batches : List (List Bson)}
  {d : Driver} {k : Nat} {rest : List Bson}

/-! ## Reads -/

theorem Driver.Reads.readNext_cons {b : Bson} (h : d.Reads (b :: rest)) :
    ∃ r, d.readNext = (some b, { d with cursor := { d.cursor with reader := some r, endOfEvent := false } }) ∧
      Driver.Reads { d with cursor := { d.cursor with reader := some r, endOfEvent := false } } rest := by
  obtain ⟨pre, hreader, hframed, hsmall⟩ := h
  rw [List.flatMap_cons] at hreader hsmall
  refine ⟨⟨pre ++ (b.data ++ rest.flatMap Bson.data), pre.length + b.data.length⟩, ?_, pre ++ b.data, ?_, ?_, ?_⟩
  · rw [Driver.readNext, hreader]
    dsimp only
    rw [bsonReaderRead_framed (hframed b List.mem_cons_self) hsmall]
  · simp
  · exact fun b hb => hframed b (List.mem_cons_of_mem _ hb)
  · simpa using hsmall

theorem Driver.Reads.readNext_nil (h : d.Reads []) :
    d.readNext = (none, { d with cursor := { d.cursor with endOfEvent := true } }) := by
  obtain ⟨pre, hreader, -, -⟩ := h
  rw [List.flatMap_nil, List.append_nil] at hreader
  rw [Driver.readNext, hreader]
  dsimp only
  rw [bsonReaderRead_end, hreader]

/-! ## Exchanges -/

theorem Serves.clientSendv (hs : Serves net base q first id batches) {k : Client} (hk : k.inExhaust = false) (r : Request) :
    ∃ hint, clientSendv net k r =
      (.ok hint, { k with requestId := (k.requestId + 1) % 2 ^ 32, log := k.log ++ [r] }) := by
  obtain ⟨hint, hsend⟩ := hs.sendv k.log r ((k.requestId + 1) % 2 ^ 32)
  refine ⟨hint, ?_⟩
  rw [Monary.clientSendv, if_neg (by simp [hk])]
  dsimp only
  rw [hsend]

theorem AnswersWith.unwrap {requestId : Nat} {rpc : Rpc} (ha : AnswersWith id batches k requestId rpc) :
    mongocCursorUnwrapFailure false rpc = none := by
  rw [mongocCursorUnwrapFailure, if_neg (not_not.mpr ha.opcode), if_neg (by simp [ha.queryFailure]), if_neg (by simp),
    ha.cursorNotFound]
  simp

theorem AnswersWith.receiveReply {requestId : Nat} {rpc : Rpc} (ha : AnswersWith id batches k requestId rpc)
    (hrecv : net.recv d.client.log = .ok rpc) (hcommand : d.cursor.isCommand = false) :
    receiveReply net d requestId = (none, { d with cursor := { d.cursor with rpc } }) := by
  rw [Monary.receiveReply, hrecv]
  dsimp only
  rw [if_neg (not_not.mpr ha.opcode), if_neg (not_not.mpr ha.responseTo), hcommand, ha.unwrap]

/-- The reader of a reply. -/
theorem AnswersWith.reads {requestId : Nat} {rpc : Rpc} (ha : AnswersWith id batches k requestId rpc)
    (hs : Serves net base q first id batches) (hk : k < batches.length)
    (hreader : d.cursor.reader = some ⟨rpc.documents, 0⟩) : d.Reads (batches.getD k []) := by
  obtain ⟨hframed, hsmall⟩ := hs.framed (batches.getD k []) (by rw [List.getD_eq_getElem _ _ hk]; exact List.getElem_mem hk)
  refine ⟨[], ?_, hframed, hsmall⟩
  rw [hreader, ha.documents]
  rfl

/-! ## One call -/

/-- A cursor between two calls: it has taken `k` replies, and the documents `rest` of the last one are left. -/
structure Active (base : List Request) (q : Request) (first : Nat) (id : Int) (batches : List (List Bson)) (k : Nat)
    (rest : List Bson) (d : Driver) : Prop where
  plain : PlainCursor d
  isCommand : d.cursor.isCommand = false
  failed : d.cursor.failed = false
  done : d.cursor.done = false
  sent : d.cursor.sent = true
  reads : d.Reads rest
  pos : 0 < k
  le : k ≤ batches.length
  cursorId : d.cursor.rpc.cursorId = if k < batches.length then id else 0
  asked : ∃ sizes : List Int, sizes.length + 1 = k ∧ d.client.log = asking base q id sizes
  requestId : d.client.requestId = (first + k) % 2 ^ 32

theorem Active.of_read (h : Active base q first id batches k rest d) {rest' : List Bson} {r : Option BsonReader}
    {e done : Bool} (hdone : done = false)
    (hreads : Driver.Reads { d with cursor := { d.cursor with reader := r, endOfEvent := e } } rest') :
    Active base q first id batches k rest' { d with cursor := { d.cursor with reader := r, endOfEvent := e, done } } := by
  obtain ⟨⟨ht, hx, hin, hclient⟩, hcommand, hfailed, -, hsent, -, hpos, hle, hid, hasked, hrequest⟩ := h
  exact ⟨⟨ht, hx, hin, hclient⟩, hcommand, hfailed, hdone, hsent, hreads, hpos, hle, hid, hasked, hrequest⟩

/-- A further request. -/
theorem Active.getMore (h : Active base q first id batches k rest d) (hs : Serves net base q first id batches)
    (hk : k < batches.length) :
    ∃ d', mongocCursorGetMore net d = (true, d') ∧ d'.cursor.settings = d.cursor.settings ∧
      Active base q first id batches (k + 1) (batches.getD k []) d' := by
  have hid : d.cursor.rpc.cursorId = id := by rw [h.cursorId, if_pos hk]
  obtain ⟨sizes, hlength, hlog⟩ := h.asked
  obtain ⟨hint, hsend⟩ := hs.clientSendv h.plain.client (.getMore (nReturn d.cursor) id)
  have hlog' : d.client.log ++ [.getMore (nReturn d.cursor) id] = asking base q id (sizes ++ [nReturn d.cursor]) := by
    rw [hlog]
    simp [asking]
  have hlength' : (sizes ++ [nReturn d.cursor]).length = k := by simpa using hlength
  obtain ⟨rpc, hrecv, hanswer⟩ := hs.more (sizes ++ [nReturn d.cursor]) (by simp) (by omega)
  rw [← hlog'] at hrecv
  rw [hlength'] at hanswer
  have hrequest : (d.client.requestId + 1) % 2 ^ 32 = (first + k + 1) % 2 ^ 32 := by
    rw [h.requestId, Nat.mod_add_mod]
  rw [hrequest] at hsend
  let d₁ : Driver := ⟨⟨d.client.inExhaust, (first + k + 1) % 2 ^ 32, d.client.log ++ [.getMore (nReturn d.cursor) id]⟩,
    { d.cursor with rpc }⟩
  have hreceive := hanswer.receiveReply (d := ⟨⟨d.client.inExhaust, (first + k + 1) % 2 ^ 32,
    d.client.log ++ [.getMore (nReturn d.cursor) id]⟩, d.cursor⟩) hrecv h.isCommand
  refine ⟨d₁.read, ?_, rfl, ?_⟩
  · rw [mongocCursorGetMore]
    dsimp only
    rw [if_neg (by simp [h.plain.inExhaust]), hs.warmUp]
    dsimp only
    rw [if_neg (by rw [hid]; exact hs.id_ne), hid, hsend]
    dsimp only
    rw [hreceive]
  · constructor
    case plain => exact ⟨h.plain.tailable, h.plain.exhaust, h.plain.inExhaust, h.plain.client⟩
    case isCommand => exact h.isCommand
    case failed => exact h.failed
    case done => exact h.done
    case sent => exact h.sent
    case reads => exact hanswer.reads hs hk rfl
    case pos => exact Nat.succ_pos k
    case le => exact hk
    case cursorId => exact hanswer.cursorId
    case asked => exact ⟨sizes ++ [nReturn d.cursor], by rw [hlength'], hlog'⟩
    case requestId => exact congrArg (· % 2 ^ 32) (Nat.add_assoc first k 1)

/-- The state after the query, with its reply. -/
def queriedWith (d : Driver) (requestId : Nat) (q : Request) (hint : Nat) (rpc : Rpc) : Driver :=
  Driver.read ⟨⟨d.client.inExhaust || d.cursor.exhaust, requestId, d.client.log ++ [q]⟩, { d.cursor with
    hint
    rpc
    inExhaust := d.cursor.inExhaust || d.cursor.exhaust
    done := false
    sent := true }⟩

theorem queriedWith_plain (hp : PlainCursor d) {requestId hint : Nat} {rpc : Rpc} :
    PlainCursor (queriedWith d requestId q hint rpc) := by
  refine ⟨hp.tailable, hp.exhaust, ?_, ?_⟩
  · simp [queriedWith, Driver.read, hp.exhaust, hp.inExhaust]
  · simp [queriedWith, Driver.read, hp.exhaust, hp.client]

theorem queriedWith_settings (hp : PlainCursor d) {requestId hint : Nat} {rpc : Rpc} :
    (queriedWith d requestId q hint rpc).cursor.settings = d.cursor.settings := by
  simp [queriedWith, CursorState.settings, Driver.read, hp.exhaust]

/-- The query, where its reply has the opcode and the number and reports no failure. -/
theorem Serves.query (hs : Serves net base q first id batches) (h : Unread d) (hlog : d.client.log = base)
    (hfirst : d.client.requestId = first) (hq : queryRequest d.cursor = q) {rpc : Rpc}
    (hrecv : net.recv (base ++ [q]) = .ok rpc) (hopcode : rpc.opcode = opcodeReply)
    (hresponse : rpc.responseTo = (first + 1) % 2 ^ 32)
    (hunwrap : mongocCursorUnwrapFailure d.cursor.isCommand rpc = none) :
    ∃ hint, d.fetch net = (true, queriedWith d ((first + 1) % 2 ^ 32) q hint rpc) := by
  obtain ⟨hint, hsend⟩ := hs.clientSendv h.plain.client q
  rw [hlog, hfirst] at hsend
  refine ⟨hint, ?_⟩
  rw [Driver.fetch, if_pos (by simp [h.sent]), mongocCursorQuery, hs.warmUp]
  dsimp only
  rw [← queryRequest, hq, hsend]
  dsimp only
  rw [receiveReply, hrecv]
  dsimp only
  rw [if_neg (not_not.mpr hopcode), if_neg (not_not.mpr hresponse), hunwrap, ← hlog]
  rfl

/-- The query, and the first batch. -/
theorem ServesQuery.exchange (hs : ServesQuery net base q first id batches) (h : Unread d)
    (hcommand : d.cursor.isCommand = false) (hlog : d.client.log = base) (hfirst : d.client.requestId = first)
    (hq : queryRequest d.cursor = q) :
    ∃ d', d.fetch net = (true, d') ∧ d'.cursor.settings = d.cursor.settings ∧
      Active base q first id batches 1 (batches.getD 0 []) d' := by
  obtain ⟨rpc, hrecv, hanswer⟩ := hs.query
  obtain ⟨hint, hfetch⟩ := hs.toServes.query h hlog hfirst hq hrecv hanswer.opcode hanswer.responseTo
    (hcommand ▸ hanswer.unwrap)
  have hpos : 0 < batches.length := List.length_pos_iff.mpr hs.nonempty
  refine ⟨_, hfetch, queriedWith_settings h.plain, ?_⟩
  constructor
  case plain => exact queriedWith_plain h.plain
  case isCommand => exact hcommand
  case failed => exact h.failed
  case done => rfl
  case sent => rfl
  case reads => exact hanswer.reads hs.toServes hpos rfl
  case pos => exact Nat.one_pos
  case le => exact hpos
  case cursorId => exact hanswer.cursorId
  case asked => exact ⟨[], rfl, by rw [← hlog]; rfl⟩
  case requestId => rfl

/-- What is left of the documents under the limit. -/
def clip (c : CursorState) (docs : List Bson) : List Bson := if c.limit = 0 then docs else docs.take (c.limit - c.count)

/-- A cursor that has reached its end. -/
structure Over (d : Driver) : Prop where
  failed : d.cursor.failed = false
  done : d.cursor.done = true

/-- A cursor with the documents that are left. -/
inductive Pulls (base : List Request) (q : Request) (first : Nat) (id : Int) (batches : List (List Bson)) :
    Driver → List Bson → Prop
  | unread {d : Driver} (h : Unread d) (hcommand : d.cursor.isCommand = false) (hlog : d.client.log = base)
      (hfirst : d.client.requestId = first) (hq : queryRequest d.cursor = q) :
      Pulls base q first id batches d (clip d.cursor (pulled batches))
  | active {d : Driver} {k : Nat} {rest : List Bson} (h : Active base q first id batches k rest d)
      (hlimit : d.cursor.limit < 2 ^ 32) :
      Pulls base q first id batches d (clip d.cursor (rest ++ pulled (batches.drop k)))
  | ended {d : Driver} (h : Over d) : Pulls base q first id batches d []

/-- The documents of a reply that was just taken, or that is left: the first of them, or the end. -/
theorem Active.complete (h : Active base q first id batches k rest d) :
    (∃ b rest' d', rest = b :: rest' ∧ d.readNext.2.complete d.readNext.1 d.readNext.2.cursor.endOfEvent = (some b, d') ∧
        d'.cursor.settings = d.cursor.settings ∧ Active base q first id batches k rest' d') ∨
      ∃ d', rest = [] ∧ d.readNext.2.complete d.readNext.1 d.readNext.2.cursor.endOfEvent = (none, d') ∧ Over d' := by
  cases rest with
  | nil =>
    rw [h.reads.readNext_nil]
    refine Or.inr ⟨_, rfl, rfl, h.failed, ?_⟩
    show (true && (d.cursor.inExhaust && d.cursor.rpc.cursorId == 0 || true && !d.cursor.tailable)) = true
    simp [h.plain.tailable]
  | cons b rest =>
    obtain ⟨r, hread, hreads⟩ := h.reads.readNext_cons
    rw [hread]
    exact Or.inl ⟨b, rest, _, rfl, rfl, rfl, h.of_read rfl hreads⟩

/-- `_mongoc_cursor_next` between two calls. -/
theorem Active.cursorNext (h : Active base q first id batches k rest d) (hs : Serves net base q first id batches)
    (hlimit : ¬ (d.cursor.limit ≠ 0 ∧ d.cursor.limit ≤ d.cursor.count)) :
    (∃ b k' rest' d', cursorNext net d = (some b, d') ∧ d'.cursor.settings = d.cursor.settings ∧
        rest ++ pulled (batches.drop k) = b :: (rest' ++ pulled (batches.drop k')) ∧
        Active base q first id batches k' rest' d') ∨
      ∃ d', cursorNext net d = (none, d') ∧ rest ++ pulled (batches.drop k) = [] ∧ Over d' := by
  have hreader : d.cursor.reader.isSome = true := by
    obtain ⟨pre, hreader, -⟩ := h.reads
    rw [hreader]
    rfl
  rw [Monary.cursorNext, if_neg (by simp [h.done, h.failed]), if_neg (by simp [h.plain.client]), if_neg hlimit,
    if_pos hreader]
  cases rest with
  | cons b rest =>
    obtain ⟨r, hread, hreads⟩ := h.reads.readNext_cons
    rw [hread]
    exact Or.inl ⟨b, k, rest, _, rfl, rfl, rfl, h.of_read rfl hreads⟩
  | nil =>
    rw [h.reads.readNext_nil]
    dsimp only
    rw [if_neg (by simp)]
    let d₁ : Driver := { d with cursor := { d.cursor with endOfEvent := true } }
    have h₁ : Active base q first id batches k [] d₁ := h.of_read h.done h.reads
    have hsent : ¬ (!d.cursor.sent) = true := by simp [h.sent]
    by_cases hk : k < batches.length
    · obtain ⟨d₂, hmore, hsettings, hactive⟩ := h₁.getMore hs hk
      have hfetch : d₁.fetch net = (true, d₂) := by
        rw [Driver.fetch, if_neg hsent, if_pos, hmore]
        have hid : d.cursor.rpc.cursorId = id := by rw [h.cursorId, if_pos hk]
        simpa [d₁, hid] using hs.id_ne
      have hdrop : batches.drop k = batches.getD k [] :: batches.drop (k + 1) := by
        rw [List.drop_eq_getElem_cons hk, List.getD_eq_getElem _ _ hk]
      rw [Driver.fetchNext, show Driver.fetch net { d with cursor := { d.cursor with endOfEvent := true } } = (true, d₂)
        from hfetch]
      dsimp only
      rw [hdrop]
      rcases hactive.complete with ⟨b, rest', d', hrest, hcomplete, hsettings', hactive'⟩ | ⟨d', hrest, hcomplete, hover⟩
      · rw [hrest, pulled_cons]
        exact Or.inl ⟨b, k + 1, rest', d', hcomplete, hsettings'.trans hsettings, rfl, hactive'⟩
      · rw [hrest, pulled_empty]
        exact Or.inr ⟨d', hcomplete, rfl, hover⟩
    · have hfetch : d₁.fetch net = (true, d₁) := by
        rw [Driver.fetch, if_neg hsent, if_neg]
        have hid : d.cursor.rpc.cursorId = 0 := by rw [h.cursorId, if_neg hk]
        simp [d₁, hid]
      rw [Driver.fetchNext, show Driver.fetch net { d with cursor := { d.cursor with endOfEvent := true } } = (true, d₁)
        from hfetch]
      dsimp only
      rw [List.drop_eq_nil_of_le (by omega), pulled_nil]
      rcases h₁.complete with ⟨b, rest', d', hrest, -⟩ | ⟨d', -, hcomplete, hover⟩
      · cases hrest
      · exact Or.inr ⟨d', hcomplete, rfl, hover⟩

/-- The first call of `_mongoc_cursor_next`. -/
theorem ServesQuery.cursorNext (hs : ServesQuery net base q first id batches) (h : Unread d)
    (hcommand : d.cursor.isCommand = false) (hlog : d.client.log = base) (hfirst : d.client.requestId = first)
    (hq : queryRequest d.cursor = q) :
    (∃ b rest' d', cursorNext net d = (some b, d') ∧ d'.cursor.settings = d.cursor.settings ∧
        pulled batches = b :: (rest' ++ pulled (batches.drop 1)) ∧ Active base q first id batches 1 rest' d') ∨
      ∃ d', cursorNext net d = (none, d') ∧ pulled batches = [] ∧ Over d' := by
  obtain ⟨d₁, hfetch, hsettings, hactive⟩ := hs.exchange h hcommand hlog hfirst hq
  have hpos : 0 < batches.length := List.length_pos_iff.mpr hs.nonempty
  have hcons : batches = batches.getD 0 [] :: batches.drop 1 := by
    have := List.drop_eq_getElem_cons hpos
    rwa [List.drop_zero, ← List.getD_eq_getElem batches [] hpos] at this
  have hlimit : ¬ (d.cursor.limit ≠ 0 ∧ d.cursor.limit ≤ d.cursor.count) := by
    rw [h.count]
    omega
  rw [Monary.cursorNext, if_neg (by simp [h.done, h.failed]), if_neg (by simp [h.plain.client]), if_neg hlimit,
    if_neg (by simp [h.reader]), Driver.fetchNext, hfetch]
  dsimp only
  rcases hactive.complete with ⟨b, rest', d', hrest, hcomplete, hsettings', hactive'⟩ | ⟨d', hrest, hcomplete, hover⟩
  · refine Or.inl ⟨b, rest', d', hcomplete, hsettings'.trans hsettings, ?_, hactive'⟩
    rw [hrest] at hcons
    conv_lhs => rw [hcons]
    rfl
  · refine Or.inr ⟨d', hcomplete, ?_, hover⟩
    rw [hrest] at hcons
    rw [hcons, pulled_empty]

/-- A document is taken off what is left under the limit. -/
theorem clip_cons {c c' : CursorState} {b : Bson} {docs : List Bson} (hlimit : ¬ (c.limit ≠ 0 ∧ c.limit ≤ c.count))
    (hlt : c.limit < 2 ^ 32) (hl : c'.limit = c.limit) (hc : c'.count = (c.count + 1) % 2 ^ 32) :
    clip c (b :: docs) = b :: clip c' docs := by
  unfold clip
  rw [hl]
  by_cases h0 : c.limit = 0
  · rw [if_pos h0, if_pos h0]
  · rw [if_neg h0, if_neg h0, hc, Nat.mod_eq_of_lt (by omega), show c.limit - c.count = c.limit - (c.count + 1) + 1 by omega]
    rfl

@[simp] theorem clip_nil (c : CursorState) : clip c [] = [] := by simp [clip]

theorem clip_of_le {c : CursorState} {docs : List Bson} (h : c.limit ≠ 0 ∧ c.limit ≤ c.count) : clip c docs = [] := by
  rw [clip, if_neg h.1, Nat.sub_eq_zero_of_le h.2, List.take_zero]

/-! ## Runs -/

theorem Active.counted (h : Active base q first id batches k rest d) : Active base q first id batches k rest d.counted := by
  obtain ⟨⟨ht, hx, hin, hclient⟩, hcommand, hfailed, hdone, hsent, hreads, hpos, hle, hid, hasked, hrequest⟩ := h
  exact ⟨⟨ht, hx, hin, hclient⟩, hcommand, hfailed, hdone, hsent, hreads, hpos, hle, hid, hasked, hrequest⟩

theorem Over.next (h : Over d) : (driverNext net d).1 = none ∧ Over (driverNext net d).2 := by
  have hnext : Monary.cursorNext net d = (none, d.setError (bsonSetError BsonError.cursor BsonError.invalidCursor
      (keyBytes "Cannot advance a completed or failed cursor."))) := by
    rw [Monary.cursorNext, if_pos (by simp [h.done])]
  rw [driverNext_eq h.failed, hnext]
  exact ⟨rfl, h.failed, h.done⟩

/-- The limit is reached. -/
theorem cursorNext_limited (hp : PlainCursor d) (hfailed : d.cursor.failed = false) (hdone : d.cursor.done = false)
    (hlimit : d.cursor.limit ≠ 0 ∧ d.cursor.limit ≤ d.cursor.count) :
    Monary.cursorNext net d = (none, { d with cursor := { d.cursor with done := true } }) := by
  rw [Monary.cursorNext, if_neg (by simp [hdone, hfailed]), if_neg (by simp [hp.client]), if_pos hlimit]

/-- A call of `mongoc_cursor_next`. -/
theorem Pulls.next {left : List Bson} (h : Pulls base q first id batches d left)
    (hs : ServesQuery net base q first id batches) :
    (∃ b l, left = b :: l ∧ (driverNext net d).1 = some b ∧ Pulls base q first id batches (driverNext net d).2 l) ∨
      left = [] ∧ (driverNext net d).1 = none ∧ Pulls base q first id batches (driverNext net d).2 [] := by
  have hactive {c : CursorState} {b : Bson} {k : Nat} {rest : List Bson} {d' : Driver}
      (hlimit : ¬ (c.limit ≠ 0 ∧ c.limit ≤ c.count)) (hlt : c.limit < 2 ^ 32)
      (hsettings : d'.cursor.settings = c.settings) (ha : Active base q first id batches k rest d') :
      ∃ l, clip c (b :: (rest ++ pulled (batches.drop k))) = b :: l ∧ Pulls base q first id batches d'.counted l := by
    have hl : d'.counted.cursor.limit = c.limit := congrArg CursorSettings.limit hsettings
    have hc : d'.counted.cursor.count = (c.count + 1) % 2 ^ 32 :=
      congrArg (fun t => (t + 1) % 2 ^ 32) (congrArg CursorSettings.count hsettings)
    exact ⟨_, clip_cons hlimit hlt hl hc, .active ha.counted (hl ▸ hlt)⟩
  cases h with
  | unread hu hcommand hlog hfirst hq =>
    rw [driverNext_eq hu.failed]
    have hlimit : ¬ (d.cursor.limit ≠ 0 ∧ d.cursor.limit ≤ d.cursor.count) := by
      rw [hu.count]
      omega
    rcases hs.cursorNext hu hcommand hlog hfirst hq with ⟨b, rest', d', hnext, hsettings, hdocs, ha⟩ | ⟨d', hnext, hdocs, ho⟩
    · obtain ⟨l, hclip, hpulls⟩ := hactive hlimit hu.limit_lt hsettings ha
      rw [hnext, hdocs]
      exact Or.inl ⟨b, l, hclip, rfl, hpulls⟩
    · rw [hnext, hdocs, clip_nil]
      exact Or.inr ⟨rfl, rfl, .ended ⟨ho.failed, ho.done⟩⟩
  | @active k rest ha hlt =>
    rw [driverNext_eq ha.failed]
    by_cases hlimit : d.cursor.limit ≠ 0 ∧ d.cursor.limit ≤ d.cursor.count
    · rw [cursorNext_limited ha.plain ha.failed ha.done hlimit, clip_of_le hlimit]
      exact Or.inr ⟨rfl, rfl, .ended ⟨ha.failed, rfl⟩⟩
    · rcases ha.cursorNext hs.toServes hlimit with ⟨b, k', rest', d', hnext, hsettings, hdocs, ha'⟩ | ⟨d', hnext, hdocs, ho⟩
      · obtain ⟨l, hclip, hpulls⟩ := hactive hlimit hlt hsettings ha'
        rw [hnext, hdocs]
        exact Or.inl ⟨b, l, hclip, rfl, hpulls⟩
      · rw [hnext, hdocs, clip_nil]
        exact Or.inr ⟨rfl, rfl, .ended ⟨ho.failed, ho.done⟩⟩
  | ended ho =>
    have hnext : (driverNext net d).1 = none ∧ Over (driverNext net d).2 := ho.next
    exact Or.inr ⟨rfl, hnext.1, .ended hnext.2⟩

theorem pulls_source (hs : ServesQuery net base q first id batches) :
    Pull.Source (driverNext net) (Pulls base q first id batches) where
  cons h := by
    rcases h.next hs with ⟨b, l, heq, hval, hpulls⟩ | ⟨heq, -⟩
    · obtain ⟨rfl, rfl⟩ := List.cons.inj heq
      exact ⟨hval, hpulls⟩
    · cases heq
  nil h := by
    rcases h.next hs with ⟨b, l, heq, -⟩ | ⟨-, hnext⟩
    · cases heq
    · exact hnext

theorem Pulls.failed {left : List Bson} (h : Pulls base q first id batches d left) : d.cursor.failed = false := by
  cases h with
  | unread h => exact h.failed
  | active h => exact h.failed
  | ended h => exact h.failed

end

/-- Over a server that answers in batches, calls of `mongoc_cursor_next` return the documents of the batches up to the
first one that is empty, as many as the limit allows, and then none; the cursor does not fail. Where no batch is empty,
these are all documents. -/
theorem driverNext_served {net : Connection} {d : Driver} {id : Int} {batches : List (List Bson)} (h : Unread d)
    (hcommand : d.cursor.isCommand = false)
    (hs : ServesQuery net d.client.log (queryRequest d.cursor) d.client.requestId id batches) (n : Nat) {docs : List Bson}
    (hdocs : docs = if d.cursor.limit = 0 then pulled batches else (pulled batches).take d.cursor.limit) :
    (Pull.run (driverNext net) n d).1 = (docs.take n).map some ++ List.replicate (n - docs.length) none ∧
      (Pull.run (driverNext net) n d).2.cursor.failed = false ∧
      ((∀ batch ∈ batches, batch ≠ []) → d.cursor.limit = 0 → docs = batches.flatten) := by
  have hstart : Pulls d.client.log (queryRequest d.cursor) d.client.requestId id batches d docs := by
    have hclip : docs = clip d.cursor (pulled batches) := by rw [hdocs, clip, h.count, Nat.sub_zero]
    rw [hclip]
    exact .unread h hcommand rfl rfl rfl
  obtain ⟨hrun, hpulls⟩ := (pulls_source hs).run hstart n
  refine ⟨hrun, hpulls.failed, fun hne hlimit => ?_⟩
  rw [hdocs, if_pos hlimit, pulled_eq_flatten hne]

theorem noFields_small : ([5, 0, 0, 0, 0] : Bytes).length < 2 ^ 31 := by decide

/-- An empty document. -/
def noFields : Bson := ⟨[5, 0, 0, 0, 0], noFields_small⟩

theorem servesQuery_twoReplies :
    ServesQuery twoReplies findAll.client.log (queryRequest findAll.cursor) findAll.client.requestId 7
      [[noFields], [noFields]] := by
  have hframed : Framed noFields := ⟨by decide, by decide, by decide⟩
  refine ⟨⟨by decide, by simp, fun _ => rfl, fun _ _ n => ⟨n, rfl⟩, ?_, ?_⟩, ?_⟩
  · intro batch hb
    obtain rfl : batch = [noFields] := by simpa using hb
    exact ⟨by simpa using hframed, by decide⟩
  · intro sizes hne hlt
    obtain ⟨n, rfl⟩ : ∃ n, sizes = [n] := List.length_eq_one_iff.mp <| by
      have := List.length_pos_iff.mpr hne
      have : sizes.length < 2 := hlt
      omega
    exact ⟨_, rfl, rfl, rfl, Nat.zero_testBit 0, Nat.zero_testBit 1, rfl, rfl⟩
  · exact ⟨_, rfl, rfl, rfl, Nat.zero_testBit 0, Nat.zero_testBit 1, rfl, rfl⟩

theorem driverNext_served_findAll : (Pull.run (driverNext twoReplies) 3 findAll).1 =
    (([noFields, noFields] : List Bson).take 3).map some ++ List.replicate (3 - [noFields, noFields].length) none ∧
      (Pull.run (driverNext twoReplies) 3 findAll).2.cursor.failed = false ∧
      ((∀ batch ∈ [[noFields], [noFields]], batch ≠ []) → findAll.cursor.limit = 0 →
        [noFields, noFields] = [[noFields], [noFields]].flatten) :=
  driverNext_served (unread_new false 0 0 _ none (by decide) (by decide) (by decide) rfl) rfl servesQuery_twoReplies 3 rfl

end Monary
