import Monary.Cmonary.Values
import Monary.Python.Loads

/-!
# Sessions that go on

* `Env.Quiet` : no step raises for a reason of its own, and the collection is found; `Plan.Ready` : the names can
  be encoded and the columns made;
* `session_ready` : a session then comes to its first load, with the handles of `Session.first`;
* `rows_ready`, `rows_fault` : the arrays of `query` and `aggregate`, or the fault of the load.
-/

namespace Monary
open ByteSeq CInt Effect

structure Env.Quiet (env : Env) : Prop where
  raises : ∀ step, env.raises step = none
  collection : env.collection = true

structure Plan.Ready [PyImpl] (p : Plan) (cts : List ColumnType) : Prop where
  db : ∃ name, encodeAscii p.db = .ok name
  coll : ∃ name, encodeAscii p.coll = .ok name
  lengths : p.fields.length = p.types.length
  few : p.fields.length ≤ maxColumns
  columns : (p.fields.zip p.types).map (fun q => columnType q.1 q.2) = cts.map some

/-- The session of a method that is alone with the client, before its first load. -/
def Session.first (cts : List ColumnType) (count : Int) (client fresh : Nat) (reply : Nat → Reply) : Session :=
  ⟨fresh, ⟨toUInt32 count, cts.map (·.fresh count.toNat)⟩, ⟨client, fresh + 1⟩, fresh + 2, ⟨reply, 0, false⟩⟩

theorem Env.Quiet.check {env : Env} (h : env.Quiet) (step : Step) : env.check step = .ok () :=
  check_eq_ok.mpr (h.raises step)

section Ready
variable [PyImpl] [CImpl] {env : Env} {p : Plan} {cts : List ColumnType} {count : Int} {client : Nat} {s : State}
  {reply : Nat → Reply}

omit [CImpl] in
theorem acceptable_of_quiet (hq : env.Quiet) {columns : List (String × String)}
    (h : columns.map (fun q => columnType q.1 q.2) = cts.map some) (i : Nat) : Acceptable env i columns cts := by
  induction columns generalizing i cts with
  | nil =>
    have hcts : cts = [] := by simpa using h.symm
    exact hcts
  | cons q columns ih =>
    rcases cts with _ | ⟨ct, cts⟩
    · cases h
    · obtain ⟨hct, hrest⟩ := List.cons.inj h
      exact ⟨⟨hq.raises _, hq.raises _, hq.raises _⟩, ct, cts, rfl, hct, ih hrest _⟩

omit [CImpl] in
theorem Plan.Ready.accepts (hp : p.Ready cts) (hq : env.Quiet) (hcount : 0 ≤ count) :
    Accepts env p.fields p.types count ⟨toUInt32 count, cts.map (·.fresh count.toNat)⟩ :=
  (accepts_iff hcount).mpr ⟨hp.lengths, cts, acceptable_of_quiet hq hp.columns 0, rfl⟩

omit [CImpl] in
theorem not_refuses_of_quiet (cts : List ColumnType) {fields types : List String} (hq : env.Quiet)
    (hcolumns : (fields.zip types).map (fun q => columnType q.1 q.2) = cts.map some) (hcount : 0 ≤ count) :
    ¬ Refuses env fields types count := by
  intro h
  obtain ⟨e, he⟩ := h.refused
  rw [((accepts_iff hcount).mpr ⟨h.lengths, cts, acceptable_of_quiet hq hcolumns 0, rfl⟩).filled] at he
  cases he

/-- A session is opened with fresh columns of its types. -/
theorem Opens.first {connection : Option Nat} {fresh : Nat} {h : Session} {r : LoadState}
    (hopen : Opens env p count connection fresh h r) (hq : env.Quiet)
    (hcolumns : (p.fields.zip p.types).map (fun q => columnType q.1 q.2) = cts.map some) (hcount : 0 ≤ count) :
    ∃ client reply, p.answer (some h.columns) = .ok (some reply) ∧ h = .first cts count client fresh reply := by
  obtain ⟨reply, hans, hcur⟩ := hopen.answer
  have hcd : h.columns = ⟨toUInt32 count, cts.map (·.fresh count.toNat)⟩ := by
    have hfilled := ((accepts_iff hcount).mpr
      ⟨hopen.accepts.lengths, cts, acceptable_of_quiet hq hcolumns 0, rfl⟩).filled
    exact Option.some.inj (Except.ok.inj (hopen.accepts.filled.symm.trans hfilled))
  refine ⟨h.collection.client, reply, hans, ?_⟩
  obtain ⟨coldata, columns, ⟨client, id⟩, cursor, mcursor⟩ := h
  obtain ⟨-, h₁, h₂, h₃⟩ := hopen.handles
  dsimp only at h₁ h₂ h₃ hcur hcd
  rw [Session.first, h₁, h₂, h₃, hcur, hcd]

omit [CImpl] in
theorem makeColumnData_ready (hp : p.Ready cts) (hq : env.Quiet) (hcount : 0 ≤ count) (s : State) :
    makeColumnData env p.fields p.types count s =
      (.returned (some (s.fresh, ⟨toUInt32 count, cts.map (·.fresh count.toNat)⟩)),
        s.did [.allocColumnData (some s.fresh)] 1) := by
  have hfill := (hp.accepts hq hcount).filled
  have halloc : allocColumnData p.fields.length count s =
      (.returned (some (s.fresh, blankColumns p.fields.length count)), s.did [.allocColumnData (some s.fresh)] 1) := by
    rw [allocColumnData, monaryAllocColumnData_eq hp.few]
    rfl
  unfold makeColumnData
  rw [if_neg (not_not.mpr hp.lengths), if_neg (Nat.not_lt.mpr hp.few), ofExcept_bind_ok (hq.check _),
    bind_of_returned halloc]
  dsimp only [Option.map_some]
  rw [hfill]
  rfl

omit [CImpl] in
theorem getCollection_ready (hp : p.Ready cts) (hq : env.Quiet) (hs : s.connection = some client) :
    getCollection env p.db p.coll s =
      (.returned (some ⟨client, s.fresh⟩), s.did [.useCollection client (some ⟨client, s.fresh⟩)] 1) := by
  obtain ⟨db, hdb⟩ := hp.db
  obtain ⟨coll, hcoll⟩ := hp.coll
  have hnone : collectionError env s.connection p.db p.coll = none := by
    rw [hs, collectionError, hdb, hcoll]
    exact hq.raises .useCollection
  obtain ⟨client', hclient, hget⟩ := getCollection_of_none hnone
  obtain rfl : client = client' := Option.some.inj (hs.symm.trans hclient)
  rcases useCollection_cases env s client with ⟨hno, -⟩ | ⟨-, huse⟩
  · rw [hq.collection] at hno
    cases hno
  · rw [hget, huse]

omit [PyImpl] [CImpl] in
theorem initCursor_ready (hq : env.Quiet) {d : Nat} {cd : ColumnData} (hcd : s.frame.coldata = some (d, cd))
    (k : CollectionHandle) {answer : Option ColumnData → C (Option (Nat → Reply))}
    (hans : answer (some cd) = .ok (some reply)) :
    initCursor env k answer s = (.returned (some (⟨k, some d, s.fresh⟩, ⟨reply, 0, false⟩)),
      s.did [.initCursor k (some d) (some ⟨k, some d, s.fresh⟩)] 1) := by
  rw [initCursor_eq (hq.check _) hcd, hans]

/-- A session that nothing refuses comes to its first load. -/
theorem session_ready {α : Type} (hp : p.Ready cts) (hq : env.Quiet) (hcount : 0 ≤ count)
    (hs : s.frame = Frame.start) (hc : s.connection = some client)
    (hans : p.answer (some ⟨toUInt32 count, cts.map (·.fresh count.toNat)⟩) = .ok (some reply))
    (rest : Int → Py α) :
    p.session env count rest s = finish (load env rest
      ((s.did (Session.first cts count client s.fresh reply).opening 3).within
        (Session.first cts count client s.fresh reply).frame)) := by
  obtain ⟨log, connection, fresh, frame⟩ := s
  dsimp only at hs hc
  subst hs hc
  generalize hcd : (⟨toUInt32 count, cts.map (·.fresh count.toNat)⟩ : ColumnData) = cd at hans
  have hmake := makeColumnData_ready hp hq hcount ⟨log, some client, fresh, Frame.start⟩
  rw [hcd] at hmake
  generalize ht : ((State.mk log (some client) fresh Frame.start).did [.allocColumnData (some fresh)] 1).within
    ⟨some (fresh, cd), none, none⟩ = t
  have htf : t.fresh = fresh + 1 := by
    rw [← ht]
    rfl
  have hget : getCollection env p.db p.coll t = (.returned (some ⟨client, t.fresh⟩),
      t.did [.useCollection client (some ⟨client, t.fresh⟩)] 1) :=
    getCollection_ready hp hq (by rw [← ht]; rfl)
  rw [htf] at hget
  generalize hu : (t.did [.useCollection client (some ⟨client, fresh + 1⟩)] 1).within
    ⟨some (fresh, cd), some (some ⟨client, fresh + 1⟩), none⟩ = u
  have huf : u.fresh = fresh + 2 := by
    rw [← hu, ← ht]
    rfl
  have hinit : initCursor env ⟨client, fresh + 1⟩ p.answer u =
      (.returned (some (⟨⟨client, fresh + 1⟩, some fresh, u.fresh⟩, ⟨reply, 0, false⟩)),
        u.did [.initCursor ⟨client, fresh + 1⟩ (some fresh) (some ⟨⟨client, fresh + 1⟩, some fresh, u.fresh⟩)] 1) :=
    initCursor_ready hq (by rw [← hu]; rfl) _ hans
  rw [huf] at hinit
  have hrest : (do
      let cursor ← initCursor env ⟨client, fresh + 1⟩ p.answer
      setCursor cursor
      load env rest : Py α) u = load env rest (((State.mk log (some client) fresh Frame.start).did
        (Session.first cts count client fresh reply).opening 3).within
          (Session.first cts count client fresh reply).frame) := by
    rw [bind_apply, hinit, andThen_returned, ← hu, ← ht, Session.first, hcd]
    simp only [within_did, did_did, within_within]
    rfl
  have hopen : openCursor env p.db p.coll (initCursor env · p.answer) rest t = load env rest
      (((State.mk log (some client) fresh Frame.start).did (Session.first cts count client fresh reply).opening
        3).within (Session.first cts count client fresh reply).frame) := by
    rw [← hrest, openCursor, bind_of_returned hget, ← hu, ← ht]
    rfl
  rw [Plan.session, session, tryFinally_apply, bind_apply, hmake, andThen_returned, ← hopen, ← ht]
  rfl

/-- The load of the arrays returns, and so do `query` and `aggregate`. -/
theorem rows_ready (hp : p.Ready cts) (hq : env.Quiet) (hcount : 0 ≤ count) (hs : s.frame = Frame.start)
    (hc : s.connection = some client)
    (hans : p.answer (some ⟨toUInt32 count, cts.map (·.fresh count.toNat)⟩) = .ok (some reply)) {h : Session}
    (hh : h = .first cts count client s.fresh reply) {r : LoadState}
    (hload : monaryLoadQuery h.columns h.mcursor = .ok r) :
    p.rows env count s = (.returned ((h.loaded r).arrays count),
      (s.did (h.opening ++ [h.loading r] ++ h.closing) 3).within (h.loaded r).frame) := by
  have hloaded : loadQuery env ((s.did h.opening 3).within h.frame) =
      (.returned (r.row : Int), ((s.did (h.opening ++ [h.loading r]) 3)).within (h.loaded r).frame) := by
    unfold loadQuery
    rw [ofExcept_bind_ok (hq.check _), bind_of_returned (read_apply _)]
    dsimp only [Session.frame, frame_within]
    rw [hload, ← Nat.add_zero 3, ← did_did]
    rfl
  have hsession := session_ready hp hq hcount hs hc hans (fun _ => pure () : Int → Py Unit)
  rw [← hh, load, bind_of_returned hloaded, pure_apply, finish_returned (h := h.loaded r) rfl, within_did,
    did_did] at hsession
  rw [Plan.rows, bind_of_returned hsession, colarrays_apply (h := h.loaded r) rfl]
  rfl

/-- The load of the arrays ends in a fault, and so do `query` and `aggregate`. -/
theorem rows_fault (hp : p.Ready cts) (hq : env.Quiet) (hcount : 0 ≤ count) (hs : s.frame = Frame.start)
    (hc : s.connection = some client)
    (hans : p.answer (some ⟨toUInt32 count, cts.map (·.fresh count.toNat)⟩) = .ok (some reply)) {h : Session}
    (hh : h = .first cts count client s.fresh reply) {f : Fault}
    (hload : monaryLoadQuery h.columns h.mcursor = .error f) : ∃ s', p.rows env count s = (.fault f, s') := by
  have hloaded : loadQuery env ((s.did h.opening 3).within h.frame) =
      (.fault f, ((s.did (h.opening ++ [.loadQuery h.cursor none]) 3)).within h.frame) := by
    unfold loadQuery
    rw [ofExcept_bind_ok (hq.check _), bind_of_returned (read_apply _)]
    dsimp only [Session.frame, frame_within]
    rw [hload, ← Nat.add_zero 3, ← did_did]
    rfl
  have hsession := session_ready hp hq hcount hs hc hans (fun _ => pure () : Int → Py Unit)
  rw [← hh, load, bind_apply, hloaded, andThen_fault, finish_fault] at hsession
  refine ⟨(s.did (h.opening ++ [.loadQuery h.cursor none]) 3).within h.frame, ?_⟩
  rw [Plan.rows, bind_apply, hsession, andThen_fault]

/-! ## Documents -/

/-- The columns that are made for `count` rows. -/
def freshColumns (cts : List ColumnType) (count : Int) : ColumnData :=
  ⟨toUInt32 count, cts.map (·.fresh count.toNat)⟩

/-- The arrays that show document `i` in row `i`. -/
def arraysOf (cts : List ColumnType) (n : Nat) (docs : List Bson) : List MaskedArray :=
  cts.map fun ct => ⟨n, (ct.fresh n).putAll 0 docs⟩

omit [CImpl] in
theorem holds_freshColumns (hp : p.Ready cts) (hcount : 0 ≤ count) : (freshColumns cts count).Holds count.toNat := by
  have hquiet : Env.Quiet quietEnv := ⟨fun _ => rfl, rfl⟩
  exact holds_accepted hcount (hp.accepts hquiet hcount)

omit [PyImpl] [CImpl] in
theorem take_first {docs : List Bson} {fails : Bool} (hy : Yields reply docs fails) (cts : List ColumnType)
    (count : Int) (client fresh n : Nat) :
    (Session.first cts count client fresh reply).mcursor.take n = docs.take n := by
  have htake : (Session.first cts count client fresh reply).mcursor.take n = (docs.drop 0).take n :=
    take_eq hy rfl (Nat.zero_le _) n
  rwa [List.drop_zero] at htake

/-- What the load of the documents of a session returns. -/
theorem load_first (hp : p.Ready cts) (hcount : 0 ≤ count) (h31 : count < 2 ^ 31) {docs : List Bson} {fails : Bool}
    (hy : Yields reply docs fails) (hclean : (freshColumns cts count).CleanAll 0 (docs.take count.toNat)) {h : Session}
    {fresh : Nat} (hh : h = .first cts count client fresh reply) :
    ∃ r, monaryLoadQuery h.columns h.mcursor = .ok r ∧
      (h.loaded r).arrays count = arraysOf cts count.toNat (docs.take count.toNat) ∧
      r.calls = (List.range (docs.take count.toNat).length).map fun i => (i, i) := by
  have hn : toUInt32 count = count.toNat := by
    unfold toUInt32
    omega
  have htake := take_first hy cts count client fresh count.toNat
  rw [← hh] at htake
  have hcd : h.columns = freshColumns cts count := by rw [hh]; rfl
  have hrows : h.columns.numRows = count.toNat := by rw [hcd, ← hn]; rfl
  have hlen : (docs.take count.toNat).length ≤ count.toNat := List.length_take_le _ _
  have hload : monaryLoadQuery h.columns h.mcursor =
      .ok (LoadState.after ⟨h.columns, h.mcursor, 0, []⟩ h.columns.numRows) := by
    have hholds : h.columns.Holds count.toNat := by
      rw [hcd]
      exact holds_freshColumns hp hcount
    apply monaryLoadQuery_eq hholds
    · rw [hrows, htake]
      omega
    · rw [hrows, htake, hcd]
      exact hclean
  refine ⟨_, hload, ?_, ?_⟩
  · show (h.columns.putAll 0 (h.mcursor.take h.columns.numRows)).columns.map _ = _
    rw [hrows, htake, columns_putAll, hcd]
    unfold arraysOf freshColumns
    rw [List.map_map, List.map_map]
    rfl
  · show [] ++ (List.range (h.mcursor.take h.columns.numRows).length).map _ = _
    rw [hrows, htake, List.nil_append, hh]
    simp [Session.first]

end Ready

end Monary
