import Monary.Python.Sessions

/-!
# What the methods and the generators do

* `Plan` : what a session is opened for: collection, columns and the answer of the driver;
  `QueryArgs.plan`, `AggregateArgs.plan`, `Generator.plan`;
* `count_run`, `rows_run` : the calls of `count`, and of the part of `query` and `aggregate` that loads;
* `Turn` : a turn of a generator's loop once its load has returned;
* `next_created`, `next_loop`, `next_stop`, `close_suspended` : one `next()` and `close()`.
-/

namespace Monary
open CInt Effect

/-! ## Plans -/

structure Plan where
  db : String
  coll : String
  fields : List String
  types : List String
  answer : Option ColumnData → C (Option (Nat → Reply))

def QueryArgs.plan (env : Env) (a : QueryArgs) (fullQuery : Bytes) : Plan :=
  ⟨a.db, a.coll, a.fields, a.types, findReply env a.offset a.limit fullQuery a.selectFields⟩

def AggregateArgs.plan (env : Env) (a : AggregateArgs) (encodedPipeline : Bytes) : Plan :=
  ⟨a.db, a.coll, a.fields, a.types, fun _ => aggregateReply env encodedPipeline⟩

/-- The plan of a generator that was made, if its arguments can be encoded. -/
def Generator.plan (env : Env) : Generator → Except PyExn Plan
  | .blockQuery a _ => do return a.plan env (← getFullQuery env.encode a.query a.sort a.hint)
  | .blockAggregate a _ => do return a.plan env (← getPlainQuery env.encode (← getPipeline a.pipeline))
  | _ => .error ⟨.other, "", []⟩

def Generator.created : Generator → Bool
  | .blockQuery .. | .blockAggregate .. => true
  | _ => false

section Runs
variable [PyImpl] [CImpl]

def Plan.session {α : Type} (p : Plan) (env : Env) (count : Int) (rest : Int → Py α) : Py α :=
  Monary.session env p.db p.coll p.fields p.types count (initCursor env · p.answer) rest

/-- The session of `query` and `aggregate`, and the arrays. -/
def Plan.rows (p : Plan) (env : Env) (count : Int) : Py (List MaskedArray) := do
  p.session env count fun _ => pure ()
  colarrays count

theorem queryRows_eq (env : Env) (a : QueryArgs) (fullQuery : Bytes) (n : Int) :
    queryRows env a fullQuery n = (a.plan env fullQuery).rows env (limited n a.limit) := rfl

theorem aggregateRows_eq (env : Env) (a : AggregateArgs) (pipeline : PyValue) (n : Int) :
    aggregateRows env a pipeline n = (do
      let encodedPipeline ← ofExcept (getPlainQuery env.encode pipeline)
      (a.plan env encodedPipeline).rows env (limited n a.limit)) := rfl

/-- The code of a generator up to its first `yield`. -/
theorem body_created (env : Env) {g : Generator} (hg : g.created = true) :
    g.body env = (do
      let p ← ofExcept (g.plan env)
      p.session env g.blockSize (blockTurn g.blockSize)) := by
  rcases g with ⟨a, blockSize⟩ | ⟨a, blockSize⟩ | _ | _
  · have hplan : (Generator.blockQuery a blockSize).plan env =
        (do return a.plan env (← getFullQuery env.encode a.query a.sort a.hint)) := rfl
    rw [hplan]
    show blockQuery env a blockSize = _
    unfold blockQuery
    rcases getFullQuery env.encode a.query a.sort a.hint with e | q <;> rfl
  · have hplan : (Generator.blockAggregate a blockSize).plan env =
        (do return a.plan env (← getPlainQuery env.encode (← getPipeline a.pipeline))) := rfl
    rw [hplan]
    show blockAggregate env a blockSize = _
    unfold blockAggregate
    rcases getPipeline a.pipeline with e | p
    · rfl
    · show (ofExcept (getPlainQuery env.encode p) >>= fun e => _) =
        (ofExcept (getPlainQuery env.encode p >>= fun e => pure (a.plan env e)) >>= _)
      rcases getPlainQuery env.encode p with e | q <;> rfl
  · cases hg
  · cases hg

/-! ## Columns that are loaded at once -/

/-- The arrays that show the columns of a session. -/
def Session.arrays (h : Session) (n : Int) : List MaskedArray :=
  h.columns.columns.map fun c => ⟨n.toNat, c⟩

omit [PyImpl] [CImpl] in
theorem colarrays_apply {h : Session} {s : State} (hf : s.frame = h.frame) (n : Int) :
    colarrays n s = (.returned (h.arrays n), s) := by
  unfold colarrays
  rw [bind_of_returned (read_apply s), hf]
  rfl

/-- The first load of the session of a plan has returned. -/
structure Opens (env : Env) (p : Plan) (count : Int) (connection : Option Nat) (fresh : Nat) (h : Session)
    (r : LoadState) : Prop where
  handles : h.OpenedFrom connection fresh
  accepts : Accepts env p.fields p.types count h.columns
  answer : ∃ reply, p.answer (some h.columns) = .ok (some reply) ∧ h.mcursor = ⟨reply, 0, false⟩
  load : monaryLoadQuery h.columns h.mcursor = .ok r

/-- What the session of `query` and `aggregate` comes to. -/
inductive RowsRun (env : Env) (p : Plan) (count : Int) (s : State) :
    Outcome PyExn (List MaskedArray × Resume) Fault (List MaskedArray) × State → Prop
  | aborted (e : PyExn) (trace : List Event) (n : Nat) (f : Frame) :
      Aborted s.connection s.fresh (Refuses env p.fields p.types count) trace n →
      RowsRun env p count s (.raised e, (s.did trace n).within f)
  | crashed (x : Fault) (trace : List Event) (n : Nat) (f : Frame) : Crashed s.connection s.fresh trace n →
      RowsRun env p count s (.fault x, (s.did trace n).within f)
  | loaded (h : Session) (r : LoadState) : Opens env p count s.connection s.fresh h r →
      RowsRun env p count s (.returned ((h.loaded r).arrays count),
        (s.did (h.opening ++ [h.loading r] ++ h.closing) 3).within (h.loaded r).frame)

theorem rows_run (env : Env) (p : Plan) (count : Int) {s : State} (hs : s.frame = Frame.start) :
    RowsRun env p count s (p.rows env count s) := by
  have hrun := session_run env p.db p.coll p.fields p.types count p.answer (fun _ => pure () : Int → Py Unit) hs
  rw [Plan.rows, bind_apply, Plan.session]
  generalize hres : Monary.session env p.db p.coll p.fields p.types count (initCursor env · p.answer)
    (fun _ => pure ()) s = res at hrun ⊢
  rcases hrun with ⟨e, trace, n, f, ha⟩ | ⟨x, trace, n, f, hc⟩ | ⟨h, reply, r, hopen, hacc, hans, hcur, hload⟩
  · exact .aborted e trace n f ha
  · exact .crashed x trace n f hc
  · have hfin := finish_returned (α := Unit) (h := h.loaded r) (s := h.opened s r) rfl ()
    rw [pure_apply, hfin, andThen_returned, colarrays_apply (h := h.loaded r) rfl, Session.opened, within_did,
      did_did]
    exact .loaded h r ⟨hopen, hacc, ⟨reply, hans, hcur⟩, hload⟩

/-! ## `count` -/

/-- The calls of `count` when it does not end in a fault. -/
inductive Counted (connection : Option Nat) (fresh : Nat) : List Event → Nat → Prop
  | start : Counted connection fresh [] 0
  | noCollection (client : Nat) : connection = some client →
      Counted connection fresh [.useCollection client none] 0
  | used (k : CollectionHandle) (asked : List Event) : connection = some k.client → k.id = fresh →
      asked = [] ∨ asked = [.queryCount k] →
      Counted connection fresh ([.useCollection k.client (some k)] ++ asked ++ [.destroyCollection k]) 1

inductive CountRun (s : State) : Outcome PyExn (List MaskedArray × Resume) Fault Int × State → Prop
  | raised (e : PyExn) (trace : List Event) (n : Nat) : Counted s.connection s.fresh trace n →
      CountRun s (.raised e, s.did trace n)
  | crashed (x : Fault) (k : CollectionHandle) : s.connection = some k.client → k.id = s.fresh →
      CountRun s (.fault x, s.did [.useCollection k.client (some k), .queryCount k] 1)
  | returned (m : Int) (trace : List Event) (n : Nat) : 0 ≤ m → Counted s.connection s.fresh trace n →
      CountRun s (.returned m, s.did trace n)

omit [PyImpl] [CImpl] in
theorem monaryQueryCount_cases (env : Env) (k : CollectionHandle) (query : Bytes) (s : State) :
    (∃ x, monaryQueryCount env k query s = (.fault x, s.did [.queryCount k] 0)) ∨
      ∃ m, monaryQueryCount env k query s = (.returned m, s.did [.queryCount k] 0) := by
  unfold monaryQueryCount
  rw [bind_of_returned (record_apply _ s)]
  rcases bsonInitStatic query with x | _ | doc
  · exact Or.inl ⟨x, rfl⟩
  · exact Or.inr ⟨-1, rfl⟩
  · exact Or.inr ⟨env.count doc, rfl⟩

omit [PyImpl] [CImpl] in
/-- The `try` of `count` and its finalizer. -/
theorem countBody_run (env : Env) (db coll : String) (query : PyValue) {s : State}
    (hs : s.frame = ⟨none, some none, none⟩) :
    (∃ e trace n f, Counted s.connection s.fresh trace n ∧ runFinally (countBody env db coll query s) destroyCollection =
        (.raised e, (s.did trace n).within f)) ∨
      (∃ x k f, s.connection = some k.client ∧ k.id = s.fresh ∧
        runFinally (countBody env db coll query s) destroyCollection =
          (.fault x, (s.did [.useCollection k.client (some k), .queryCount k] 1).within f)) ∨
      ∃ m trace n f, Counted s.connection s.fresh trace n ∧ runFinally (countBody env db coll query s) destroyCollection =
        (.returned m, (s.did trace n).within f) := by
  obtain ⟨log, connection, fresh, frame⟩ := s
  dsimp only at hs
  subst hs
  unfold countBody
  rcases getCollection_cases env ⟨log, connection, fresh, ⟨none, some none, none⟩⟩ db coll with
    ⟨e, hget⟩ | ⟨client, hclient, hget | hget⟩
  · rw [bind_apply, hget, andThen_raised]
    refine Or.inl ⟨e, [], 0, ⟨none, some none, none⟩, .start, ?_⟩
    rw [did_nil]
    rfl
  · rw [bind_of_returned hget]
    exact Or.inl ⟨_, _, _, ⟨none, some none, none⟩, .noCollection client hclient, rfl⟩
  · obtain ⟨k, hk⟩ : ∃ k : CollectionHandle, k = ⟨client, fresh⟩ := ⟨_, rfl⟩
    have hkc : connection = some k.client := by rw [hk]; exact hclient
    have hki : k.id = fresh := by rw [hk]
    rw [bind_of_returned hget]
    dsimp only
    rw [← hk]
    -- the state in which the collection is in use
    generalize hu : (State.did ⟨log, connection, fresh, ⟨none, some none, none⟩⟩
      [.useCollection k.client (some k)] 1).within ⟨none, some (some k), none⟩ = u
    have hset : setCollection (some k) (State.did ⟨log, connection, fresh, ⟨none, some none, none⟩⟩
        [.useCollection client (some k)] 1) = (.returned (), u) := by
      rw [← hu, hk]
      rfl
    rw [bind_of_returned hset]
    have hdestroy (t : List Event) : destroyCollection (u.did t 0) =
        (.returned (), u.did (t ++ [.destroyCollection k]) 0) := by
      rw [← did_did u t [.destroyCollection k] 0 0, ← hu]
      rfl
    have hdone (t : List Event) : u.did t 0 = (State.did ⟨log, connection, fresh, ⟨none, some none, none⟩⟩
        ([.useCollection k.client (some k)] ++ t) 1).within ⟨none, some (some k), none⟩ := by
      rw [← hu, within_did, did_did]
    have hraise (e : PyExn) : (runFinally (.raised e, u) destroyCollection : Outcome _ _ _ Int × State) =
        (.raised e, u.did [.destroyCollection k] 0) := by
      have hd := hdestroy []
      rw [did_nil] at hd
      rw [runFinally, hd]
      rfl
    rcases hq : makeBson env.encode query with e | q
    · rw [ofExcept_bind_error rfl, hraise, hdone]
      exact Or.inl ⟨e, _, _, _, .used k [] hkc hki (Or.inl rfl), rfl⟩
    · rw [ofExcept_bind_ok rfl]
      rcases check_cases env .queryCount with ⟨hc, -⟩ | ⟨e, hc, -⟩
      · rw [ofExcept_bind_ok hc]
        rcases monaryQueryCount_cases env k q u with ⟨x, hx⟩ | ⟨m, hm⟩
        · rw [hx, runFinally, hdone]
          exact Or.inr (Or.inl ⟨x, k, _, hkc, hki, rfl⟩)
        · have hret : runFinally (.returned m, u.did [.queryCount k] 0) destroyCollection =
              (.returned m, u.did ([.queryCount k] ++ [.destroyCollection k]) 0) := by
            rw [runFinally, hdestroy]
            rfl
          rw [hm, hret, hdone]
          exact Or.inr (Or.inr ⟨m, _, _, _, .used k [.queryCount k] hkc hki (Or.inr rfl), rfl⟩)
      · rw [ofExcept_bind_error hc, hraise, hdone]
        exact Or.inl ⟨e, _, _, _, .used k [] hkc hki (Or.inl rfl), rfl⟩

omit [PyImpl] [CImpl] in
theorem count_run (env : Env) (db coll : String) (query : PyValue) {s : State} (hs : s.frame = Frame.start) :
    CountRun s (callMethod (count env db coll query) s) := by
  obtain ⟨log, connection, fresh, frame⟩ := s
  dsimp only at hs
  subst hs
  have hrun := countBody_run env db coll query (s := ⟨log, connection, fresh, ⟨none, some none, none⟩⟩) rfl
  have hcount : callMethod (count env db coll query) ⟨log, connection, fresh, Frame.start⟩ =
      let r := andThen (runFinally (countBody env db coll query ⟨log, connection, fresh, ⟨none, some none, none⟩⟩)
        destroyCollection) fun n =>
          (if n < 0 then raise ⟨.runtimeError, "Internal error in count()", []⟩ else pure n : Py Int)
      (r.1, r.2.within Frame.start) := rfl
  rw [hcount]
  rcases hrun with ⟨e, trace, n, f, hc, hr⟩ | ⟨x, k, f, hkc, hki, hr⟩ | ⟨m, trace, n, f, hc, hr⟩
  · rw [hr, andThen_raised]
    exact .raised e trace n hc
  · rw [hr, andThen_fault]
    exact .crashed x k hkc hki
  · rw [hr, andThen_returned]
    by_cases hm : m < 0
    · rw [if_pos hm]
      exact .raised _ trace n hc
    · rw [if_neg hm]
      exact .returned m trace n (by omega) hc

/-! ## `query` and `aggregate` -/

/-- What `query` comes to. -/
inductive QueryRun (env : Env) (a : QueryArgs) (s : State) :
    Outcome PyExn (List MaskedArray × Resume) Fault (List MaskedArray) × State → Prop
  | raised (e : PyExn) (trace : List Event) (n : Nat) : Counted s.connection s.fresh trace n →
      QueryRun env a s (.raised e, s.did trace n)
  | crashed (x : Fault) (k : CollectionHandle) : s.connection = some k.client → k.id = s.fresh →
      QueryRun env a s (.fault x, s.did [.useCollection k.client (some k), .queryCount k] 1)
  | rows (fullQuery : Bytes) (m : Int) (trace : List Event) (n : Nat)
      (o : Outcome PyExn (List MaskedArray × Resume) Fault (List MaskedArray)) (s' : State) :
      getFullQuery env.encode a.query a.sort a.hint = .ok fullQuery → 0 ≤ m →
      Counted s.connection s.fresh trace n →
      RowsRun env (a.plan env fullQuery) (limited m a.limit) (s.did trace n) (o, s') →
      QueryRun env a s (o, s'.within Frame.start)

theorem query_run (env inner : Env) (a : QueryArgs) (doCount : Bool) {s : State} (hs : s.frame = Frame.start) :
    QueryRun env a s (callMethod (query env inner a doCount) s) := by
  have hraised (e : PyExn) : QueryRun env a s (.raised e, s.within Frame.start) := by
    rw [within_start hs]
    exact .raised e [] 0 .start
  have hrows {fullQuery : Bytes} (hfq : getFullQuery env.encode a.query a.sort a.hint = .ok fullQuery) {m : Int}
      (hm : 0 ≤ m) {trace : List Event} {n : Nat} (hc : Counted s.connection s.fresh trace n) :
      QueryRun env a s ((queryRows env a fullQuery m (s.did trace n)).1,
        (queryRows env a fullQuery m (s.did trace n)).2.within Frame.start) := by
    rw [queryRows_eq]
    exact .rows fullQuery m trace n _ _ hfq hm hc (rows_run env _ _ hs)
  rw [callMethod_apply _ hs]
  unfold query
  rcases hp : getPlainQuery env.encode a.query with e | plainQuery
  · exact hraised e
  · rw [ofExcept_bind_ok rfl]
    rcases hfq : getFullQuery env.encode a.query a.sort a.hint with e | fullQuery
    · exact hraised e
    · rw [ofExcept_bind_ok rfl]
      by_cases hlimit : doCount = false ∧ a.limit > 0
      · rw [if_pos hlimit]
        have h := hrows hfq (m := a.limit) (by omega) .start
        rwa [did_nil] at h
      · rw [if_neg hlimit, bind_apply]
        have hcount := count_run inner a.db a.coll (.bytes plainQuery) hs
        generalize callMethod (count inner a.db a.coll (.bytes plainQuery)) s = res at hcount ⊢
        rcases hcount with ⟨e, trace, n, hc⟩ | ⟨x, k, hkc, hki⟩ | ⟨m, trace, n, hm, hc⟩
        · have hframe : (s.did trace n).within Frame.start = s.did trace n := by rw [← hs]; rfl
          rw [andThen_raised, hframe]
          exact .raised e trace n hc
        · have hframe : (s.did [.useCollection k.client (some k), .queryCount k] 1).within Frame.start =
              s.did [.useCollection k.client (some k), .queryCount k] 1 := by rw [← hs]; rfl
          rw [andThen_fault, hframe]
          exact .crashed x k hkc hki
        · rw [andThen_returned]
          exact hrows hfq hm hc

/-- The pipeline that counts, as it is sent. -/
def countPipeline (inner : Env) (a : AggregateArgs) : Except PyExn Bytes := do
  let pipeline ← getPipeline a.pipeline
  let pipeCopy ← appendStage pipeline countStage
  getPlainQuery inner.encode pipeCopy

/-- The plan of the call that counts. -/
def countPlan (inner : Env) (a : AggregateArgs) (encoded : Bytes) : Plan :=
  ⟨a.db, a.coll, ["count"], ["int64"], fun _ => aggregateReply inner encoded⟩

/-- What `aggregate` comes to. -/
inductive AggregateRun (env inner : Env) (a : AggregateArgs) (doCount : Bool) (s : State) :
    Outcome PyExn (List MaskedArray × Resume) Fault (List MaskedArray) × State → Prop
  | raised (e : PyExn) : AggregateRun env inner a doCount s (.raised e, s)
  | sized (encoded : Bytes) (o : Outcome PyExn (List MaskedArray × Resume) Fault (List MaskedArray))
      (s' : State) : doCount = false ∧ a.limit > 0 → RowsRun env (a.plan env encoded) a.limit s (o, s') →
      AggregateRun env inner a doCount s (o, s'.within Frame.start)
  | countRaised (encoded : Bytes) (e : PyExn) (s' : State) : ¬ (doCount = false ∧ a.limit > 0) →
      countPipeline inner a = .ok encoded → RowsRun inner (countPlan inner a encoded) 1 s (.raised e, s') →
      AggregateRun env inner a doCount s (.raised e, s'.within Frame.start)
  | countCrashed (encoded : Bytes) (x : Fault) (s' : State) : ¬ (doCount = false ∧ a.limit > 0) →
      RowsRun inner (countPlan inner a encoded) 1 s (.fault x, s') →
      AggregateRun env inner a doCount s (.fault x, s'.within Frame.start)
  | notCounted (encoded : Bytes) (arrays : List MaskedArray) (e : PyExn) (s' : State) :
      ¬ (doCount = false ∧ a.limit > 0) → countPipeline inner a = .ok encoded →
      RowsRun inner (countPlan inner a encoded) 1 s (.returned arrays, s') →
      AggregateRun env inner a doCount s (.raised e, s'.within Frame.start)
  | counted (encoded : Bytes) (arrays : List MaskedArray) (m : Int) (s₁ : State) (encoded' : Bytes)
      (o : Outcome PyExn (List MaskedArray × Resume) Fault (List MaskedArray)) (s' : State) :
      ¬ (doCount = false ∧ a.limit > 0) → countPipeline inner a = .ok encoded →
      RowsRun inner (countPlan inner a encoded) 1 s (.returned arrays, s₁) → countOf arrays = .ok m →
      RowsRun env (a.plan env encoded') (limited m a.limit) (s₁.within Frame.start) (o, s') →
      AggregateRun env inner a doCount s (o, s'.within Frame.start)

/-- The session of `aggregate`, when its number of rows is known. -/
theorem aggregateRows_run (env : Env) (a : AggregateArgs) (pipeline : PyValue) (n : Int) {s : State}
    (hs : s.frame = Frame.start) :
    (∃ e, aggregateRows env a pipeline n s = (.raised e, s)) ∨
      ∃ encoded, getPlainQuery env.encode pipeline = .ok encoded ∧
        RowsRun env (a.plan env encoded) (limited n a.limit) s (aggregateRows env a pipeline n s) := by
  rw [aggregateRows_eq]
  rcases hp : getPlainQuery env.encode pipeline with e | encoded
  · exact Or.inl ⟨e, rfl⟩
  · rw [ofExcept_bind_ok rfl]
    exact Or.inr ⟨encoded, rfl, rows_run env _ _ hs⟩

/-- `RowsRun` does not come to a `yield`. -/
theorem rowsRun_yielded {env : Env} {p : Plan} {count : Int} {s s' : State} {b : List MaskedArray × Resume} :
    ¬ RowsRun env p count s (.yielded b, s') := by
  intro h
  cases h

theorem aggregate_run (env inner : Env) (a : AggregateArgs) (doCount : Bool) {s : State}
    (hs : s.frame = Frame.start) :
    AggregateRun env inner a doCount s (callMethod (aggregate env inner a doCount) s) := by
  have hself : s.within Frame.start = s := by rw [← hs, within_frame]
  have hraised (e : PyExn) : AggregateRun env inner a doCount s (.raised e, s.within Frame.start) := by
    rw [hself]
    exact .raised e
  rw [callMethod_apply _ hs, aggregate_eq]
  rcases hp : getPipeline a.pipeline with e | pipeline
  · exact hraised e
  rw [ofExcept_bind_ok rfl]
  by_cases hlimit : doCount = false ∧ a.limit > 0
  · rw [if_pos hlimit]
    rcases aggregateRows_run env a pipeline a.limit hs with ⟨e, h⟩ | ⟨encoded, -, h⟩
    · rw [h]
      exact hraised e
    · have hlim : limited a.limit a.limit = a.limit := by
        unfold limited
        exact if_neg (by omega)
      rw [hlim] at h
      exact .sized encoded _ _ hlimit h
  · rw [if_neg hlimit]
    rcases hpc : appendStage pipeline countStage with e | pipeCopy
    · exact hraised e
    rw [ofExcept_bind_ok rfl, bind_apply, callMethod_apply _ hs]
    have hcp : countPipeline inner a = getPlainQuery inner.encode pipeCopy := by
      unfold countPipeline
      rw [hp]
      show (appendStage pipeline countStage >>= _) = _
      rw [hpc]
      rfl
    rcases aggregateRows_run inner ⟨a.db, a.coll, pipeCopy, ["count"], ["int64"], 1⟩ pipeCopy 1 hs with
      ⟨e, h⟩ | ⟨encoded, henc, h⟩
    · rw [h]
      exact hraised e
    · rw [henc] at hcp
      have hlim : limited 1 1 = 1 := by decide
      rw [show (AggregateArgs.limit ⟨a.db, a.coll, pipeCopy, ["count"], ["int64"], 1⟩) = 1 from rfl, hlim] at h
      generalize aggregateRows inner ⟨a.db, a.coll, pipeCopy, ["count"], ["int64"], 1⟩ pipeCopy 1 s = res at h ⊢
      obtain ⟨o, s₁⟩ := res
      rcases o with arrays | e | b | x
      · rw [andThen_returned]
        rcases hcount : countOf arrays with e | m
        · exact .notCounted encoded arrays e s₁ hlimit hcp h
        · rw [ofExcept_bind_ok rfl]
          rcases aggregateRows_run env a pipeline m (s := s₁.within Frame.start) rfl with ⟨e, h'⟩ | ⟨encoded', -, h'⟩
          · rw [h']
            exact .notCounted encoded arrays e s₁ hlimit hcp h
          · exact .counted encoded arrays m s₁ encoded' _ _ hlimit hcp h hcount h'
      · exact .countRaised encoded e s₁ hlimit hcp h
      · exact absurd h rowsRun_yielded
      · exact .countCrashed encoded x s₁ hlimit h

/-! ## Generators -/

/-- A turn of the loop of a generator, once its load has returned. -/
inductive Turn (blockSize : Int) (h : Session) (numRows : Int) (s : State) :
    Outcome PyExn (List MaskedArray × Resume) Fault Unit × Generator × State → Prop
  | full : numRows = blockSize →
      Turn blockSize h numRows s
        (.yielded (h.arrays blockSize, .loop), .suspended blockSize h.frame .loop, s)
  | short : numRows ≠ blockSize → 0 < numRows →
      Turn blockSize h numRows s
        (.yielded ((h.arrays blockSize).map (·.upTo numRows.toNat), .stop), .suspended blockSize h.frame .stop, s)
  | last : numRows ≠ blockSize → numRows ≤ 0 →
      Turn blockSize h numRows s (.returned (), .finished, s.did h.closing 0)

omit [PyImpl] [CImpl] in
/-- What a generator's code makes of the load that has returned, seen from outside. -/
theorem turn_run {g : Generator} {h : Session} {u : State} (hu : u.frame = h.frame) (numRows : Int) (s : State) :
    let r := finish (blockTurn g.blockSize numRows u)
    Turn g.blockSize h numRows (u.within s.frame) (r.1, g.after r, r.2.within s.frame) := by
  intro r
  have hturn : blockTurn g.blockSize numRows u =
      (if numRows = g.blockSize then suspend (h.arrays g.blockSize, .loop)
        else if numRows > 0 then suspend ((h.arrays g.blockSize).map (·.upTo numRows.toNat), .stop)
        else return () : Py Unit) u := by
    unfold blockTurn
    rw [bind_of_returned (colarrays_apply hu _)]
  by_cases hfull : numRows = g.blockSize
  · have hr : r = (.yielded (h.arrays g.blockSize, .loop), u) := by
      show finish (blockTurn _ _ _) = _
      rw [hturn, if_pos hfull]
      rfl
    rw [hr, Generator.after]
    dsimp only
    rw [hu]
    exact .full hfull
  · by_cases hpos : numRows > 0
    · have hr : r = (.yielded ((h.arrays g.blockSize).map (·.upTo numRows.toNat), .stop), u) := by
        show finish (blockTurn _ _ _) = _
        rw [hturn, if_neg hfull, if_pos hpos]
        rfl
      rw [hr, Generator.after]
      dsimp only
      rw [hu]
      exact .short hfull hpos
    · have hr : r = (.returned (), u.did h.closing 0) := by
        show finish (blockTurn _ _ _) = _
        rw [hturn, if_neg hfull, if_neg hpos]
        exact finish_returned hu ()
      rw [hr, Generator.after]
      exact .last hfull (by omega)

/-- One `next()`. -/
inductive NextRun (env : Env) (s : State) :
    Generator → Outcome PyExn (List MaskedArray × Resume) Fault Unit × Generator × State → Prop
  | refused (g : Generator) (e : PyExn) : g.created = true → g.plan env = .error e →
      NextRun env s g (.raised e, .finished, s)
  | aborted (g : Generator) (p : Plan) (e : PyExn) (trace : List Event) (n : Nat) : g.created = true →
      g.plan env = .ok p → Aborted s.connection s.fresh (Refuses env p.fields p.types g.blockSize) trace n →
      NextRun env s g (.raised e, .finished, s.did trace n)
  | crashed (g : Generator) (x : Fault) (trace : List Event) (n : Nat) : g.created = true →
      Crashed s.connection s.fresh trace n → NextRun env s g (.fault x, .finished, s.did trace n)
  | opened (g : Generator) (p : Plan) (h : Session) (r : LoadState)
      (res : Outcome PyExn (List MaskedArray × Resume) Fault Unit × Generator × State) : g.created = true →
      g.plan env = .ok p → Opens env p g.blockSize s.connection s.fresh h r →
      Turn g.blockSize (h.loaded r) r.row (s.did (h.opening ++ [h.loading r]) 3) res →
      NextRun env s g res
  | loopRaised (blockSize : Int) (h : Session) (e : PyExn) :
      NextRun env s (.suspended blockSize h.frame .loop) (.raised e, .finished, s.did h.closing 0)
  | loopCrashed (blockSize : Int) (h : Session) (x : Fault) : monaryLoadQuery h.columns h.mcursor = .error x →
      NextRun env s (.suspended blockSize h.frame .loop)
        (.fault x, .finished, s.did [.loadQuery h.cursor none] 0)
  | loop (blockSize : Int) (h : Session) (r : LoadState)
      (res : Outcome PyExn (List MaskedArray × Resume) Fault Unit × Generator × State) :
      monaryLoadQuery h.columns h.mcursor = .ok r →
      Turn blockSize (h.loaded r) r.row (s.did [h.loading r] 0) res →
      NextRun env s (.suspended blockSize h.frame .loop) res
  | stop (blockSize : Int) (h : Session) :
      NextRun env s (.suspended blockSize h.frame .stop) (.returned (), .finished, s.did h.closing 0)
  | finished : NextRun env s .finished (.returned (), .finished, s)

omit [PyImpl] [CImpl] in
theorem run_apply (g : Generator) (code : Py Unit) (s : State) :
    g.run code s = ((code (s.within g.frame)).1, g.after (code (s.within g.frame)),
      (code (s.within g.frame)).2.within s.frame) := rfl

/-- The local variables of a generator are those of a session, or those of a method that starts. -/
theorem next_run (env : Env) (s : State) {g : Generator}
    (hg : ∀ blockSize f resume, g = .suspended blockSize f resume → ∃ h : Session, f = h.frame) :
    NextRun env s g (g.next env s) := by
  rw [Generator.next, run_apply]
  by_cases hc : g.created = true
  · have hframe : g.frame = Frame.start := by
      rcases g with _ | _ | _ | _
      · rfl
      · rfl
      · cases hc
      · cases hc
    rw [body_created env hc, hframe]
    rcases hp : g.plan env with e | p
    · exact .refused g e hc hp
    · rw [ofExcept_bind_ok rfl, Plan.session]
      have hrun := session_run env p.db p.coll p.fields p.types g.blockSize p.answer (blockTurn g.blockSize)
        (s := s.within Frame.start) rfl
      generalize Monary.session env p.db p.coll p.fields p.types g.blockSize (initCursor env · p.answer)
        (blockTurn g.blockSize) (s.within Frame.start) = res at hrun ⊢
      rcases hrun with ⟨e, trace, n, f, ha⟩ | ⟨x, trace, n, f, hx⟩ |
        ⟨h, reply, r, hopen, hacc, hans, hcur, hload⟩
      · exact .aborted g p e trace n hc hp ha
      · exact .crashed g x trace n hc hx
      · have hturn := turn_run (g := g) (h := h.loaded r) (u := h.opened (s.within Frame.start) r) rfl r.row s
        exact .opened g p h r _ hc hp ⟨hopen, hacc, ⟨reply, hans, hcur⟩, hload⟩ hturn
  · rcases g with _ | _ | ⟨blockSize, f, resume⟩ | _
    · exact absurd rfl hc
    · exact absurd rfl hc
    · obtain ⟨h, rfl⟩ := hg _ _ _ rfl
      rcases resume with _ | _
      · have hbody : (Generator.suspended blockSize h.frame .loop).body env (s.within h.frame) =
            finish (andThen (loadQuery env (s.within h.frame)) (blockTurn blockSize)) := rfl
        show NextRun env s _ (((Generator.suspended blockSize h.frame .loop).body env (s.within h.frame)).1,
          Generator.after _ ((Generator.suspended blockSize h.frame .loop).body env (s.within h.frame)),
          ((Generator.suspended blockSize h.frame .loop).body env (s.within h.frame)).2.within s.frame)
        rw [hbody]
        rcases @loadQuery_cases env (s.within h.frame) _ h rfl with
          ⟨e, hl⟩ | ⟨x, hx, hl⟩ | ⟨r, hr, hl⟩
        · rw [hl, andThen_raised, finish_raised (h := h) rfl]
          exact .loopRaised blockSize h e
        · rw [hl, andThen_fault, finish_fault]
          exact .loopCrashed blockSize h x hx
        · rw [hl, andThen_returned]
          have hturn := turn_run (g := .suspended blockSize h.frame .loop) (h := h.loaded r)
            (u := ((s.within h.frame).did [h.loading r] 0).within (h.loaded r).frame) rfl r.row s
          exact .loop blockSize h r _ hr hturn
      · have hbody : (Generator.suspended blockSize h.frame .stop).body env (s.within h.frame) =
            (.returned (), (s.within h.frame).did h.closing 0) := finish_returned (h := h) (s := s.within h.frame) rfl ()
        show NextRun env s _ (((Generator.suspended blockSize h.frame .stop).body env (s.within h.frame)).1,
          Generator.after _ ((Generator.suspended blockSize h.frame .stop).body env (s.within h.frame)),
          ((Generator.suspended blockSize h.frame .stop).body env (s.within h.frame)).2.within s.frame)
        rw [hbody]
        exact .stop blockSize h
    · exact .finished

omit [PyImpl] [CImpl] in
/-- A `close()` at a `yield` runs the finalizers. -/
theorem close_suspended (blockSize : Int) (h : Session) (resume : Resume) (s : State) :
    (Generator.suspended blockSize h.frame resume).close s = (.returned (), .finished, s.did h.closing 0) := by
  have hexit : (Generator.suspended blockSize h.frame resume).exit
      (s.within (Generator.suspended blockSize h.frame resume).frame) =
        (.raised ⟨.generatorExit, "", []⟩, (s.within h.frame).did h.closing 0) :=
    finish_raised (h := h) (s := s.within h.frame) rfl _
  unfold Generator.close
  rw [run_apply, hexit]
  rfl

end Runs

end Monary
