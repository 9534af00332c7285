import Monary.Python.Loads
import Monary.Python.Reached

/-!
# Exceptions and the cleanup after them

* `quietCount`, `quietSession`, `quietQuery`, `quietAggregate`, `quietBlockQuery`, `quietBlockAggregate` : the
  methods, with `finally` clauses that only act: an exception leaves them as the step that failed raised it;
* `Call` : the calls of the four methods, for a generator each `next()`; `Call.error` : the exception that reaches
  the caller, `Call.stepError` : that of the step; `KeepsErrors` : they are the same;
* `Masks`, `session_masks` : a session replaces the exception of its own `_get_collection`, where `collection` is not
  bound yet, and no other;
* `ComesTo` : the sessions that a call comes to; `keepsErrors_iff`.
-/

namespace Monary
open CInt Effect

/-! ## Cleanup that only acts -/

/-- What reading the local variable `collection` raises as long as it is not bound. -/
def unboundCollection : PyExn :=
  ⟨.unboundLocalError, "local variable 'collection' referenced before assignment", []⟩

def quietCount (env : Env) (db coll : String) (query : PyValue) : Py Int := do
  setCollection none
  let n ← tryFinally (countBody env db coll query) (quietly destroyCollection)
  if n < 0 then raise ⟨.runtimeError, "Internal error in count()", []⟩ else return n

/-- `finalized`, for a body in both `try`. -/
def quietFinalized {α : Type} (body : Py α) : Py α :=
  tryFinally (tryFinally body (quietly closeCursor)) (quietly freeColumnData)

section Methods
variable [PyImpl] [CImpl]

def quietSession {α : Type} (env : Env) (db coll : String) (fields types : List String) (count : Int)
    (init : CollectionHandle → Py (Option (CursorHandle × MongocCursor))) (rest : Int → Py α) : Py α :=
  tryFinally (do
      let coldata ← makeColumnData env fields types count
      setColdata coldata
      setCursor none
      tryFinally (openCursor env db coll init rest) (quietly closeCursor))
    (quietly freeColumnData)

def quietQueryRows (env : Env) (a : QueryArgs) (fullQuery : Bytes) (n : Int) : Py (List MaskedArray) := do
  quietSession env a.db a.coll a.fields a.types (limited n a.limit)
    (monaryInitQuery env a.offset a.limit fullQuery a.selectFields) fun _ => pure ()
  colarrays (limited n a.limit)

def quietQuery (env inner : Env) (a : QueryArgs) (doCount : Bool) : Py (List MaskedArray) := do
  let plainQuery ← ofExcept (getPlainQuery env.encode a.query)
  let fullQuery ← ofExcept (getFullQuery env.encode a.query a.sort a.hint)
  if doCount = false ∧ a.limit > 0 then quietQueryRows env a fullQuery a.limit
  else do
    let n ← callMethod (quietCount inner a.db a.coll (.bytes plainQuery))
    quietQueryRows env a fullQuery n

def quietAggregateRows (env : Env) (a : AggregateArgs) (pipeline : PyValue) (n : Int) :
    Py (List MaskedArray) := do
  let encodedPipeline ← ofExcept (getPlainQuery env.encode pipeline)
  quietSession env a.db a.coll a.fields a.types (limited n a.limit) (monaryInitAggregate env encodedPipeline)
    fun _ => pure ()
  colarrays (limited n a.limit)

/-- As `aggregate` is in `aggregate_eq`. -/
def quietAggregate (env inner : Env) (a : AggregateArgs) (doCount : Bool) : Py (List MaskedArray) := do
  let pipeline ← ofExcept (getPipeline a.pipeline)
  if doCount = false ∧ a.limit > 0 then quietAggregateRows env a pipeline a.limit
  else do
    let pipeCopy ← ofExcept (appendStage pipeline countStage)
    let result ← callMethod
      (quietAggregateRows inner ⟨a.db, a.coll, pipeCopy, ["count"], ["int64"], 1⟩ pipeCopy 1)
    let n ← ofExcept (countOf result)
    quietAggregateRows env a pipeline n

def quietBlockQuery (env : Env) (a : QueryArgs) (blockSize : Int) : Py Unit := do
  let blockSize := atLeastOne blockSize
  let fullQuery ← ofExcept (getFullQuery env.encode a.query a.sort a.hint)
  quietSession env a.db a.coll a.fields a.types blockSize
    (monaryInitQuery env a.offset a.limit fullQuery a.selectFields) (blockTurn blockSize)

def quietBlockAggregate (env : Env) (a : AggregateArgs) (blockSize : Int) : Py Unit := do
  let blockSize := atLeastOne blockSize
  let pipeline ← ofExcept (getPipeline a.pipeline)
  let encodedPipeline ← ofExcept (getPlainQuery env.encode pipeline)
  quietSession env a.db a.coll a.fields a.types blockSize (monaryInitAggregate env encodedPipeline)
    (blockTurn blockSize)

/-! ## Calls -/

/-- A call of one of the four methods; the body of a generator runs at its `next()`. -/
inductive Call where
  | query (a : QueryArgs) (doCount : Bool)
  | aggregate (a : AggregateArgs) (doCount : Bool)
  | blockQuery (a : QueryArgs) (blockSize : Int)
  | blockAggregate (a : AggregateArgs) (blockSize : Int)
  /-- A `next()` of a generator that waits at a `yield` with the handles of `h` open. -/
  | resumed (blockSize : Int) (h : Session) (resume : Resume)

def raisedBy {α : Type} : Outcome PyExn (List MaskedArray × Resume) Fault α → Option PyExn
  | .raised e => some e
  | _ => none

namespace Call

/-- The exception that reaches the caller. -/
def error (env inner : Env) (s : State) : Call → Option PyExn
  | query a doCount => raisedBy (callMethod (Monary.query env inner a doCount) s).1
  | aggregate a doCount => raisedBy (callMethod (Monary.aggregate env inner a doCount) s).1
  | blockQuery a blockSize => raisedBy ((Generator.blockQuery a blockSize).next env s).1
  | blockAggregate a blockSize => raisedBy ((Generator.blockAggregate a blockSize).next env s).1
  | resumed blockSize h resume => raisedBy ((Generator.suspended blockSize h.frame resume).next env s).1

/-- The exception that the failing step raised. -/
def stepError (env inner : Env) (s : State) : Call → Option PyExn
  | query a doCount => raisedBy (callMethod (quietQuery env inner a doCount) s).1
  | aggregate a doCount => raisedBy (callMethod (quietAggregate env inner a doCount) s).1
  | blockQuery a blockSize => raisedBy (callMethod (quietBlockQuery env a blockSize) s).1
  | blockAggregate a blockSize => raisedBy (callMethod (quietBlockAggregate env a blockSize) s).1
  | resumed blockSize h .loop => raisedBy (quietFinalized (load env (blockTurn blockSize)) (s.within h.frame)).1
  | resumed _ h .stop => raisedBy (quietFinalized (pure () : Py Unit) (s.within h.frame)).1

end Call

/-- The exception that a step of the body raises is the one that reaches the caller. -/
def KeepsErrors (env inner : Env) (call : Call) (s : State) : Prop :=
  ∀ e, call.stepError env inner s = some e → call.error env inner s = some e

end Methods

/-! ## Finalizers -/

theorem freeColumnData_returned (s : State) : (freeColumnData s).1 = .returned () := by
  unfold freeColumnData
  rw [bind_of_returned (read_apply s)]
  rcases s.frame.coldata with _ | ⟨id, cd⟩ <;> rfl

theorem destroyCollection_returned (s : State) : (destroyCollection s).1 = .returned () := by
  unfold destroyCollection
  rw [bind_of_returned (read_apply s)]
  rcases s.frame.collection.join with _ | k <;> rfl

/-- Where `collection` is bound, the inner finalizer does not raise. -/
theorem closeCursor_returned {s : State} (h : s.collection.isSome) : (closeCursor s).1 = .returned () := by
  obtain ⟨log, connection, fresh, coldata, collection, cursor⟩ := s
  rcases collection with _ | _ | k
  · cases h
  · rcases cursor with _ | ⟨cursor, mcursor⟩ <;> rfl
  · rcases cursor with _ | ⟨cursor, mcursor⟩ <;> rfl

theorem quietly_freeColumnData : quietly freeColumnData = freeColumnData := by
  funext s
  exact quietly_of_returned (freeColumnData_returned s)

theorem quietly_destroyCollection : quietly destroyCollection = destroyCollection := by
  funext s
  exact quietly_of_returned (destroyCollection_returned s)

theorem quietCount_eq : quietCount = count := by
  funext env db coll query
  rw [quietCount, quietly_destroyCollection, count]

/-- The finalizers, where `collection` is bound. -/
theorem tryFinally_closeCursor {α : Type} {body : Py α} {s : State} (h : (body s).2.collection.isSome) :
    tryFinally body (quietly closeCursor) s = tryFinally body closeCursor s := by
  have hq := quietly_of_returned (closeCursor_returned h)
  rw [tryFinally_apply, tryFinally_apply]
  generalize body s = r at hq
  rcases r with ⟨a | e | b | x, t⟩
  · rw [runFinally, hq]
    rfl
  · rw [runFinally, hq]
    rfl
  · rfl
  · rfl

/-! ## What a finalizer replaces -/

/-- The two ends of a run, with finalizers that only act and as it is: they are one, or the finalizer has replaced
the exception, which is so if and only if `P`. -/
inductive Masks {α : Type} (P : Prop) :
    Outcome PyExn (List MaskedArray × Resume) Fault α × State →
    Outcome PyExn (List MaskedArray × Resume) Fault α × State → Prop
  | kept (r) : ¬ P → Masks P r r
  | replaced (e : PyExn) (t : State) : P → e ≠ unboundCollection →
      Masks P (.raised e, t) (.raised unboundCollection, t)

namespace Masks
variable {α β : Type} {P Q : Prop} {r r' : Outcome PyExn (List MaskedArray × Resume) Fault α × State}

theorem andThen (h : Masks P r r') (f : α → Py β) : Masks P (andThen r f) (andThen r' f) := by
  rcases h with ⟨r, hP⟩ | ⟨e, t, hP, he⟩
  · exact .kept _ hP
  · exact .replaced e t hP he

theorem within (h : Masks P r r') (f : Frame) : Masks P (r.1, r.2.within f) (r'.1, r'.2.within f) := by
  rcases h with ⟨r, hP⟩ | ⟨e, t, hP, he⟩
  · exact .kept _ hP
  · exact .replaced e (t.within f) hP he

/-- A masked exception ends the run; the run goes on from the same state on both sides. -/
theorem bind {f f' : α → Py β} (h : Masks P r r') (hP : P → Q)
    (hret : ∀ a t, ¬ P → r' = (.returned a, t) → Masks Q (f a t) (f' a t))
    (hend : ¬ P → (∀ a, r'.1 ≠ .returned a) → ¬ Q) : Masks Q (Effect.andThen r f) (Effect.andThen r' f') := by
  rcases h with ⟨r, hnot⟩ | ⟨e, t, h, he⟩
  · rcases r with ⟨a | e | b | x, t⟩
    · exact hret a t hnot rfl
    · exact .kept _ (hend hnot fun a h => by cases h)
    · exact .kept _ (hend hnot fun a h => by cases h)
    · exact .kept _ (hend hnot fun a h => by cases h)
  · exact .replaced e t (hP h) he

theorem congr (h : Masks P r r') (hPQ : P ↔ Q) : Masks Q r r' := by
  rcases h with ⟨r, hP⟩ | ⟨e, t, hP, he⟩
  · exact .kept r fun hQ => hP (hPQ.mpr hQ)
  · exact .replaced e t (hPQ.mp hP) he

/-- The exceptions at the two ends. -/
theorem raisedBy (h : Masks P r r') :
    (¬ P ∧ Monary.raisedBy r'.1 = Monary.raisedBy r.1) ∨
      P ∧ Monary.raisedBy r'.1 = some unboundCollection ∧
        ∃ e, e ≠ unboundCollection ∧ Monary.raisedBy r.1 = some e := by
  rcases h with ⟨r, hP⟩ | ⟨e, t, hP, he⟩
  · exact Or.inl ⟨hP, rfl⟩
  · exact Or.inr ⟨hP, rfl, e, he, rfl⟩

end Masks

/-- A session that is to be opened. -/
structure Opening where
  env : Env
  db : String
  coll : String
  fields : List String
  types : List String
  count : Int

/-- The columns are made and `_get_collection` raises: `collection` is not bound when the finalizer reads it. -/
structure Opening.Unbound [PyImpl] (o : Opening) (connection : Option Nat) : Prop where
  made : ColumnsMade o.env o.fields o.types o.count
  raises : ∃ e, collectionError o.env connection o.db o.coll = some e ∧ e ≠ unboundCollection

section Sessions
variable [PyImpl] [CImpl] {α : Type} {o : Opening} {s : State}
  {init : CollectionHandle → Py (Option (CursorHandle × MongocCursor))} {rest : Int → Py α}

/-- What a session masks. -/
theorem session_masks (hs : s.frame = Frame.start) (hinit : ∀ k, Preserves State.collection (init k))
    (hrest : ∀ n, Preserves State.collection (rest n)) :
    Masks (o.Unbound s.connection) (quietSession o.env o.db o.coll o.fields o.types o.count init rest s)
      (session o.env o.db o.coll o.fields o.types o.count init rest s) := by
  obtain ⟨log, connection, fresh, frame⟩ := s
  dsimp only at hs
  subst hs
  rw [quietSession, session, quietly_freeColumnData, tryFinally_apply, tryFinally_apply, bind_apply, bind_apply]
  rcases makeColumnData_outcome o.env o.fields o.types o.count ⟨log, connection, fresh, Frame.start⟩ with
    ⟨e, s', hmake, -, hnot⟩ | ⟨cd, hmade, -, hmake⟩
  · rw [hmake]
    exact .kept _ fun h => hnot h.made
  · rw [hmake, andThen_returned, andThen_returned]
    show Masks _
      (runFinally (tryFinally (openCursor o.env o.db o.coll init rest) (quietly closeCursor)
        (((State.mk log connection fresh Frame.start).did [.allocColumnData (some fresh)] 1).within
          ⟨some (fresh, cd), none, none⟩)) freeColumnData)
      (runFinally (tryFinally (openCursor o.env o.db o.coll init rest) closeCursor
        (((State.mk log connection fresh Frame.start).did [.allocColumnData (some fresh)] 1).within
          ⟨some (fresh, cd), none, none⟩)) freeColumnData)
    -- the state in which the inner `try` starts
    generalize ht : ((State.mk log connection fresh Frame.start).did [.allocColumnData (some fresh)] 1).within
      ⟨some (fresh, cd), none, none⟩ = t
    have hconn : t.connection = connection := by
      rw [← ht]
      rfl
    rcases hget : collectionError o.env t.connection o.db o.coll with _ | e
    · have hbound := openCursor_bound hget hinit hrest
      rw [tryFinally_closeCursor hbound]
      refine .kept _ ?_
      rintro ⟨-, e, he, -⟩
      rw [← hconn, hget] at he
      cases he
    · rw [tryFinally_apply, tryFinally_apply, openCursor_of_error hget, ← ht]
      by_cases he : e = unboundCollection
      · subst he
        refine .kept _ ?_
        rintro ⟨-, e', he', hne⟩
        rw [← hconn, hget] at he'
        exact hne (Option.some.inj he').symm
      · exact .replaced e _ ⟨hmade, e, by rw [← hconn]; exact hget, he⟩ he

theorem queryRows_masks (env : Env) (a : QueryArgs) (fullQuery : Bytes) (n : Int) (hs : s.frame = Frame.start) :
    Masks ((Opening.mk env a.db a.coll a.fields a.types (limited n a.limit)).Unbound s.connection)
      (quietQueryRows env a fullQuery n s) (queryRows env a fullQuery n s) := by
  have hrest : ∀ _ : Int, Preserves State.collection (pure () : Py Unit) := fun _ => preserves_pure ()
  have hmasks := session_masks (o := ⟨env, a.db, a.coll, a.fields, a.types, limited n a.limit⟩) hs
    (preserves_initCursor env · (findReply env a.offset a.limit fullQuery a.selectFields)) hrest
  exact hmasks.andThen fun _ => colarrays (limited n a.limit)

theorem aggregateRows_masks (env : Env) (a : AggregateArgs) (pipeline : PyValue) (n : Int)
    (hs : s.frame = Frame.start) :
    Masks ((∃ encoded, getPlainQuery env.encode pipeline = .ok encoded) ∧
        (Opening.mk env a.db a.coll a.fields a.types (limited n a.limit)).Unbound s.connection)
      (quietAggregateRows env a pipeline n s) (aggregateRows env a pipeline n s) := by
  unfold quietAggregateRows aggregateRows
  rcases hp : getPlainQuery env.encode pipeline with e | encoded
  · rw [ofExcept_bind_error rfl, ofExcept_bind_error rfl]
    refine .kept _ ?_
    rintro ⟨⟨encoded, h⟩, -⟩
    cases h
  · have hrest : ∀ _ : Int, Preserves State.collection (pure () : Py Unit) := fun _ => preserves_pure ()
    have hmasks := session_masks (o := ⟨env, a.db, a.coll, a.fields, a.types, limited n a.limit⟩) hs
      (preserves_initCursor env · fun _ => aggregateReply env encoded) hrest
    have hiff : (∃ encoded', (.ok encoded : Except PyExn Bytes) = .ok encoded') := ⟨encoded, rfl⟩
    exact (hmasks.andThen fun _ => colarrays (limited n a.limit)).congr (and_iff_right hiff).symm

/-! ## Calls and their sessions -/

/-- The sessions that a call comes to. -/
inductive ComesTo (env inner : Env) (s : State) : Call → Opening → Prop
  | query (a : QueryArgs) (doCount : Bool) (plainQuery fullQuery : Bytes) :
      getPlainQuery env.encode a.query = .ok plainQuery →
      getFullQuery env.encode a.query a.sort a.hint = .ok fullQuery → doCount = false ∧ a.limit > 0 →
      ComesTo env inner s (.query a doCount) ⟨env, a.db, a.coll, a.fields, a.types, a.limit⟩
  | countedQuery (a : QueryArgs) (doCount : Bool) (plainQuery fullQuery : Bytes) (n : Int) :
      getPlainQuery env.encode a.query = .ok plainQuery →
      getFullQuery env.encode a.query a.sort a.hint = .ok fullQuery → ¬ (doCount = false ∧ a.limit > 0) →
      (callMethod (count inner a.db a.coll (.bytes plainQuery)) s).1 = .returned n →
      ComesTo env inner s (.query a doCount) ⟨env, a.db, a.coll, a.fields, a.types, limited n a.limit⟩
  | blockQuery (a : QueryArgs) (blockSize : Int) (fullQuery : Bytes) :
      getFullQuery env.encode a.query a.sort a.hint = .ok fullQuery →
      ComesTo env inner s (.blockQuery a blockSize) ⟨env, a.db, a.coll, a.fields, a.types, atLeastOne blockSize⟩
  | aggregate (a : AggregateArgs) (doCount : Bool) (pipeline : PyValue) (encoded : Bytes) :
      getPipeline a.pipeline = .ok pipeline → doCount = false ∧ a.limit > 0 →
      getPlainQuery env.encode pipeline = .ok encoded →
      ComesTo env inner s (.aggregate a doCount) ⟨env, a.db, a.coll, a.fields, a.types, a.limit⟩
  /-- The session of the call that counts. -/
  | counting (a : AggregateArgs) (doCount : Bool) (pipeline pipeCopy : PyValue) (encoded : Bytes) :
      getPipeline a.pipeline = .ok pipeline → ¬ (doCount = false ∧ a.limit > 0) →
      appendStage pipeline countStage = .ok pipeCopy → getPlainQuery inner.encode pipeCopy = .ok encoded →
      ComesTo env inner s (.aggregate a doCount) ⟨inner, a.db, a.coll, ["count"], ["int64"], 1⟩
  | countedAggregate (a : AggregateArgs) (doCount : Bool) (pipeline pipeCopy : PyValue) (encoded : Bytes)
      (result : List MaskedArray) (n : Int) :
      getPipeline a.pipeline = .ok pipeline → ¬ (doCount = false ∧ a.limit > 0) →
      appendStage pipeline countStage = .ok pipeCopy →
      (callMethod (aggregateRows inner ⟨a.db, a.coll, pipeCopy, ["count"], ["int64"], 1⟩ pipeCopy 1) s).1 =
        .returned result → countOf result = .ok n → getPlainQuery env.encode pipeline = .ok encoded →
      ComesTo env inner s (.aggregate a doCount) ⟨env, a.db, a.coll, a.fields, a.types, limited n a.limit⟩
  | blockAggregate (a : AggregateArgs) (blockSize : Int) (pipeline : PyValue) (encoded : Bytes) :
      getPipeline a.pipeline = .ok pipeline → getPlainQuery env.encode pipeline = .ok encoded →
      ComesTo env inner s (.blockAggregate a blockSize)
        ⟨env, a.db, a.coll, a.fields, a.types, atLeastOne blockSize⟩

/-- A session that the call comes to finds `collection` unbound in its finalizer. -/
def Call.Unbound (env inner : Env) (s : State) (call : Call) : Prop :=
  ∃ o, ComesTo env inner s call o ∧ o.Unbound s.connection

omit [PyImpl] [CImpl] in
theorem limited_self (limit : Int) : limited limit limit = limit := by
  unfold limited
  exact if_neg (by omega)

omit [PyImpl] [CImpl] in
/-- A method that was called leaves connection and local variables. -/
theorem count_returned {env : Env} {db coll : String} {query : PyValue} {n : Int} {s' : State}
    (hs : s.frame = Frame.start) (h : callMethod (count env db coll query) s = (.returned n, s')) :
    s'.frame = Frame.start ∧ s'.connection = s.connection := by
  have hrun := count_run env db coll query hs
  rw [h] at hrun
  rcases hrun with _ | _ | ⟨m, trace, k, -, -⟩
  exact ⟨hs, rfl⟩

section Query
variable {env inner : Env} {a : QueryArgs} {doCount : Bool} {plainQuery fullQuery : Bytes}

theorem ComesTo.encoded (h : ComesTo env inner s (.query a doCount) o) :
    ∃ plainQuery fullQuery, getPlainQuery env.encode a.query = .ok plainQuery ∧
      getFullQuery env.encode a.query a.sort a.hint = .ok fullQuery := by
  cases h with
  | query _ _ p f hp hf => exact ⟨p, f, hp, hf⟩
  | countedQuery _ _ p f _ hp hf => exact ⟨p, f, hp, hf⟩

/-- The session of a query that counts. -/
theorem ComesTo.sizedByCount (h : ComesTo env inner s (.query a doCount) o)
    (hp : getPlainQuery env.encode a.query = .ok plainQuery) (hlimit : ¬ (doCount = false ∧ a.limit > 0)) :
    ∃ n, (callMethod (count inner a.db a.coll (.bytes plainQuery)) s).1 = .returned n ∧
      o = ⟨env, a.db, a.coll, a.fields, a.types, limited n a.limit⟩ := by
  cases h with
  | query _ _ _ _ _ _ hl => exact absurd hl hlimit
  | countedQuery _ _ _ _ n hp' _ _ hn =>
    rw [hp] at hp'
    cases hp'
    exact ⟨n, hn, rfl⟩

/-- The sized session of `query`. -/
theorem limitedQuery_masks (hs : s.frame = Frame.start) (hp : getPlainQuery env.encode a.query = .ok plainQuery)
    (hf : getFullQuery env.encode a.query a.sort a.hint = .ok fullQuery) (hlimit : doCount = false ∧ a.limit > 0) :
    Masks ((Call.query a doCount).Unbound env inner s) (quietQueryRows env a fullQuery a.limit s)
      (queryRows env a fullQuery a.limit s) := by
  refine (queryRows_masks env a fullQuery a.limit hs).congr ?_
  rw [limited_self]
  constructor
  · intro h
    exact ⟨_, .query a doCount plainQuery fullQuery hp hf hlimit, h⟩
  · rintro ⟨o, ho, h⟩
    cases ho with
    | query => exact h
    | countedQuery _ _ _ _ _ _ _ hnot => exact absurd hlimit hnot

/-- The count of `query` and the session that it sizes. -/
theorem countedQuery_masks (hs : s.frame = Frame.start) (hp : getPlainQuery env.encode a.query = .ok plainQuery)
    (hf : getFullQuery env.encode a.query a.sort a.hint = .ok fullQuery)
    (hlimit : ¬ (doCount = false ∧ a.limit > 0)) :
    Masks ((Call.query a doCount).Unbound env inner s)
      (andThen (callMethod (quietCount inner a.db a.coll (.bytes plainQuery)) s) (quietQueryRows env a fullQuery))
      (andThen (callMethod (count inner a.db a.coll (.bytes plainQuery)) s) (queryRows env a fullQuery)) := by
  rw [quietCount_eq]
  rcases hcount : callMethod (count inner a.db a.coll (.bytes plainQuery)) s with ⟨n | e | b | x, s'⟩
  · obtain ⟨hframe, hconn⟩ := count_returned hs hcount
    rw [andThen_returned, andThen_returned]
    refine (queryRows_masks env a fullQuery n hframe).congr ?_
    rw [hconn]
    constructor
    · intro h
      exact ⟨_, .countedQuery a doCount plainQuery fullQuery n hp hf hlimit (by rw [hcount]), h⟩
    · rintro ⟨o, ho, h⟩
      obtain ⟨m, hm, rfl⟩ := ho.sizedByCount hp hlimit
      rw [hcount] at hm
      cases hm
      exact h
  all_goals
    refine .kept _ ?_
    rintro ⟨o, ho, -⟩
    obtain ⟨m, hm, -⟩ := ho.sizedByCount hp hlimit
    rw [hcount] at hm
    cases hm

end Query

theorem query_masks (env inner : Env) (a : QueryArgs) (doCount : Bool) (hs : s.frame = Frame.start) :
    Masks ((Call.query a doCount).Unbound env inner s) (quietQuery env inner a doCount s)
      (query env inner a doCount s) := by
  unfold quietQuery query
  rcases hp : getPlainQuery env.encode a.query with e | plainQuery
  · rw [ofExcept_bind_error rfl, ofExcept_bind_error rfl]
    refine .kept _ ?_
    rintro ⟨o, ho, -⟩
    obtain ⟨p, f, h, -⟩ := ho.encoded
    rw [hp] at h
    cases h
  rw [ofExcept_bind_ok rfl, ofExcept_bind_ok rfl]
  rcases hf : getFullQuery env.encode a.query a.sort a.hint with e | fullQuery
  · rw [ofExcept_bind_error rfl, ofExcept_bind_error rfl]
    refine .kept _ ?_
    rintro ⟨o, ho, -⟩
    obtain ⟨p, f, -, h⟩ := ho.encoded
    rw [hf] at h
    cases h
  rw [ofExcept_bind_ok rfl, ofExcept_bind_ok rfl]
  by_cases hlimit : doCount = false ∧ a.limit > 0
  · rw [if_pos hlimit, if_pos hlimit]
    exact limitedQuery_masks hs hp hf hlimit
  · rw [if_neg hlimit, if_neg hlimit, bind_apply, bind_apply]
    exact countedQuery_masks hs hp hf hlimit

section Aggregate
variable {env inner : Env} {a : AggregateArgs} {doCount : Bool} {p p' : PyValue}

theorem ComesTo.getPipeline (h : ComesTo env inner s (.aggregate a doCount) o) :
    ∃ p, Monary.getPipeline a.pipeline = .ok p := by
  cases h with
  | aggregate _ _ p _ h => exact ⟨p, h⟩
  | counting _ _ p _ _ h => exact ⟨p, h⟩
  | countedAggregate _ _ p _ _ _ _ h => exact ⟨p, h⟩

/-- The sessions of a call that counts. -/
theorem ComesTo.counted (h : ComesTo env inner s (.aggregate a doCount) o)
    (hp : Monary.getPipeline a.pipeline = .ok p) (hlimit : ¬ (doCount = false ∧ a.limit > 0)) :
    ∃ p', appendStage p countStage = .ok p' ∧
      ((∃ encoded, getPlainQuery inner.encode p' = .ok encoded ∧
          o = ⟨inner, a.db, a.coll, ["count"], ["int64"], 1⟩) ∨
        ∃ result n encoded,
          (callMethod (aggregateRows inner ⟨a.db, a.coll, p', ["count"], ["int64"], 1⟩ p' 1) s).1 =
            .returned result ∧ countOf result = .ok n ∧ getPlainQuery env.encode p = .ok encoded ∧
          o = ⟨env, a.db, a.coll, a.fields, a.types, limited n a.limit⟩) := by
  cases h with
  | aggregate _ _ _ _ _ hl => exact absurd hl hlimit
  | counting _ _ q p' encoded hq _ hcopy henc =>
    rw [hp] at hq
    cases hq
    exact ⟨p', hcopy, Or.inl ⟨encoded, henc, rfl⟩⟩
  | countedAggregate _ _ q p' encoded result n hq _ hcopy hrun hn henc =>
    rw [hp] at hq
    cases hq
    exact ⟨p', hcopy, Or.inr ⟨result, n, encoded, hrun, hn, henc, rfl⟩⟩

end Aggregate

theorem counting_returned {env : Env} {a : AggregateArgs} {pipeline : PyValue} {n : Int}
    {result : List MaskedArray} {s' : State} (hs : s.frame = Frame.start)
    (h : callMethod (aggregateRows env a pipeline n) s = (.returned result, s')) :
    s'.frame = Frame.start ∧ s'.connection = s.connection := by
  rw [callMethod_apply _ hs] at h
  rcases aggregateRows_run env a pipeline n hs with ⟨e, hrun⟩ | ⟨encoded, -, hrun⟩
  · rw [hrun] at h
    cases h
  · generalize aggregateRows env a pipeline n s = res at h hrun
    rcases hrun with _ | _ | _
    · cases h
    · cases h
    · cases h
      exact ⟨rfl, rfl⟩

section Aggregate
variable {env inner : Env} {a : AggregateArgs} {doCount : Bool} {p p' : PyValue}

/-- The sized session of `aggregate`. -/
theorem limitedAggregate_masks (hs : s.frame = Frame.start) (hp : getPipeline a.pipeline = .ok p)
    (hlimit : doCount = false ∧ a.limit > 0) :
    Masks ((Call.aggregate a doCount).Unbound env inner s) (quietAggregateRows env a p a.limit s)
      (aggregateRows env a p a.limit s) := by
  refine (aggregateRows_masks env a p a.limit hs).congr ?_
  rw [limited_self]
  constructor
  · rintro ⟨⟨encoded, henc⟩, h⟩
    exact ⟨_, .aggregate a doCount p encoded hp hlimit henc, h⟩
  · rintro ⟨o, ho, h⟩
    cases ho with
    | aggregate _ _ _ encoded hp' _ henc =>
      rw [hp] at hp'
      cases hp'
      exact ⟨⟨encoded, henc⟩, h⟩
    | counting _ _ _ _ _ _ hnot => exact absurd hlimit hnot
    | countedAggregate _ _ _ _ _ _ _ _ hnot => exact absurd hlimit hnot

/-- The session that is sized by the call that counts, once this has returned. -/
theorem sizedAggregate_masks {result : List MaskedArray} {t : State} (hs : s.frame = Frame.start)
    (hp : getPipeline a.pipeline = .ok p) (hlimit : ¬ (doCount = false ∧ a.limit > 0))
    (hcopy : appendStage p countStage = .ok p')
    (hnot : ¬ ((∃ encoded, getPlainQuery inner.encode p' = .ok encoded) ∧
      (Opening.mk inner a.db a.coll ["count"] ["int64"] 1).Unbound s.connection))
    (hresult : callMethod (aggregateRows inner ⟨a.db, a.coll, p', ["count"], ["int64"], 1⟩ p' 1) s =
      (.returned result, t)) :
    Masks ((Call.aggregate a doCount).Unbound env inner s)
      ((do let n ← ofExcept (countOf result); quietAggregateRows env a p n : Py (List MaskedArray)) t)
      ((do let n ← ofExcept (countOf result); aggregateRows env a p n : Py (List MaskedArray)) t) := by
  obtain ⟨hf, hconn⟩ := counting_returned hs hresult
  -- only a second session can be left
  have hsecond {o : Opening} (ho : ComesTo env inner s (.aggregate a doCount) o) (h : o.Unbound s.connection) :
      ∃ n encoded, countOf result = .ok n ∧ getPlainQuery env.encode p = .ok encoded ∧
        o = ⟨env, a.db, a.coll, a.fields, a.types, limited n a.limit⟩ := by
    obtain ⟨q, hq, hcases⟩ := ho.counted hp hlimit
    rw [hcopy] at hq
    cases hq
    rcases hcases with ⟨encoded, henc, rfl⟩ | ⟨result', n, encoded, hres, hn, henc, ho⟩
    · exact absurd ⟨⟨encoded, henc⟩, h⟩ hnot
    · rw [hresult] at hres
      cases hres
      exact ⟨n, encoded, hn, henc, ho⟩
  rcases hn : countOf result with e | n
  · rw [ofExcept_bind_error rfl, ofExcept_bind_error rfl]
    refine .kept _ ?_
    rintro ⟨o, ho, h⟩
    obtain ⟨n, _, hn', -⟩ := hsecond ho h
    rw [hn] at hn'
    cases hn'
  · rw [ofExcept_bind_ok rfl, ofExcept_bind_ok rfl]
    refine (aggregateRows_masks env a p n hf).congr ?_
    rw [hconn]
    constructor
    · rintro ⟨⟨encoded, henc⟩, h⟩
      exact ⟨_, .countedAggregate a doCount p p' encoded result n hp hlimit hcopy (by rw [hresult]) hn henc, h⟩
    · rintro ⟨o, ho, h⟩
      obtain ⟨m, encoded, hm, henc, rfl⟩ := hsecond ho h
      rw [hn] at hm
      cases hm
      exact ⟨⟨encoded, henc⟩, h⟩

end Aggregate

theorem aggregate_masks (env inner : Env) (a : AggregateArgs) (doCount : Bool) (hs : s.frame = Frame.start) :
    Masks ((Call.aggregate a doCount).Unbound env inner s) (quietAggregate env inner a doCount s)
      (aggregate env inner a doCount s) := by
  rw [aggregate_eq]
  unfold quietAggregate
  rcases hp : getPipeline a.pipeline with e | p
  · rw [ofExcept_bind_error rfl, ofExcept_bind_error rfl]
    refine .kept _ ?_
    rintro ⟨o, ho, -⟩
    obtain ⟨p, h⟩ := ho.getPipeline
    rw [hp] at h
    cases h
  rw [ofExcept_bind_ok rfl, ofExcept_bind_ok rfl]
  by_cases hlimit : doCount = false ∧ a.limit > 0
  · rw [if_pos hlimit, if_pos hlimit]
    exact limitedAggregate_masks hs hp hlimit
  rw [if_neg hlimit, if_neg hlimit]
  rcases hcopy : appendStage p countStage with e | p'
  · rw [ofExcept_bind_error rfl, ofExcept_bind_error rfl]
    refine .kept _ ?_
    rintro ⟨o, ho, -⟩
    obtain ⟨p', h, -⟩ := ho.counted hp hlimit
    rw [hcopy] at h
    cases h
  rw [ofExcept_bind_ok rfl, ofExcept_bind_ok rfl, bind_apply, bind_apply]
  have hcounting := (aggregateRows_masks inner ⟨a.db, a.coll, p', ["count"], ["int64"], 1⟩ p' 1 hs).within Frame.start
  rw [← callMethod_apply _ hs, ← callMethod_apply _ hs] at hcounting
  refine hcounting.bind ?_ ?_ ?_
  · rintro ⟨⟨encoded, henc⟩, h⟩
    exact ⟨_, .counting a doCount p p' encoded hp hlimit hcopy henc, h⟩
  · intro result t hnot hresult
    exact sizedAggregate_masks hs hp hlimit hcopy hnot hresult
  · rintro hnot hend ⟨o, ho, h⟩
    obtain ⟨q, hq, hcases⟩ := ho.counted hp hlimit
    rw [hcopy] at hq
    cases hq
    rcases hcases with ⟨encoded, henc, rfl⟩ | ⟨result', n, encoded, hres, -⟩
    · exact hnot ⟨⟨encoded, henc⟩, h⟩
    · exact hend result' hres

theorem blockQuery_masks (env inner : Env) (a : QueryArgs) (blockSize : Int) (hs : s.frame = Frame.start) :
    Masks ((Call.blockQuery a blockSize).Unbound env inner s) (quietBlockQuery env a blockSize s)
      (blockQuery env a blockSize s) := by
  unfold quietBlockQuery blockQuery
  rcases hfq : getFullQuery env.encode a.query a.sort a.hint with e | fullQuery
  · rw [ofExcept_bind_error rfl, ofExcept_bind_error rfl]
    refine .kept _ ?_
    rintro ⟨o, ho, -⟩
    cases ho with
    | blockQuery _ _ _ h =>
      rw [hfq] at h
      cases h
  · have hmasks := session_masks (o := ⟨env, a.db, a.coll, a.fields, a.types, atLeastOne blockSize⟩) hs
      (preserves_initCursor env · (findReply env a.offset a.limit fullQuery a.selectFields))
      (preserves_blockTurn (atLeastOne blockSize))
    refine hmasks.congr ?_
    constructor
    · intro h
      exact ⟨_, .blockQuery a blockSize fullQuery hfq, h⟩
    · rintro ⟨o, ho, h⟩
      cases ho
      exact h

theorem blockAggregate_masks (env inner : Env) (a : AggregateArgs) (blockSize : Int)
    (hs : s.frame = Frame.start) :
    Masks ((Call.blockAggregate a blockSize).Unbound env inner s) (quietBlockAggregate env a blockSize s)
      (blockAggregate env a blockSize s) := by
  unfold quietBlockAggregate blockAggregate
  rcases hp : getPipeline a.pipeline with e | pipeline
  · rw [ofExcept_bind_error rfl, ofExcept_bind_error rfl]
    refine .kept _ ?_
    rintro ⟨o, ho, -⟩
    cases ho with
    | blockAggregate _ _ _ _ h =>
      rw [hp] at h
      cases h
  rw [ofExcept_bind_ok rfl, ofExcept_bind_ok rfl]
  rcases henc : getPlainQuery env.encode pipeline with e | encoded
  · rw [ofExcept_bind_error rfl, ofExcept_bind_error rfl]
    refine .kept _ ?_
    rintro ⟨o, ho, -⟩
    cases ho with
    | blockAggregate _ _ _ _ h h' =>
      rw [hp] at h
      cases h
      rw [henc] at h'
      cases h'
  · have hmasks := session_masks (o := ⟨env, a.db, a.coll, a.fields, a.types, atLeastOne blockSize⟩) hs
      (preserves_initCursor env · fun _ => aggregateReply env encoded)
      (preserves_blockTurn (atLeastOne blockSize))
    refine hmasks.congr ?_
    constructor
    · intro h
      exact ⟨_, .blockAggregate a blockSize pipeline encoded hp henc, h⟩
    · rintro ⟨o, ho, h⟩
      cases ho
      exact h

omit [PyImpl] [CImpl] in
/-- A generator that waits at a `yield` has `collection` bound. -/
theorem quietFinalized_eq {body : Py α} {h : Session} (hf : s.frame = h.frame)
    (hbody : Preserves State.collection body) : quietFinalized body s = finalized body s := by
  have hbound : (body s).2.collection.isSome := by
    rw [hbody.eq, State.collection, hf]
    rfl
  have hclose : tryFinally body (quietly closeCursor) s = tryFinally body closeCursor s := tryFinally_closeCursor hbound
  rw [quietFinalized, quietly_freeColumnData, tryFinally_apply, hclose]
  rfl

/-! ## The exception that reaches the caller -/

/-- The local variables of the caller do not matter. -/
theorem ComesTo.within {env inner : Env} {call : Call} (h : ComesTo env inner s call o) (f : Frame) :
    ComesTo env inner (s.within f) call o := by
  cases h with
  | query a d p q hp hq hl => exact .query a d p q hp hq hl
  | countedQuery a d p q n hp hq hl hn => exact .countedQuery a d p q n hp hq hl hn
  | blockQuery a b q hq => exact .blockQuery a b q hq
  | aggregate a d p e hp hl he => exact .aggregate a d p e hp hl he
  | counting a d p p' e hp hl hp' he => exact .counting a d p p' e hp hl hp' he
  | countedAggregate a d p p' e r n hp hl hp' hr hn he => exact .countedAggregate a d p p' e r n hp hl hp' hr hn he
  | blockAggregate a b p e hp he => exact .blockAggregate a b p e hp he

theorem unbound_within {env inner : Env} {call : Call} (f : Frame) :
    call.Unbound env inner (s.within f) ↔ call.Unbound env inner s := by
  constructor
  · rintro ⟨o, ho, h⟩
    exact ⟨o, ho.within s.frame, h⟩
  · rintro ⟨o, ho, h⟩
    exact ⟨o, ho.within f, h⟩

/-- A call that resumes a generator comes to no session. -/
theorem not_unbound_resumed {env inner : Env} {blockSize : Int} {h : Session} {resume : Resume} :
    ¬ (Call.resumed blockSize h resume).Unbound env inner s := by
  rintro ⟨o, ho, -⟩
  cases ho

/-- What reaches the caller is what the step raised, or that `collection` is not bound. -/
theorem error_cases (env inner : Env) (call : Call) (s : State) :
    (¬ call.Unbound env inner s ∧ call.error env inner s = call.stepError env inner s) ∨
      call.Unbound env inner s ∧ call.error env inner s = some unboundCollection ∧
        ∃ e, e ≠ unboundCollection ∧ call.stepError env inner s = some e := by
  rcases call with ⟨a, doCount⟩ | ⟨a, doCount⟩ | ⟨a, blockSize⟩ | ⟨a, blockSize⟩ | ⟨blockSize, h, resume⟩
  · rw [← unbound_within Frame.start]
    exact (query_masks env inner a doCount (s := s.within Frame.start) rfl).raisedBy
  · rw [← unbound_within Frame.start]
    exact (aggregate_masks env inner a doCount (s := s.within Frame.start) rfl).raisedBy
  · rw [← unbound_within Frame.start]
    exact (blockQuery_masks env inner a blockSize (s := s.within Frame.start) rfl).raisedBy
  · rw [← unbound_within Frame.start]
    exact (blockAggregate_masks env inner a blockSize (s := s.within Frame.start) rfl).raisedBy
  · left
    refine ⟨not_unbound_resumed, ?_⟩
    rcases resume with _ | _
    · have hq := quietFinalized_eq (s := s.within h.frame) (h := h) rfl
        (preserves_bind (preserves_loadQuery env) (preserves_blockTurn blockSize))
      show raisedBy (finalized (load env (blockTurn blockSize)) (s.within h.frame)).1 =
        raisedBy (quietFinalized (load env (blockTurn blockSize)) (s.within h.frame)).1
      rw [load, hq]
    · have hq := quietFinalized_eq (s := s.within h.frame) (h := h) rfl (preserves_pure ())
      show raisedBy (finalized (pure () : Py Unit) (s.within h.frame)).1 =
        raisedBy (quietFinalized (pure () : Py Unit) (s.within h.frame)).1
      rw [hq]

/-- On a closed connection every session with its columns made hides the `ValueError` of `_get_collection`. -/
theorem error_closed {env inner : Env} {call : Call} (hs : s.connection = none) (ho : ComesTo env inner s call o)
    (hmade : ColumnsMade o.env o.fields o.types o.count) : call.error env inner s = some unboundCollection := by
  have hget : collectionError o.env s.connection o.db o.coll =
      some ⟨.valueError, "failed to get collection %s.%s - not connected", [.str o.db, .str o.coll]⟩ := by
    rw [hs]
    rfl
  have hunbound : call.Unbound env inner s := ⟨o, ho, hmade, _, hget, nofun⟩
  rcases error_cases env inner call s with ⟨hnot, -⟩ | ⟨-, herr, -⟩
  · exact absurd hunbound hnot
  · exact herr

/-- A call keeps the exceptions of its steps if and only if no session that it comes to has its columns made and
fails in its `_get_collection`. -/
theorem keepsErrors_iff (env inner : Env) (call : Call) (s : State) :
    KeepsErrors env inner call s ↔ ∀ o, ComesTo env inner s call o → ¬ o.Unbound s.connection := by
  rcases error_cases env inner call s with ⟨hnot, herr⟩ | ⟨⟨o, ho, h⟩, herr, e, he, hstep⟩
  · apply iff_of_true
    · intro e hstep
      rw [herr, hstep]
    · intro o ho h
      exact hnot ⟨o, ho, h⟩
  · apply iff_of_false
    · intro hkeeps
      have hsame := hkeeps e hstep
      rw [herr] at hsame
      exact he (Option.some.inj hsame).symm
    · intro hall
      exact hall o ho h

end Sessions

/-- An object that is not connected. -/
def closedState : State := ⟨[], none, 0, Frame.start⟩

/-- The first block of all documents, as one `int8` column. -/
def firstBlock : Call := .blockQuery ⟨"test", "numbers", .bytes [5, 0, 0, 0, 0], ["d"], ["int8"], .none, .none, 0, 0, false⟩ 1

/-- On a closed connection the first `next()` raises an `UnboundLocalError`. -/
theorem not_forall_keepsErrors :
    ¬ ∀ env inner call s, @KeepsErrors PyImpl.ascii CImpl.x86 env inner call s := by
  intro h
  let _ := PyImpl.ascii
  let _ := CImpl.x86
  have hkeeps := h quietEnv quietEnv firstBlock closedState
    ⟨.valueError, "failed to get collection %s.%s - not connected", [.str "test", .str "numbers"]⟩ rfl
  have herr : firstBlock.error quietEnv quietEnv closedState = some unboundCollection := rfl
  rw [herr] at hkeeps
  cases hkeeps

end Monary
