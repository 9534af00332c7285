import Monary.Python.Cleanup
import Monary.Python.Sizing

/-!
# Byte strings given as queries

* `ReadsOutside`, `Malformed` : what the check of the bytes does with a byte string, told by its length, the size it
  starts with and the byte this leads to; `bsonInitStatic_cases`;
* `BytesCall` : the calls that a byte string is given to; `BytesChecked` : the call raises, or goes on with a
  document that lies inside the byte string. Reads outside it and loads from `NULL` are faults, no exceptions;
* `ReachesCount`, `ReachesInit` : the call comes to `monary_query_count`, to `monary_init_query`;
* `proceedsWith_doc` : the bytes behind an accepted document do not matter;
* `RaisesUnless`, `count_notAccepted`, `session_notAccepted` : when a byte string that is not accepted ends in an
  exception; `bytesChecked_iff`.
-/

namespace Monary
open ByteSeq CInt Effect

/-! ## The check of the bytes -/

/-- The size that the bytes start with. -/
def headerLength (data : Bytes) : Nat := leNat (slice data 0 4)

/-- The check reads a byte behind the data. -/
def ReadsOutside (data : Bytes) : Prop :=
  data.length < 4 ∨ 5 ≤ headerLength data ∧ headerLength data < 2 ^ 31 ∧ data.length < headerLength data

/-- The check finds its bytes and refuses them. -/
def Malformed (data : Bytes) : Prop :=
  4 ≤ data.length ∧ (headerLength data < 5 ∨ 2 ^ 31 ≤ headerLength data ∨
    headerLength data ≤ data.length ∧ data[headerLength data - 1]? ≠ some 0)

theorem bsonInitStatic_cases (data : Bytes) :
    (ReadsOutside data ∧ ¬ Malformed data ∧ bsonInitStatic data = .error .undefined) ∨
      (¬ ReadsOutside data ∧ Malformed data ∧ bsonInitStatic data = .ok none) ∨
      ¬ ReadsOutside data ∧ ¬ Malformed data ∧ bsonInitStatic data = .ok (some (data.take (headerLength data))) := by
  unfold bsonInitStatic ReadsOutside Malformed
  rw [show leNat (slice data 0 4) = headerLength data from rfl]
  by_cases h4 : data.length < 4
  · rw [if_pos h4]
    exact Or.inl ⟨Or.inl h4, by omega, rfl⟩
  rw [if_neg h4]
  dsimp only
  by_cases hsize : headerLength data < 5 ∨ headerLength data ≥ 2 ^ 31
  · rw [if_pos hsize]
    exact Or.inr (Or.inl ⟨by omega, ⟨by omega, by omega⟩, rfl⟩)
  rw [if_neg hsize]
  rcases hlast : data[headerLength data - 1]? with _ | last
  · have hlen : data.length ≤ headerLength data - 1 := List.getElem?_eq_none_iff.mp hlast
    exact Or.inl ⟨by omega, by omega, rfl⟩
  · have hlen : headerLength data - 1 < data.length := (List.getElem?_eq_some_iff.mp hlast).1
    dsimp only
    by_cases hzero : last = 0
    · rw [if_neg (not_not.mpr hzero)]
      refine Or.inr (Or.inr ⟨by omega, ?_, rfl⟩)
      rintro ⟨-, h | h | ⟨-, h⟩⟩
      · omega
      · omega
      · exact h (by rw [hzero])
    · rw [if_pos hzero]
      refine Or.inr (Or.inl ⟨by omega, ⟨by omega, Or.inr (Or.inr ⟨by omega, ?_⟩)⟩, rfl⟩)
      intro h
      exact hzero (Option.some.inj h)

/-! ## Calls with a byte string -/

/-- The call comes to `monary_query_count`. -/
structure ReachesCount (env : Env) (connection : Option Nat) (db coll : String) : Prop where
  get : collectionError env connection db coll = none
  found : env.collection = true
  call : env.raises .queryCount = none

/-- The session comes to `monary_init_query`. -/
structure ReachesInit [PyImpl] (o : Opening) (connection : Option Nat) : Prop where
  made : ColumnsMade o.env o.fields o.types o.count
  get : collectionError o.env connection o.db o.coll = none
  found : o.env.collection = true
  call : o.env.raises .initCursor = none

/-- The call that a byte string is given to. -/
inductive BytesCall where
  | count (db coll : String)
  | query (a : QueryArgs) (doCount : Bool)
  | blockQuery (a : QueryArgs) (blockSize : Int)

/-- The arguments with this query, and no `sort` and `hint`. -/
def QueryArgs.ofBytes (a : QueryArgs) (q : Bytes) : QueryArgs :=
  { a with query := .bytes q, sort := .none, hint := .none }

def Raises {α : Type} (r : Outcome PyExn (List MaskedArray × Resume) Fault α × State) : Prop :=
  ∃ e, r.1 = .raised e

section Calls
variable [PyImpl] [CImpl]

/-- The call ends with an exception. -/
def BytesCall.Raises (env inner : Env) (q : Bytes) (s : State) : BytesCall → Prop
  | count db coll => Monary.Raises (callMethod (Monary.count env db coll (.bytes q)) s)
  | query a doCount => Monary.Raises (callMethod (Monary.query env inner (a.ofBytes q) doCount) s)
  | blockQuery a blockSize => ∃ e, ((Generator.blockQuery (a.ofBytes q) blockSize).next env s).1 = .raised e

/-- The call goes on as it does with the bytes of `doc` alone. -/
def BytesCall.ProceedsWith (env inner : Env) (q doc : Bytes) (s : State) : BytesCall → Prop
  | count db coll => callMethod (Monary.count env db coll (.bytes q)) s =
      callMethod (Monary.count env db coll (.bytes doc)) s
  | query a doCount => callMethod (Monary.query env inner (a.ofBytes q) doCount) s =
      callMethod (Monary.query env inner (a.ofBytes doc) doCount) s
  | blockQuery a blockSize => (Generator.blockQuery (a.ofBytes q) blockSize).next env s =
      (Generator.blockQuery (a.ofBytes doc) blockSize).next env s

/-- The call raises, or it goes on with a document that lies inside the bytes, which the check accepts. -/
def BytesChecked (env inner : Env) (q : Bytes) (call : BytesCall) (s : State) : Prop :=
  call.Raises env inner q s ∨
    ∃ doc, bsonInitStatic q = .ok (some doc) ∧ doc <+: q ∧ call.ProceedsWith env inner q doc s

omit [CImpl] in
/-- The byte string is read outside, or it is refused and `NULL` is loaded from. -/
def Opening.Unchecked (o : Opening) (q : Bytes) (connection : Option Nat) : Prop :=
  ReachesInit o connection ∧ (ReadsOutside q ∨ Malformed q ∧ o.env.raises .loadQuery = none)

/-- The call comes to a check of the bytes that goes wrong. -/
def BytesCall.Unchecked (env inner : Env) (q : Bytes) (s : State) : BytesCall → Prop
  | count db coll => ReachesCount env s.connection db coll ∧ ReadsOutside q
  | query a doCount =>
    if doCount = false ∧ a.limit > 0 then
      (Opening.mk env a.db a.coll a.fields a.types a.limit).Unchecked q s.connection
    else ReachesCount inner s.connection a.db a.coll ∧ ReadsOutside q
  | blockQuery a blockSize =>
    (Opening.mk env a.db a.coll a.fields a.types (atLeastOne blockSize)).Unchecked q s.connection

end Calls

/-! ## Bytes that are accepted -/

/-- A document that is accepted in front of other bytes is accepted alone. -/
theorem bsonInitStatic_doc {q doc : Bytes} (h : bsonInitStatic q = .ok (some doc)) :
    doc <+: q ∧ bsonInitStatic doc = .ok (some doc) := by
  rcases bsonInitStatic_cases q with ⟨-, -, hq⟩ | ⟨-, -, hq⟩ | ⟨ho, hm, hq⟩
  · rw [hq] at h
    cases h
  · rw [hq] at h
    cases h
  · rw [hq] at h
    obtain rfl : q.take (headerLength q) = doc := Option.some.inj (Except.ok.inj h)
    refine ⟨List.take_prefix _ _, ?_⟩
    unfold ReadsOutside at ho
    unfold Malformed at hm
    have hlen : (q.take (headerLength q)).length = headerLength q := by
      rw [List.length_take]
      omega
    have hhead : headerLength (q.take (headerLength q)) = headerLength q := by
      have hslice : slice (q.take (headerLength q)) 0 4 = slice q 0 4 := by
        unfold slice
        rw [List.drop_zero, List.drop_zero, List.take_take, Nat.min_eq_left (by omega)]
      unfold headerLength at hslice ⊢
      rw [hslice]
    have hlast : (q.take (headerLength q))[headerLength q - 1]? = q[headerLength q - 1]? := by
      rw [List.getElem?_take, if_pos (by omega)]
    rcases bsonInitStatic_cases (q.take (headerLength q)) with ⟨h, -, -⟩ | ⟨-, h, -⟩ | ⟨-, -, h⟩
    · unfold ReadsOutside at h
      rw [hhead, hlen] at h
      omega
    · unfold Malformed at h
      rw [hhead, hlen, hlast] at h
      exact absurd ⟨by omega, h.2.imp_right (Or.imp_right fun h => ⟨by omega, h.2⟩)⟩ hm
    · rw [h, hhead, List.take_take, Nat.min_self]

section Proceeds
variable {q doc : Bytes} (h : bsonInitStatic q = .ok (some doc))
include h

theorem count_doc (env : Env) (db coll : String) : count env db coll (.bytes q) = count env db coll (.bytes doc) := by
  have hcount (k : CollectionHandle) : monaryQueryCount env k q = monaryQueryCount env k doc := by
    unfold monaryQueryCount
    rw [h, (bsonInitStatic_doc h).2]
  have hbody : countBody env db coll (.bytes q) = countBody env db coll (.bytes doc) := by
    unfold countBody makeBson
    dsimp only
    congr 1
    funext collection
    congr 1
    funext _
    rcases collection with _ | k
    · rfl
    · show (do ofExcept (env.check .queryCount); monaryQueryCount env k q) =
        (do ofExcept (env.check .queryCount); monaryQueryCount env k doc)
      rw [hcount]
  rw [count, count, hbody]

theorem monaryInitQuery_doc (env : Env) (offset limit : Int) (selectFields : Bool) :
    monaryInitQuery env offset limit q selectFields = monaryInitQuery env offset limit doc selectFields := by
  have hreply : findReply env offset limit q selectFields = findReply env offset limit doc selectFields := by
    funext coldata
    unfold findReply
    rw [h, (bsonInitStatic_doc h).2]
  funext k
  rw [monaryInitQuery, monaryInitQuery, hreply]

theorem proceedsWith_doc [PyImpl] [CImpl] (env inner : Env) (call : BytesCall) (s : State) :
    call.ProceedsWith env inner q doc s := by
  have hrows (a : QueryArgs) (n : Int) :
      queryRows env (a.ofBytes q) q n = queryRows env (a.ofBytes doc) doc n := by
    unfold queryRows
    rw [monaryInitQuery_doc h]
    rfl
  rcases call with ⟨db, coll⟩ | ⟨a, doCount⟩ | ⟨a, blockSize⟩
  · show callMethod (count env db coll (.bytes q)) s = callMethod (count env db coll (.bytes doc)) s
    rw [count_doc h]
  · have hquery : query env inner (a.ofBytes q) doCount = query env inner (a.ofBytes doc) doCount := by
      show (if doCount = false ∧ a.limit > 0 then queryRows env (a.ofBytes q) q a.limit
          else do
            let n ← callMethod (count inner a.db a.coll (.bytes q))
            queryRows env (a.ofBytes q) q n) =
        (if doCount = false ∧ a.limit > 0 then queryRows env (a.ofBytes doc) doc a.limit
          else do
            let n ← callMethod (count inner a.db a.coll (.bytes doc))
            queryRows env (a.ofBytes doc) doc n)
      rw [count_doc h]
      simp only [hrows]
    show callMethod (query env inner (a.ofBytes q) doCount) s = callMethod (query env inner (a.ofBytes doc) doCount) s
    rw [hquery]
  · have hblock : blockQuery env (a.ofBytes q) blockSize = blockQuery env (a.ofBytes doc) blockSize := by
      show session env a.db a.coll a.fields a.types (atLeastOne blockSize)
          (monaryInitQuery env a.offset a.limit q a.selectFields) (blockTurn (atLeastOne blockSize)) =
        session env a.db a.coll a.fields a.types (atLeastOne blockSize)
          (monaryInitQuery env a.offset a.limit doc a.selectFields) (blockTurn (atLeastOne blockSize))
      rw [monaryInitQuery_doc h]
    show Generator.run _ (blockQuery env (a.ofBytes q) blockSize) s =
      Generator.run _ (blockQuery env (a.ofBytes doc) blockSize) s
    rw [hblock]
    rfl

end Proceeds

/-! ## Bytes that are not accepted -/

/-- The run raises, or it ends in a fault, which is so if and only if `P`. -/
def RaisesUnless {α : Type} (P : Prop) (r : Outcome PyExn (List MaskedArray × Resume) Fault α × State) : Prop :=
  ¬ P ∧ Raises r ∨ P ∧ ∃ x, r.1 = .fault x

section RaisesUnless
variable {α β : Type} {P Q : Prop} {s : State}

theorem RaisesUnless.iff {r : Outcome PyExn (List MaskedArray × Resume) Fault α × State} (h : RaisesUnless P r) :
    Raises r ↔ ¬ P := by
  rcases h with ⟨hP, h⟩ | ⟨hP, x, hx⟩
  · exact iff_of_true h hP
  · apply iff_of_false
    · rintro ⟨e, he⟩
      rw [hx] at he
      cases he
    · exact fun hnot => hnot hP

theorem RaisesUnless.congr {r : Outcome PyExn (List MaskedArray × Resume) Fault α × State} (h : RaisesUnless P r)
    (hPQ : P ↔ Q) : RaisesUnless Q r := by
  rwa [RaisesUnless, ← hPQ]

/-- Only the outcome matters. -/
theorem RaisesUnless.of_eq {r r' : Outcome PyExn (List MaskedArray × Resume) Fault α × State} (h : RaisesUnless P r)
    (hr : r'.1 = r.1) : RaisesUnless P r' := by
  rwa [RaisesUnless, Raises, hr]

/-- What comes after a run that does not return is not run. -/
theorem RaisesUnless.bind {x : Py α} (h : RaisesUnless P (x s)) (f : α → Py β) : RaisesUnless P ((x >>= f) s) := by
  rw [bind_apply]
  generalize x s = r at h
  obtain ⟨o, t⟩ := r
  rcases h with ⟨hP, e, he⟩ | ⟨hP, y, hy⟩
  · cases he
    exact Or.inl ⟨hP, e, rfl⟩
  · cases hy
    exact Or.inr ⟨hP, y, rfl⟩

/-- What a finalizer replaces is an exception again. -/
theorem RaisesUnless.of_masks {r r' : Outcome PyExn (List MaskedArray × Resume) Fault α × State}
    (h : RaisesUnless P r) (hr : Masks Q r r') : RaisesUnless P r' := by
  rcases hr with ⟨_, -⟩ | ⟨e, t, -, -⟩
  · exact h
  · rcases h with ⟨hnot, -⟩ | ⟨-, x, hx⟩
    · exact Or.inl ⟨hnot, _, rfl⟩
    · cases hx

theorem raisesUnless_raised {e : PyExn} {t : State} (h : ¬ P) :
    RaisesUnless (α := α) P (.raised e, t) := Or.inl ⟨h, e, rfl⟩

end RaisesUnless

section NotAccepted
variable {q : Bytes} (hq : ∀ doc, bsonInitStatic q ≠ .ok (some doc))
include hq

/-- The body of `count`: refused bytes give `-1`. -/
theorem countBody_notAccepted (env : Env) (db coll : String) (s : State) :
    RaisesUnless (ReachesCount env s.connection db coll ∧ ReadsOutside q) (countBody env db coll (.bytes q) s) ∨
      ¬ (ReachesCount env s.connection db coll ∧ ReadsOutside q) ∧
        (countBody env db coll (.bytes q) s).1 = .returned (-1) := by
  unfold countBody
  rcases hget : collectionError env s.connection db coll with _ | e
  · obtain ⟨client, -, hrun⟩ := getCollection_of_none hget
    rw [bind_apply, hrun]
    unfold useCollection
    by_cases hfound : env.collection = true
    · rw [if_pos hfound]
      show RaisesUnless _ ((do ofExcept (env.check .queryCount); monaryQueryCount env _ q : Py Int) _) ∨ _ ∧
        ((do ofExcept (env.check .queryCount); monaryQueryCount env _ q : Py Int) _).1 = _
      rcases check_cases env .queryCount with ⟨hc, hcall⟩ | ⟨e, hc, hcall⟩
      · rw [ofExcept_bind_ok hc]
        unfold monaryQueryCount
        rcases bsonInitStatic_cases q with ⟨ho, -, hb⟩ | ⟨ho, -, hb⟩ | ⟨-, -, hb⟩
        · rw [hb]
          exact Or.inl (Or.inr ⟨⟨⟨hget, hfound, hcall⟩, ho⟩, .undefined, rfl⟩)
        · rw [hb]
          exact Or.inr ⟨fun h => ho h.2, rfl⟩
        · exact absurd hb (hq _)
      · rw [ofExcept_bind_error hc]
        refine Or.inl (raisesUnless_raised ?_)
        rintro ⟨⟨-, -, h⟩, -⟩
        rw [hcall] at h
        cases h
    · rw [if_neg hfound]
      exact Or.inl (raisesUnless_raised fun h => hfound h.1.found)
  · rw [bind_apply, getCollection_of_error hget]
    refine Or.inl (raisesUnless_raised ?_)
    rintro ⟨⟨h, -, -⟩, -⟩
    rw [hget] at h
    cases h

/-- `count`. -/
theorem count_notAccepted (env : Env) (db coll : String) (s : State) :
    RaisesUnless (ReachesCount env s.connection db coll ∧ ReadsOutside q) (count env db coll (.bytes q) s) := by
  rw [← quietCount_eq, quietCount]
  -- the state in which the `try` starts
  obtain ⟨t, ht⟩ : ∃ t, setCollection none s = (.returned (), t) := ⟨_, rfl⟩
  have hconn : t.connection = s.connection := by
    cases ht
    rfl
  rw [bind_of_returned ht, ← hconn]
  rcases countBody_notAccepted hq env db coll t with h | ⟨hnot, h⟩
  · exact (h.of_eq (tryFinally_quietly _ _ _)).bind _
  · rw [bind_apply]
    have hend := (tryFinally_quietly (countBody env db coll (.bytes q)) destroyCollection t).trans h
    generalize tryFinally (countBody env db coll (.bytes q)) (quietly destroyCollection) t = r at hend
    obtain ⟨o, u⟩ := r
    cases hend
    exact raisesUnless_raised hnot

section Session
variable [PyImpl] [CImpl] {α : Type}

omit [PyImpl] in
/-- The cursor and the first load: refused bytes give `NULL`, which is loaded from. -/
theorem cursor_notAccepted (env : Env) (k : CollectionHandle) (offset limit : Int) (selectFields : Bool)
    (rest : Int → Py α) {s : State} {d : Nat} {cd : ColumnData} (hcd : s.frame.coldata = some (d, cd)) :
    RaisesUnless (env.raises .initCursor = none ∧ (ReadsOutside q ∨ Malformed q ∧ env.raises .loadQuery = none))
      ((do let cursor ← monaryInitQuery env offset limit q selectFields k
           setCursor cursor
           load env rest : Py α) s) := by
  rcases check_cases env .initCursor with ⟨hc, hcall⟩ | ⟨e, hc, hcall⟩
  · have hinit : monaryInitQuery env offset limit q selectFields k s = _ :=
      initCursor_eq hc hcd k (findReply env offset limit q selectFields)
    rcases bsonInitStatic_cases q with ⟨ho, -, hb⟩ | ⟨ho, hm, hb⟩ | ⟨-, -, hb⟩
    · have hreply : findReply env offset limit q selectFields (some cd) = .error .undefined := by
        rw [findReply, hb]
        rfl
      rw [hreply] at hinit
      rw [bind_apply, hinit]
      exact Or.inr ⟨⟨hcall, Or.inl ho⟩, .undefined, rfl⟩
    · have hreply : findReply env offset limit q selectFields (some cd) = .ok none := by
        rw [findReply, hb]
        rfl
      rw [hreply] at hinit
      rw [bind_of_returned hinit]
      -- `NULL` is loaded from, unless the call raises
      obtain ⟨v, hv⟩ : ∃ v : State, setCursor none (s.did [.initCursor k (some d) none] 0) = (.returned (), v) :=
        ⟨_, rfl⟩
      have hnull : v.frame.cursor = none := by
        cases hv
        rfl
      rw [bind_of_returned hv, load]
      refine RaisesUnless.bind ?_ rest
      rcases @loadQuery_null env v _ hnull with ⟨e, hload, hl⟩ | ⟨hload, hl⟩
      · rw [hl]
        refine raisesUnless_raised ?_
        rintro ⟨-, h | ⟨-, h⟩⟩
        · exact ho h
        · rw [hload] at h
          cases h
      · rw [hl]
        exact Or.inr ⟨⟨hcall, Or.inr ⟨hm, hload⟩⟩, .undefined, rfl⟩
    · exact absurd hb (hq _)
  · rw [monaryInitQuery, initCursor]
    refine RaisesUnless.bind ?_ _
    rw [ofExcept_bind_error hc]
    refine raisesUnless_raised ?_
    rintro ⟨h, -⟩
    rw [hcall] at h
    cases h

omit [PyImpl] in
/-- The inner `try`. -/
theorem openCursor_notAccepted (env : Env) (db coll : String) (offset limit : Int) (selectFields : Bool)
    (rest : Int → Py α) {s : State} {d : Nat} {cd : ColumnData} (hs : s.frame.coldata = some (d, cd)) :
    RaisesUnless (collectionError env s.connection db coll = none ∧ env.collection = true ∧
        env.raises .initCursor = none ∧ (ReadsOutside q ∨ Malformed q ∧ env.raises .loadQuery = none))
      (openCursor env db coll (monaryInitQuery env offset limit q selectFields) rest s) := by
  unfold openCursor
  rcases hget : collectionError env s.connection db coll with _ | e
  · obtain ⟨client, -, hrun⟩ := getCollection_of_none hget
    rcases useCollection_cases env s client with ⟨hfound, huse⟩ | ⟨hfound, huse⟩
    · rw [bind_of_returned (hrun.trans huse)]
      refine raisesUnless_raised ?_
      rintro ⟨-, h, -⟩
      rw [hfound] at h
      cases h
    · rw [bind_of_returned (hrun.trans huse)]
      have hcursor := cursor_notAccepted hq env ⟨client, s.fresh⟩ offset limit selectFields rest
        (s := (s.did [.useCollection client (some ⟨client, s.fresh⟩)] 1).within
          { s.frame with collection := some (some ⟨client, s.fresh⟩) }) hs
      refine hcursor.congr ?_
      rw [and_iff_right rfl, and_iff_right hfound]
  · rw [bind_apply, getCollection_of_error hget]
    refine raisesUnless_raised ?_
    rintro ⟨h, -⟩
    cases h

/-- The two `try`, with a byte string that is not accepted. -/
theorem session_notAccepted (o : Opening) (offset limit : Int) (selectFields : Bool) {rest : Int → Py α}
    (hrest : ∀ n, Preserves State.collection (rest n)) {s : State} (hs : s.frame = Frame.start) :
    RaisesUnless (o.Unchecked q s.connection) (session o.env o.db o.coll o.fields o.types o.count
      (monaryInitQuery o.env offset limit q selectFields) rest s) := by
  have hquiet : RaisesUnless (o.Unchecked q s.connection) (quietSession o.env o.db o.coll o.fields o.types o.count
      (monaryInitQuery o.env offset limit q selectFields) rest s) := by
    obtain ⟨log, connection, fresh, frame⟩ := s
    dsimp only at hs
    subst hs
    rw [quietSession]
    refine RaisesUnless.of_eq ?_ (tryFinally_quietly _ _ _)
    rcases makeColumnData_outcome o.env o.fields o.types o.count ⟨log, connection, fresh, Frame.start⟩ with
      ⟨e, s', hmake, -, hnot⟩ | ⟨cd, hmade, -, hmake⟩
    · rw [bind_apply, hmake]
      exact raisesUnless_raised fun h => hnot h.1.made
    · rw [bind_of_returned hmake]
      have hopen := openCursor_notAccepted hq o.env o.db o.coll offset limit selectFields rest
        (s := ((State.mk log connection fresh Frame.start).did [.allocColumnData (some fresh)] 1).within
          ⟨some (fresh, cd), none, none⟩) rfl
      refine (hopen.of_eq (tryFinally_quietly _ _ _)).congr ?_
      constructor
      · rintro ⟨hget, hfound, hcall, hbad⟩
        exact ⟨⟨hmade, hget, hfound, hcall⟩, hbad⟩
      · rintro ⟨⟨-, hget, hfound, hcall⟩, hbad⟩
        exact ⟨hget, hfound, hcall, hbad⟩
  have hmasks := session_masks (o := o) hs
    (preserves_initCursor o.env · (findReply o.env offset limit q selectFields)) hrest
  exact hquiet.of_masks hmasks

end Session

/-- What a call does with a byte string that is not accepted. -/
theorem raises_iff [PyImpl] [CImpl] (env inner : Env) (call : BytesCall) (s : State) :
    call.Raises env inner q s ↔ ¬ call.Unchecked env inner q s := by
  rcases call with ⟨db, coll⟩ | ⟨a, doCount⟩ | ⟨a, blockSize⟩
  · exact (count_notAccepted hq env db coll (s.within Frame.start)).iff
  · have hrows : query env inner (a.ofBytes q) doCount = (if doCount = false ∧ a.limit > 0 then
        queryRows env (a.ofBytes q) q a.limit
      else do
        let n ← callMethod (count inner a.db a.coll (.bytes q))
        queryRows env (a.ofBytes q) q n) := rfl
    have hquery : RaisesUnless ((BytesCall.query a doCount).Unchecked env inner q s)
        (query env inner (a.ofBytes q) doCount (s.within Frame.start)) := by
      by_cases hlimit : doCount = false ∧ a.limit > 0
      · have hsession := session_notAccepted hq ⟨env, a.db, a.coll, a.fields, a.types, limited a.limit a.limit⟩
          a.offset a.limit a.selectFields (fun _ => preserves_pure () : ∀ _ : Int, Preserves State.collection
            (pure () : Py Unit)) (s := s.within Frame.start) rfl
        rw [limited_self] at hsession
        rw [hrows, if_pos hlimit, BytesCall.Unchecked, if_pos hlimit]
        show RaisesUnless _ ((session env a.db a.coll a.fields a.types (limited a.limit a.limit)
          (monaryInitQuery env a.offset a.limit q a.selectFields) (fun _ => pure ()) >>= fun _ =>
            colarrays (limited a.limit a.limit)) (s.within Frame.start))
        rw [limited_self]
        exact hsession.bind _
      · rw [hrows, if_neg hlimit, BytesCall.Unchecked, if_neg hlimit]
        refine RaisesUnless.bind ?_ _
        exact (count_notAccepted hq inner a.db a.coll (s.within Frame.start)).of_eq rfl
    exact hquery.iff
  · have hblock := session_notAccepted hq ⟨env, a.db, a.coll, a.fields, a.types, atLeastOne blockSize⟩ a.offset a.limit
      a.selectFields (preserves_blockTurn (atLeastOne blockSize)) (s := s.within Frame.start) rfl
    exact hblock.iff

end NotAccepted

/-- Bytes that are accepted come to no check that goes wrong. -/
theorem BytesCall.Unchecked.notAccepted [PyImpl] {env inner : Env} {q doc : Bytes} {call : BytesCall} {s : State}
    (h : call.Unchecked env inner q s) : bsonInitStatic q ≠ .ok (some doc) := by
  have hbad : ReadsOutside q ∨ Malformed q := by
    rcases call with ⟨db, coll⟩ | ⟨a, doCount⟩ | ⟨a, blockSize⟩
    · exact Or.inl h.2
    · unfold BytesCall.Unchecked at h
      dsimp only at h
      split_ifs at h
      · exact h.2.imp_right And.left
      · exact Or.inl h.2
    · exact h.2.imp_right And.left
  intro hdoc
  rcases bsonInitStatic_cases q with ⟨-, -, hq⟩ | ⟨-, -, hq⟩ | ⟨ho, hm, -⟩
  · rw [hq] at hdoc
    cases hdoc
  · rw [hq] at hdoc
    cases hdoc
  · exact hbad.elim ho hm

/-- A byte string is checked if and only if the call does not come to a check that goes wrong. -/
theorem bytesChecked_iff [PyImpl] [CImpl] (env inner : Env) (q : Bytes) (call : BytesCall) (s : State) :
    BytesChecked env inner q call s ↔ ¬ call.Unchecked env inner q s := by
  by_cases haccepted : ∃ doc, bsonInitStatic q = .ok (some doc)
  · obtain ⟨doc, hdoc⟩ := haccepted
    apply iff_of_true
    · exact Or.inr ⟨doc, hdoc, (bsonInitStatic_doc hdoc).1, proceedsWith_doc hdoc env inner call s⟩
    · intro h
      exact h.notAccepted hdoc
  · rw [← raises_iff fun doc hdoc => haccepted ⟨doc, hdoc⟩]
    constructor
    · rintro (h | ⟨doc, hdoc, -⟩)
      · exact h
      · exact absurd ⟨doc, hdoc⟩ haccepted
    · exact Or.inl

/-- The first block of one `int8` column. -/
def firstBytes : BytesCall := .blockQuery ⟨"test", "numbers", .none, ["d"], ["int8"], .none, .none, 0, 0, false⟩ 1

/-- `count` reads behind an empty byte string, and `block_query` loads from the `NULL` that a document without its
last byte gives. -/
theorem not_bytesChecked :
    ¬ @BytesChecked PyImpl.ascii CImpl.x86 quietEnv quietEnv [] (.count "test" "numbers") connectedState ∧
      ¬ @BytesChecked PyImpl.ascii CImpl.x86 quietEnv quietEnv [5, 0, 0, 0, 1] firstBytes connectedState := by
  let _ := PyImpl.ascii
  let _ := CImpl.x86
  constructor
  · rintro (⟨e, he⟩ | ⟨doc, hdoc, -⟩)
    · have hfault : (callMethod (count quietEnv "test" "numbers" (.bytes [])) connectedState).1 = .fault .undefined := rfl
      rw [hfault] at he
      cases he
    · cases hdoc
  · rintro (⟨e, he⟩ | ⟨doc, hdoc, -⟩)
    · have hfault : ((Generator.blockQuery ⟨"test", "numbers", .bytes [5, 0, 0, 0, 1], ["d"], ["int8"], .none, .none, 0, 0,
          false⟩ 1).next quietEnv connectedState).1 = .fault .undefined := rfl
      have he' : ((Generator.blockQuery ⟨"test", "numbers", .bytes [5, 0, 0, 0, 1], ["d"], ["int8"], .none, .none, 0, 0,
          false⟩ 1).next quietEnv connectedState).1 = .raised e := he
      rw [hfault] at he'
      cases he'
    · cases hdoc

end Monary
