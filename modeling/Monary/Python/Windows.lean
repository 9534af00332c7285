import Monary.Python.Agreement

/-!
# Queries with an offset

* `window` : the documents that a find with `skip` and `limit` yields;
* `Finding` : a query that meets nothing in its way; `query_outcome` : it returns its arrays, which are made for the
  number of matching documents, exactly when its load returns;
* `QueriesAgree`, `queriesAgree_iff` : `query` and `block_query` agree exactly when the number of documents that
  match is right for the window.
-/

namespace Monary
open ByteSeq CInt Effect Chunks

/-- The documents from number `skip` on, and at most `limit` of them unless it is `0`. -/
def window (skip limit : Nat) (docs : List Bson) : List Bson :=
  if limit = 0 then docs.drop skip else (docs.drop skip).take limit

/-- The documents that match, in the window of the query. -/
def QueryArgs.found (a : QueryArgs) (docs : List Bson) : List Bson :=
  window (toUInt32 a.offset) (toUInt32 a.limit) docs

/-- The keys of the projection, when there is one. -/
def QueryArgs.projection (a : QueryArgs) (cts : List ColumnType) : Option (List Bytes) :=
  if a.selectFields then some (monaryGetBsonFieldsList (freshColumns cts 0)) else none

section Windows
variable [PyImpl]

/-- A query that meets nothing in its way: the documents match, the driver counts them and finds those of the window. -/
structure Finding (env inner : Env) (a : QueryArgs) (cts : List ColumnType) (docs : List Bson) (s : State) : Prop where
  quiet : env.Quiet
  innerQuiet : inner.Quiet
  ready : Plan.Ready (a.plan env []) cts
  offset : 0 ≤ a.offset
  limit : 0 ≤ a.limit
  connected : ∃ client, s.connection = some client
  frame : s.frame = Frame.start
  counted : ∃ plain doc, getPlainQuery env.encode a.query = .ok plain ∧ bsonInitStatic plain = .ok (some doc) ∧
    inner.count doc = docs.length
  finds : ∃ full doc, getFullQuery env.encode a.query a.sort a.hint = .ok full ∧ bsonInitStatic full = .ok (some doc) ∧
    ∀ skip limit, ∃ reply, env.find skip limit doc (a.projection cts) = some reply ∧
      Yields reply (window skip limit docs) false

variable {env inner : Env} {a : QueryArgs} {cts : List ColumnType} {docs : List Bson} {s t : State} {blockSize : Int}

omit [PyImpl] in
theorem monaryGetBsonFieldsList_fresh (cts : List ColumnType) (count : Int) :
    monaryGetBsonFieldsList (freshColumns cts count) = monaryGetBsonFieldsList (freshColumns cts 0) := by
  unfold monaryGetBsonFieldsList freshColumns
  rw [List.filterMap_map, List.filterMap_map]
  rfl

/-- What the driver has for the query, for column data of any number of rows. -/
theorem findReply_finding (h : Finding env inner a cts docs s) :
    ∃ full reply, getFullQuery env.encode a.query a.sort a.hint = .ok full ∧ Yields reply (a.found docs) false ∧
      ∀ count, (a.plan env full).answer (some (freshColumns cts count)) = .ok (some reply) := by
  obtain ⟨full, doc, hfull, hdoc, hfind⟩ := h.finds
  obtain ⟨reply, hreply, hy⟩ := hfind (toUInt32 a.offset) (toUInt32 a.limit)
  refine ⟨full, reply, hfull, hy, fun count => ?_⟩
  show (do
    let doc ← bsonInitStatic full
    return doc.bind fun doc => env.find (toUInt32 a.offset) (toUInt32 a.limit) doc
      (if a.selectFields then some (monaryGetBsonFieldsList (freshColumns cts count)) else none) : C _) = _
  rw [monaryGetBsonFieldsList_fresh, hdoc]
  show Except.ok (env.find _ _ doc (a.projection cts)) = _
  rw [hreply]

/-- The count of the documents that match. -/
theorem count_finding (h : Finding env inner a cts docs s) {plain : Bytes}
    (hp : getPlainQuery env.encode a.query = .ok plain) :
    ∃ trace, callMethod (count inner a.db a.coll (.bytes plain)) s = (.returned (docs.length : Int), s.did trace 1) := by
  obtain ⟨client, hc⟩ := h.connected
  obtain ⟨plain', doc, hp', hdoc, hcount⟩ := h.counted
  obtain rfl := Except.ok.inj (hp'.symm.trans hp)
  obtain ⟨log, connection, fresh, frame⟩ := s
  have hframe : frame = Frame.start := h.frame
  subst hframe
  have hget : getCollection inner a.db a.coll ⟨log, connection, fresh, ⟨none, some none, none⟩⟩ =
      (.returned (some ⟨client, fresh⟩), (State.mk log connection fresh ⟨none, some none, none⟩).did
        [.useCollection client (some ⟨client, fresh⟩)] 1) := getCollection_ready h.ready h.innerQuiet hc
  generalize hk : (⟨client, fresh⟩ : CollectionHandle) = k at hget
  generalize hu : (State.did ⟨log, connection, fresh, Frame.start⟩ [.useCollection client (some k)] 1).within
    ⟨none, some (some k), none⟩ = u
  have hquery : monaryQueryCount inner k plain' u = (.returned (docs.length : Int), u.did [.queryCount k] 0) := by
    unfold monaryQueryCount
    rw [bind_of_returned (record_apply _ u), hdoc, ← hcount]
    rfl
  have hbody : countBody inner a.db a.coll (.bytes plain') ⟨log, connection, fresh, ⟨none, some none, none⟩⟩ =
      (.returned (docs.length : Int), u.did [.queryCount k] 0) := by
    rw [← hquery]
    unfold countBody
    rw [bind_of_returned hget, ← hu]
    show (ofExcept (makeBson inner.encode (.bytes plain')) >>= fun query =>
      (ofExcept (inner.check .queryCount) >>= fun _ => monaryQueryCount inner k query : Py Int)) _ = _
    rw [ofExcept_bind_ok (show makeBson inner.encode (.bytes plain') = .ok plain' from rfl),
      ofExcept_bind_ok (h.innerQuiet.check _)]
    rfl
  have hdestroy : destroyCollection (u.did [.queryCount k] 0) =
      (.returned (), u.did ([.queryCount k] ++ [.destroyCollection k]) 0) := by
    rw [← did_did u [.queryCount k] [.destroyCollection k] 0 0, ← hu]
    rfl
  refine ⟨[.useCollection client (some k)] ++ ([.queryCount k] ++ [.destroyCollection k]), ?_⟩
  have hrun : count inner a.db a.coll (.bytes plain') ⟨log, connection, fresh, Frame.start⟩ =
      andThen (runFinally (countBody inner a.db a.coll (.bytes plain') ⟨log, connection, fresh, ⟨none, some none, none⟩⟩)
        destroyCollection) fun n =>
          (if n < 0 then raise ⟨.runtimeError, "Internal error in count()", []⟩ else pure n : Py Int) := rfl
  have hret : runFinally (.returned (docs.length : Int), u.did [.queryCount k] 0) destroyCollection =
      (.returned (docs.length : Int), u.did ([.queryCount k] ++ [.destroyCollection k]) 0) := by
    rw [runFinally, hdestroy]
    rfl
  rw [callMethod_apply _ rfl, hrun, hbody, hret, andThen_returned, if_neg (by omega), pure_apply, ← hu, within_did, did_did]
  rfl

/-- `query` returns its arrays exactly when its load returns. -/
theorem query_outcome [CImpl] (h : Finding env inner a cts docs s) :
    let n : Int := resultSize docs.length a.limit
    (Loadable (freshColumns cts n) ((a.found docs).take (toUInt32 n)) →
      ∃ s', callMethod (query env inner a true) s = (.returned (shownArrays cts n (a.found docs)), s')) ∧
    (¬ Loadable (freshColumns cts n) ((a.found docs).take (toUInt32 n)) →
      ∃ f s', callMethod (query env inner a true) s = (.fault f, s')) := by
  intro n
  obtain ⟨plain, doc, hp, -⟩ := h.counted
  obtain ⟨full, reply, hfull, hy, hans⟩ := findReply_finding h
  obtain ⟨trace, hcount⟩ := count_finding h hp
  obtain ⟨client, hc⟩ := h.connected
  have hframe : (s.did trace 1).frame = Frame.start := h.frame
  have hready : Plan.Ready (a.plan env full) cts :=
    ⟨h.ready.db, h.ready.coll, h.ready.lengths, h.ready.few, h.ready.columns⟩
  have hn : 0 ≤ n := Int.natCast_nonneg _
  have hrows := rows_outcome hready h.quiet hn hframe hc (hans n) hy
  have hrun : callMethod (query env inner a true) s = (((a.plan env full).rows env n (s.did trace 1)).1,
      ((a.plan env full).rows env n (s.did trace 1)).2.within Frame.start) := by
    rw [callMethod_apply _ h.frame]
    unfold query
    rw [ofExcept_bind_ok hp, ofExcept_bind_ok hfull, if_neg (by simp), bind_of_returned hcount, queryRows_eq, limited_eq]
  rw [hrun]
  constructor
  · intro hl
    obtain ⟨trace', f, hr⟩ := hrows.1 hl
    rw [hr]
    exact ⟨_, rfl⟩
  · intro hl
    obtain ⟨f, s', hr⟩ := hrows.2 hl
    rw [hr]
    exact ⟨_, _, rfl⟩

theorem iteration_finding (h : Finding env inner a cts docs s) (ht : ∃ client, t.connection = some client) :
    Iteration env (.blockQuery a blockSize) cts (a.found docs) t := by
  obtain ⟨full, reply, hfull, hy, hans⟩ := findReply_finding h
  refine ⟨h.quiet, rfl, ht, a.plan env full, reply, ?_, ?_, hans _, hy⟩
  · show (do return a.plan env (← getFullQuery env.encode a.query a.sort a.hint)) = _
    rw [hfull]
    rfl
  · exact ⟨h.ready.db, h.ready.coll, h.ready.lengths, h.ready.few, h.ready.columns⟩

/-! ## The two queries -/

/-- `query` returns arrays of as many rows as the find yields documents, and `block_query` comes to its end with blocks
that show the same. -/
def QueriesAgree [CImpl] (env inner : Env) (a : QueryArgs) (blockSize : Int) (columns : Nat) (docs : List Bson) (s t : State) :
    Prop :=
  ∃ arrays s' ys t', callMethod (query env inner a true) s = (.returned arrays, s') ∧
    Drains env (.blockQuery a blockSize) t ys t' ∧ SameRows columns (a.found docs).length arrays (ys.map Prod.fst)

/-- The number of the `n` documents that match, or the limit, is the number of documents in the window. -/
def WindowCounted (n : Nat) (offset limit : Int) : Prop :=
  if offset < 2 ^ 32 ∧ limit < 2 ^ 32 then offset = 0 ∨ n = 0 ∨ 0 < limit ∧ limit + offset ≤ n
  else resultSize n limit =
    if toUInt32 limit = 0 then n - toUInt32 offset else min (n - toUInt32 offset) (toUInt32 limit)

omit [PyImpl] in
theorem length_found (a : QueryArgs) (docs : List Bson) : (a.found docs).length =
    if toUInt32 a.limit = 0 then docs.length - toUInt32 a.offset
    else min (docs.length - toUInt32 a.offset) (toUInt32 a.limit) := by
  unfold QueryArgs.found window
  split
  · rw [List.length_drop]
  · rw [List.length_take, List.length_drop, Nat.min_comm]

omit [PyImpl] in
theorem windowCounted_iff (h0 : 0 ≤ a.offset) (h1 : 0 ≤ a.limit) :
    WindowCounted docs.length a.offset a.limit ↔ resultSize docs.length a.limit = (a.found docs).length := by
  rw [length_found]
  unfold WindowCounted
  split
  · have ho : toUInt32 a.offset = a.offset.toNat := by
      unfold toUInt32
      omega
    have hl : toUInt32 a.limit = a.limit.toNat := by
      unfold toUInt32
      omega
    rw [ho, hl]
    unfold resultSize
    split <;> split <;> omega
  · rfl

/-- Both loads return, the arrays have a row for each document of the window, as the blocks have, and no document with a
value is behind the last that is loaded into the arrays. -/
structure WindowKept [CImpl] (a : QueryArgs) (cts : List ColumnType) (docs : List Bson) (blockSize : Int) : Prop where
  arrays : Loadable (freshColumns cts (resultSize docs.length a.limit))
    ((a.found docs).take (toUInt32 (resultSize docs.length a.limit)))
  blocks : ∀ c ∈ blockDocs blockSize (a.found docs), Loadable (freshColumns cts blockSize) c
  counted : cts ≠ [] → WindowCounted docs.length a.offset a.limit
  covered : cts ≠ [] → blockSize < 2 ^ 32 ∨ (a.found docs).length ≤ toUInt32 blockSize
  behind : ∀ ct ∈ cts, ∀ i bson, (a.found docs)[i]? = some bson → toUInt32 (resultSize docs.length a.limit) ≤ i →
    ct.value bson = none

omit [PyImpl] in
/-- The blocks leave out a document only when the row count of their column data was cut. -/
theorem length_flatten_blockDocs (hsize : 1 ≤ blockSize) (docs : List Bson) :
    (blockDocs blockSize docs).flatten.length = docs.length ↔ blockSize < 2 ^ 32 ∨ docs.length ≤ toUInt32 blockSize := by
  have hleaves := leavesOut_iff (le_refl 0) hsize docs
  have hresult : resultSize docs.length 0 = docs.length := if_neg (by omega)
  rw [hresult] at hleaves
  rw [← hleaves]
  unfold LeavesOut
  rw [hresult]
  by_cases h : blockSize < 2 ^ 32
  · rw [if_pos h]
    exact ⟨fun _ => Or.inl h, fun _ => Or.inl rfl⟩
  · rw [if_neg h, min_eq_left_iff]
    exact ⟨Or.inr, fun hor => hor.resolve_left h⟩

omit [PyImpl] in
theorem blockSize_blockQuery (a : QueryArgs) (blockSize : Int) :
    (Generator.blockQuery a blockSize).blockSize = atLeastOne blockSize ∧ 1 ≤ atLeastOne blockSize := by
  refine ⟨rfl, ?_⟩
  unfold atLeastOne
  split <;> omega

theorem windowKept_of_agree [CImpl] (h : Finding env inner a cts docs s) (hf : FixedWidth cts)
    (ht : ∃ client, t.connection = some client)
    (hagree : QueriesAgree env inner a blockSize cts.length docs s t) : WindowKept a cts docs (atLeastOne blockSize) := by
  obtain ⟨arrays, s', ys, t', hrun, hd, hrows⟩ := hagree
  have hi : Iteration env (.blockQuery a blockSize) cts (a.found docs) t := iteration_finding h ht
  have hbl := loadable_of_drains hi hd
  obtain ⟨ys', t'', hd', hys, -⟩ := iteration_blocks hi hbl
  obtain ⟨hgs, hsize⟩ := blockSize_blockQuery a blockSize
  rw [hgs] at hbl hys
  obtain ⟨hret, hfault⟩ := query_outcome h
  by_cases hl : Loadable (freshColumns cts (resultSize docs.length a.limit))
      ((a.found docs).take (toUInt32 (resultSize docs.length a.limit)))
  · obtain ⟨s'', hrun'⟩ := hret hl
    rw [hrun] at hrun'
    cases hrun'
    obtain ⟨rfl, -⟩ := drains_unique hd hd'
    rw [hys, sameRows_iff hf (by omega) (Int.natCast_nonneg _)] at hrows
    have hmem (hne : cts ≠ []) := hrows _ (List.exists_mem_of_ne_nil _ hne).choose_spec
    refine ⟨hl, hbl, fun hne => ?_, fun hne => ?_, fun ct hct i bson hbson hle => ?_⟩
    · have hlen := (hmem hne).1
      rw [Int.toNat_natCast] at hlen
      exact (windowCounted_iff h.offset h.limit).mpr hlen
    · exact (length_flatten_blockDocs hsize _).mp (hmem hne).2.1
    · exact (hrows ct hct).2.2 i bson hbson hle (List.getElem?_eq_some_iff.mp hbson).1
  · obtain ⟨f, s'', hrun'⟩ := hfault hl
    rw [hrun] at hrun'
    cases hrun'

theorem agree_of_windowKept [CImpl] (h : Finding env inner a cts docs s) (hf : FixedWidth cts)
    (ht : ∃ client, t.connection = some client) (hkept : WindowKept a cts docs (atLeastOne blockSize)) :
    QueriesAgree env inner a blockSize cts.length docs s t := by
  obtain ⟨hl, hbl, hcounted, hcov, hbehind⟩ := hkept
  have hi : Iteration env (.blockQuery a blockSize) cts (a.found docs) t := iteration_finding h ht
  obtain ⟨hgs, hsize⟩ := blockSize_blockQuery a blockSize
  obtain ⟨s', hrun⟩ := (query_outcome h).1 hl
  obtain ⟨ys, t', hd, hys, -⟩ := iteration_blocks hi (by rwa [hgs])
  rw [hgs] at hys
  refine ⟨_, s', ys, t', hrun, hd, ?_⟩
  rw [hys, sameRows_iff hf (by omega) (Int.natCast_nonneg _)]
  intro ct hct
  have hne := List.ne_nil_of_mem hct
  refine ⟨?_, (length_flatten_blockDocs hsize _).mpr (hcov hne), fun i bson hbson hle _ => hbehind ct hct i bson hbson hle⟩
  rw [Int.toNat_natCast]
  exact (windowCounted_iff h.offset h.limit).mp (hcounted hne)

/-- The two agree exactly when the count is right for the window and both loads return. -/
theorem queriesAgree_iff [CImpl] (h : Finding env inner a cts docs s) (hf : FixedWidth cts)
    (ht : ∃ client, t.connection = some client) :
    QueriesAgree env inner a blockSize cts.length docs s t ↔ WindowKept a cts docs (atLeastOne blockSize) :=
  ⟨windowKept_of_agree h hf ht, agree_of_windowKept h hf ht⟩

end Windows

/-! ## An offset of one -/

/-- `{}`. -/
def everything : Bytes := [5, 0, 0, 0, 0]

/-- A server with a collection of these documents, all of which match. -/
def collectionServer (docs : List Bson) : Env where
  raises _ := none
  encode _ := .ok everything
  client _ := true
  collection := true
  count _ := docs.length
  find skip limit _ _ := some (MongocCursor.ofList (window skip limit docs) false).reply
  aggregate _ := none

/-- The documents from `offset` on, with an `int8` column. -/
def fromOffset (offset : Int) : QueryArgs :=
  ⟨"test", "numbers", .dict [], ["d"], ["int8"], .none, .none, 0, offset, false⟩

theorem finding_fromOffset (docs : List Bson) {offset : Int} (h0 : 0 ≤ offset) :
    @Finding PyImpl.ascii (collectionServer docs) (collectionServer docs) (fromOffset offset) [⟨[0x64], .int8, 0⟩] docs
      connectedState := by
  let _ := PyImpl.ascii
  refine ⟨⟨fun _ => rfl, rfl⟩, ⟨fun _ => rfl, rfl⟩, ready_oneColumn "int8" _ rfl _, h0, le_refl _, ⟨0, rfl⟩, rfl,
    ⟨everything, everything, rfl, rfl, rfl⟩, everything, everything, rfl, rfl, fun skip limit => ?_⟩
  exact ⟨_, rfl, yields_ofList _ _⟩

/-- With an offset the arrays of `query` have rows for documents that are skipped. -/
theorem not_forall_queriesAgree :
    ¬ ∀ env inner a blockSize cts docs s t, @Finding PyImpl.ascii env inner a cts docs s → FixedWidth cts →
      (∃ client, t.connection = some client) →
      @QueriesAgree PyImpl.ascii CImpl.x86 env inner a blockSize cts.length docs s t := by
  intro h
  let _ := PyImpl.ascii
  let _ := CImpl.x86
  have hfind := finding_fromOffset [emptyDocument, emptyDocument] (show (0 : Int) ≤ 1 by decide)
  have hagree := h _ _ _ 1 _ _ _ connectedState hfind fixedWidth_int8 ⟨0, rfl⟩
  have hkept := windowKept_of_agree hfind fixedWidth_int8 ⟨0, rfl⟩ hagree
  have hcounted : WindowCounted 2 1 0 := hkept.counted (by simp)
  rcases hcounted with h | h | h
  · exact absurd h (by decide)
  · exact absurd h (by decide)
  · exact absurd h.1 (by decide)

/-- Without an offset they agree. -/
theorem queriesAgree_fromStart :
    @QueriesAgree PyImpl.ascii CImpl.x86 (collectionServer [emptyDocument, emptyDocument])
      (collectionServer [emptyDocument, emptyDocument]) (fromOffset 0) 1 1 [emptyDocument, emptyDocument] connectedState
      connectedState := by
  let _ := PyImpl.ascii
  let _ := CImpl.x86
  have hfound : (fromOffset 0).found [emptyDocument, emptyDocument] = [emptyDocument, emptyDocument] := rfl
  refine (queriesAgree_iff (finding_fromOffset _ (le_refl _)) fixedWidth_int8 ⟨0, rfl⟩).mpr
    ⟨loadable_int8 _ (by decide), fun c hc => loadable_int8 _ ?_, fun _ => ?_, fun _ => Or.inl (by decide), ?_⟩
  · have hlen := length_of_mem_blockDocs hc
    have h1 : Int.toNat (atLeastOne 1) = 1 := rfl
    omega
  · show WindowCounted 2 0 0
    exact (if_pos (by decide)).mpr (Or.inl rfl)
  · intro ct _ i bson hbson hle
    rw [hfound] at hbson
    have hlt : i < 2 := (List.getElem?_eq_some_iff.mp hbson).1
    have h2 : toUInt32 ((resultSize 2 0 : Nat) : Int) = 2 := by decide
    have hle : toUInt32 ((resultSize 2 0 : Nat) : Int) ≤ i := hle
    omega

end Monary
