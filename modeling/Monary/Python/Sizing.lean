import Monary.Python.Objects
import Monary.Python.Ready

/-!
# The size of an aggregation

* `CountsTo`, `CountReply` : the document that counts a result, and what the driver has for a pipeline that
  counts;
* `countOf_counted` : what the call of `aggregate` that counts makes of it; `CountRead` : that it can come to a number;
* `Aggregation` : an aggregation that meets nothing in its way;
* `AggregateSized`, `aggregate_sized` : it returns one row for each document of the result exactly when there is one,
  their number is an `int` and the documents are clean; the pipeline of the caller is kept.
-/

namespace Monary
open ByteSeq CInt Effect

/-- `b'count'`. -/
def countField : Bytes := "count".toList.map fun c => UInt8.ofNat c.toNat

/-- The document has the number `n` under `count`. -/
def CountsTo (d : Bson) (n : Nat) : Prop :=
  ∃ it, bsonIterFindDescendant (bsonIterInit d) countField = some it ∧
    (it.bsonType = some .int32 ∧ bsonIterInt32 it = n ∨ it.bsonType = some .int64 ∧ bsonIterInt64 it = n)

/-- `{$group: {_id: 1, count: {$sum: 1}}}` of `n` documents: one that counts them, or none if there are none. -/
def CountReply (reply : Nat → Reply) (n : Nat) : Prop :=
  if n = 0 then Yields reply [] false else ∃ d, Yields reply [d] false ∧ CountsTo d n

/-- The driver has the answer to the pipeline. -/
def Answers (env : Env) (pipeline : PyValue) (reply : Nat → Reply) : Prop :=
  ∃ encoded, getPlainQuery env.encode pipeline = .ok encoded ∧ aggregateReply env encoded = .ok (some reply)

/-- The column of the call that counts. -/
def countColumn : ColumnType := ⟨countField, .int64, 0⟩

section Sizing
variable [PyImpl] [CImpl]

omit [CImpl] in
theorem countColumn_ready {db coll : String} (hdb : ∃ name, encodeAscii db = .ok name)
    (hcoll : ∃ name, encodeAscii coll = .ok name) (answer : Option ColumnData → C (Option (Nat → Reply))) :
    Plan.Ready ⟨db, coll, ["count"], ["int64"], answer⟩ [countColumn] :=
  ⟨hdb, hcoll, rfl, show 1 ≤ maxColumns by decide, rfl⟩

omit [PyImpl] [CImpl] in
theorem clean_countColumn (rows row : Nat) (docs : List Bson) :
    (freshColumns [countColumn] rows).CleanAll row docs := by
  intro i bson _ c hc t it ht _
  obtain rfl := List.mem_singleton.mp hc
  obtain rfl : MonaryType.int64 = t := Option.some.inj ht
  exact ⟨nofun, nofun, nofun, nofun⟩

omit [PyImpl] in
theorem countOf_none : countOf (arraysOf [countColumn] 1 []) =
    .error ⟨.runtimeError, "Failed to count the aggregation size", []⟩ := rfl

omit [PyImpl] in
theorem countOf_counted {d : Bson} {n : Nat} (h : CountsTo d n) :
    countOf (arraysOf [countColumn] 1 [d]) = .ok (n : Int) := by
  obtain ⟨it, hit, hn⟩ := h
  have hlt : (n : Int) < 2 ^ 63 := by
    rcases hn with ⟨hty, hv⟩ | ⟨hty, hv⟩
    · rw [bsonIterInt32, if_pos hty] at hv
      have := Int.bmod_lt (x := ((it.uint32At it.d1 : Nat) : Int)) (m := 2 ^ 32) (by norm_num)
      unfold toInt32 at hv
      omega
    · rw [bsonIterInt64, if_pos hty] at hv
      have := Int.bmod_lt (x := ((leNat (slice it.raw it.d1 8) : Nat) : Int)) (m := 2 ^ 64) (by norm_num)
      unfold toInt64 at hv
      omega
  have hpay : intPayload .int64 it = some (IntType.int64.ofInt n) := by
    unfold intPayload
    rcases hn with ⟨hty, hv⟩ | ⟨hty, hv⟩ <;>
    · rw [hty]
      dsimp only
      rw [hv]
  have hc : (countColumn.fresh 1).Holds .int64 1 := freshColumn_holds _ 1 (by decide) nofun
  have hcell : cellPayload (countColumn.fresh 1) d = some (IntType.int64.ofInt n) :=
    cellPayload_of_resolve hc hit (congrArg Except.ok hpay)
  have hfill : (countColumn.fresh 1).FillsAll 0 [d] := fun i bson _ => fills_of_not_sized hc rfl _ _
  have hview : ((countColumn.fresh 1).putAll 0 [d]).view 0 = some (IntType.int64.ofInt n) := by
    have hview := view_putAll hc (by simp) hfill (i := 0) rfl
    rwa [hcell] at hview
  have hdecode : toInt64 (leNat (IntType.int64.ofInt n)) = n := by
    have hwidth : IntType.int64.width = 8 := rfl
    rw [IntType.ofInt, leNat_leBytes, hwidth]
    unfold toInt64
    rw [Int.bmod_eq_of_le] <;> omega
  unfold countOf arraysOf
  rw [List.map_singleton]
  have hviews : MaskedArray.views ⟨1, (countColumn.fresh 1).putAll 0 [d]⟩ = [some (IntType.int64.ofInt n)] := by
    unfold MaskedArray.views
    rw [List.range_one, List.map_singleton, hview]
  simp only [hviews, List.reduceOption_cons_of_some, List.reduceOption_nil, hdecode]

/-- The counting call of `aggregate` can come to the number `m` on this connection. -/
def CountRead (inner : Env) (a : AggregateArgs) (connection : Option Nat) (m : Int) : Prop :=
  ∃ encoded f h r, Opens inner (countPlan inner a encoded) 1 connection f h r ∧
    countOf ((h.loaded r).arrays 1) = .ok m

/-- A server whose documents count a result gives no negative number. -/
theorem countRead_nonneg {inner : Env} {a : AggregateArgs} {connection : Option Nat} {m : Int}
    (h : CountRead inner a connection m) (hq : inner.Quiet)
    (hcounts : ∀ doc reply, inner.aggregate doc = some reply → ∃ n, CountReply reply n) : 0 ≤ m := by
  obtain ⟨encoded, f, h, r, hopen, hm⟩ := h
  obtain ⟨client, reply, hans, hfirst⟩ : ∃ client reply, (countPlan inner a encoded).answer (some h.columns) =
      .ok (some reply) ∧ h = .first [countColumn] 1 client f reply := hopen.first hq rfl (by decide)
  obtain ⟨n, hreply⟩ : ∃ n, CountReply reply n := by
    obtain ⟨doc, -, hdoc⟩ := bind_eq_ok (x := bsonInitStatic encoded) hans
    rcases doc with _ | doc
    · cases hdoc
    · exact hcounts doc reply (Except.ok.inj hdoc)
  obtain ⟨docs, hy, hdocs⟩ : ∃ docs, Yields reply docs false ∧ (docs = [] ∨ ∃ d, docs = [d] ∧ CountsTo d n) := by
    unfold CountReply at hreply
    split at hreply
    · exact ⟨[], hreply, Or.inl rfl⟩
    · obtain ⟨d, hy, hd⟩ := hreply
      exact ⟨[d], hy, Or.inr ⟨d, rfl, hd⟩⟩
  have hready : Plan.Ready ⟨"", "", ["count"], ["int64"], fun _ => .ok none⟩ [countColumn] :=
    countColumn_ready ⟨[], rfl⟩ ⟨[], rfl⟩ _
  have hclean : (freshColumns [countColumn] 1).CleanAll 0 (docs.take (Int.toNat 1)) := clean_countColumn 1 0 _
  obtain ⟨r', hload, harrays, -⟩ := load_first hready (by decide) (by decide) hy hclean hfirst
  obtain rfl : r = r' := Except.ok.inj (hopen.load.symm.trans hload)
  rw [harrays] at hm
  rcases hdocs with rfl | ⟨d, rfl, hd⟩
  · have hnone := countOf_none.symm.trans hm
    cases hnone
  · obtain rfl : (n : Int) = m := Except.ok.inj ((countOf_counted hd).symm.trans hm)
    exact Int.natCast_nonneg n

/-! ## Sized by its result -/

/-- The number of rows for a result of `n` documents. -/
def resultSize (n : Nat) (limit : Int) : Nat := if 0 < limit then min n limit.toNat else n

omit [PyImpl] [CImpl] in
theorem limited_eq (n : Nat) (limit : Int) : limited n limit = resultSize n limit := by
  unfold limited resultSize
  by_cases h : 0 < limit
  · rw [if_pos h]
    split <;> omega
  · rw [if_neg h, if_neg (by omega)]

/-- A list of stages, a dictionary with a list of stages under `pipeline`, or a stage. -/
def Spelled : PyValue → Prop
  | .list _ => True
  | .dict d => d.lookup "pipeline" = none ∨ ∃ xs, d.lookup "pipeline" = some (.list xs)
  | _ => False

omit [PyImpl] [CImpl] in
theorem any_of_lookup {d : List (String × PyValue)} {key : String} :
    d.any (·.1 == key) = (d.lookup key).isSome := by
  induction d with
  | nil => rfl
  | cons p d ih =>
    rw [List.any_cons, List.lookup_cons, ih, Bool.beq_comm]
    rcases key == p.1 with _ | _ <;> rfl

omit [PyImpl] [CImpl] in
theorem spelled_ok {v : PyValue} (h : Spelled v) :
    ∃ p p', getPipeline v = .ok p ∧ appendStage p countStage = .ok p' := by
  rcases v with _ | _ | _ | _ | _ | xs | _ | d | _ <;> try exact h.elim
  · exact ⟨_, _, rfl, rfl⟩
  · unfold getPipeline
    dsimp only
    rw [any_of_lookup]
    rcases h with h | ⟨xs, h⟩
    · rw [h]
      exact ⟨_, _, rfl, rfl⟩
    · rw [h]
      refine ⟨.dict d, .dict (dictSet d "pipeline" (.list (xs ++ [countStage]))), rfl, ?_⟩
      unfold appendStage
      dsimp only
      rw [h]

/-- An aggregation that meets nothing in its way: the result are the documents, and the driver counts them. -/
structure Aggregation (env inner : Env) (a : AggregateArgs) (cts : List ColumnType) (docs : List Bson) (s : State) :
    Prop where
  quiet : env.Quiet
  innerQuiet : inner.Quiet
  ready : Plan.Ready (a.plan env []) cts
  spelled : Spelled a.pipeline
  limit : 0 ≤ a.limit
  connected : ∃ client, s.connection = some client
  frame : s.frame = Frame.start
  result : ∀ p, getPipeline a.pipeline = .ok p → ∃ reply, Answers env p reply ∧ Yields reply docs false
  counted : ∀ p p', getPipeline a.pipeline = .ok p → appendStage p countStage = .ok p' →
    ∃ reply, Answers inner p' reply ∧ CountReply reply docs.length

/-- `aggregate` returns arrays of as many rows as the result has documents, or the limit, and loads document `i`
into row `i`. -/
def AggregateSized (env inner : Env) (a : AggregateArgs) (cts : List ColumnType) (docs : List Bson) (s : State) :
    Prop :=
  let n := resultSize docs.length a.limit
  ∃ s' trace cursor failed,
    callMethod (aggregate env inner a true) s = (.returned (arraysOf cts n (docs.take n)), s') ∧
      s'.log = s.log ++ trace ∧
      Event.loadQuery cursor (some ⟨(List.range n).map fun i => (i, i), failed⟩) ∈ trace

variable {env inner : Env} {a : AggregateArgs} {cts : List ColumnType} {docs : List Bson} {s : State}

omit [PyImpl] [CImpl] in
theorem did_within_start (hs : s.frame = Frame.start) (trace : List Event) (n : Nat) (f : Frame) :
    ((s.did trace n).within f).within Frame.start = s.did trace n := by
  rw [within_within, ← hs, ← frame_did s trace n, within_frame]

/-- The rows that `aggregate` loads once it has their number. -/
theorem aggregateRows_ready (hq : env.Quiet) (hready : Plan.Ready (a.plan env []) cts) {client : Nat}
    (hc : s.connection = some client) (hs : s.frame = Frame.start) {p : PyValue} {m : Int} {reply : Nat → Reply}
    (hans : Answers env p reply) (hy : Yields reply docs false) (h0 : 0 ≤ limited m a.limit)
    (h31 : limited m a.limit < 2 ^ 31) {n : Nat} (hn : (limited m a.limit).toNat = n)
    (hclean : (freshColumns cts (limited m a.limit)).CleanAll 0 (docs.take n)) :
    ∃ trace cursor failed, callMethod (aggregateRows env a p m) s = (.returned (arraysOf cts n (docs.take n)), s.did trace 3) ∧
      ∀ cursor' record, Event.loadQuery cursor' record ∈ trace ↔ cursor' = cursor ∧
        record = some ⟨(List.range (docs.take n).length).map fun i => (i, i), failed⟩ := by
  obtain ⟨encoded, henc, hagg⟩ := hans
  have hready : Plan.Ready (a.plan env encoded) cts := ⟨hready.db, hready.coll, hready.lengths, hready.few, hready.columns⟩
  obtain ⟨h, hh⟩ : ∃ h, h = Session.first cts (limited m a.limit) client s.fresh reply := ⟨_, rfl⟩
  obtain ⟨r, hload, harr, hcalls⟩ := load_first hready h0 h31 hy (by rw [hn]; exact hclean) hh
  have hrows := rows_ready hready hq h0 hs hc hagg hh hload
  rw [hn] at harr hcalls
  refine ⟨h.opening ++ [h.loading r] ++ h.closing, h.cursor, mongocCursorError r.mcursor, ?_, ?_⟩
  · rw [callMethod_apply _ hs, aggregateRows_eq, ofExcept_bind_ok henc, hrows, harr, did_within_start hs]
  · intro cursor' record
    simp [Session.opening, Session.closing, Session.loading, hcalls]

/-- The call that counts. -/
theorem count_pass (h : Aggregation env inner a cts docs s) {p p' : PyValue} (hp : getPipeline a.pipeline = .ok p)
    (hp' : appendStage p countStage = .ok p') :
    ∃ counted trace,
      callMethod (aggregateRows inner ⟨a.db, a.coll, p', ["count"], ["int64"], 1⟩ p' 1) s =
        (.returned (arraysOf [countColumn] 1 counted), s.did trace 3) ∧
      (docs = [] → counted = []) ∧ (docs ≠ [] → ∃ d, counted = [d] ∧ CountsTo d docs.length) ∧
      ∀ cursor calls failed, Event.loadQuery cursor (some ⟨calls, failed⟩) ∈ trace → calls.length ≤ 1 := by
  obtain ⟨client, hc⟩ := h.connected
  obtain ⟨reply, hans, hreply⟩ := h.counted p p' hp hp'
  obtain ⟨counted, hy, hlen, hnil, hcons⟩ : ∃ counted, Yields reply counted false ∧ counted.length ≤ 1 ∧
      (docs = [] → counted = []) ∧ (docs ≠ [] → ∃ d, counted = [d] ∧ CountsTo d docs.length) := by
    unfold CountReply at hreply
    by_cases hdocs : docs = []
    · rw [if_pos (by simp [hdocs])] at hreply
      exact ⟨[], hreply, by simp, fun _ => rfl, fun h => absurd hdocs h⟩
    · rw [if_neg (by simpa using hdocs)] at hreply
      obtain ⟨d, hy, hd⟩ := hreply
      exact ⟨[d], hy, by simp, fun h => absurd h hdocs, fun _ => ⟨d, rfl, hd⟩⟩
  have htake : counted.take 1 = counted := List.take_of_length_le hlen
  have hclean := clean_countColumn 1 0 (counted.take 1)
  obtain ⟨trace, cursor, failed, hrun, htrace⟩ := aggregateRows_ready
    (a := ⟨a.db, a.coll, p', ["count"], ["int64"], 1⟩) h.innerQuiet
    (countColumn_ready h.ready.db h.ready.coll _) hc h.frame hans hy (m := 1) (n := 1)
    (show (0 : Int) ≤ 1 by decide) (show (1 : Int) < 2 ^ 31 by decide) rfl hclean
  rw [htake] at hrun
  refine ⟨counted, trace, hrun, hnil, hcons, ?_⟩
  intro cursor' calls failed' hmem
  obtain ⟨-, hrec⟩ := (htrace _ _).mp hmem
  cases hrec
  simp

/-- `aggregate` raises for an empty result, and otherwise goes on with the number of its documents. -/
theorem aggregate_counted (h : Aggregation env inner a cts docs s) {p : PyValue} (hp : getPipeline a.pipeline = .ok p) :
    ∃ trace, (∀ cursor calls failed, Event.loadQuery cursor (some ⟨calls, failed⟩) ∈ trace → calls.length ≤ 1) ∧
      (docs = [] → ∃ e, callMethod (aggregate env inner a true) s = (.raised e, s.did trace 3)) ∧
      (docs ≠ [] → callMethod (aggregate env inner a true) s =
        callMethod (aggregateRows env a p docs.length) (s.did trace 3)) := by
  obtain ⟨p₁, p', hp₁, hp'⟩ := spelled_ok h.spelled
  obtain rfl : p₁ = p := Except.ok.inj (hp₁.symm.trans hp)
  obtain ⟨counted, trace, hrun, hnil, hcons, hshort⟩ := count_pass h hp hp'
  have hagg : aggregate env inner a true s =
      (ofExcept (countOf (arraysOf [countColumn] 1 counted)) >>= fun n => aggregateRows env a p₁ n) (s.did trace 3) := by
    rw [aggregate_eq, ofExcept_bind_ok hp, if_neg (by simp), ofExcept_bind_ok hp', bind_of_returned hrun]
  have hframe : (s.did trace 3).frame = Frame.start := h.frame
  refine ⟨trace, hshort, fun hdocs => ?_, fun hdocs => ?_⟩
  · rw [callMethod_apply _ h.frame, hagg, hnil hdocs, ofExcept_bind_error countOf_none]
    refine ⟨⟨.runtimeError, "Failed to count the aggregation size", []⟩, ?_⟩
    rw [← hframe, within_frame]
  · obtain ⟨d, rfl, hd⟩ := hcons hdocs
    rw [callMethod_apply _ h.frame, hagg, ofExcept_bind_ok (countOf_counted hd), callMethod_apply _ hframe]

/-- What it takes to load the rows. -/
theorem aggregateRows_returned (hready : Plan.Ready (a.plan env []) cts) (hs : s.frame = Frame.start) {p : PyValue}
    {reply : Nat → Reply} (hans : Answers env p reply) (hy : Yields reply docs false) {m : Int}
    (h0 : 0 ≤ limited m a.limit) {arrays : List MaskedArray} {s' : State}
    (h : callMethod (aggregateRows env a p m) s = (.returned arrays, s')) :
    ∃ (r : LoadState) (sess : Session), s'.log = s.log ++ (sess.opening ++ [sess.loading r] ++ sess.closing) ∧ r.calls.length < 2 ^ 31 ∧
      (freshColumns cts (limited m a.limit)).CleanAll 0 (docs.take (toUInt32 (limited m a.limit))) := by
  rw [callMethod_apply _ hs] at h
  obtain ⟨ho, hs'⟩ := Prod.mk.inj h
  rcases aggregateRows_run env a p m hs with ⟨e, hr⟩ | ⟨encoded, henc, hr⟩
  · rw [hr] at ho
    cases ho
  obtain ⟨encoded', henc', hagg⟩ := hans
  obtain rfl := Except.ok.inj (henc.symm.trans henc')
  generalize aggregateRows env a p m s = res at hr ho hs'
  rcases hr with _ | _ | ⟨sess, r, hopen⟩
  · cases ho
  · cases ho
  have hcd := holds_accepted h0 hopen.accepts
  obtain ⟨-, cts', hcts, hcols⟩ := (accepts_iff h0).mp hopen.accepts
  have hctseq : cts' = cts := by
    have htypes : cts.map some = cts'.map some := hready.columns.symm.trans (acceptable_types hcts)
    exact (List.map_injective_iff.mpr (Option.some_injective _) htypes).symm
  rw [hctseq] at hcols
  obtain ⟨reply', hans', hcursor⟩ := hopen.answer
  obtain rfl : reply' = reply := by
    have hans' : aggregateReply env encoded = .ok (some reply') := hans'
    rw [hagg] at hans'
    exact (Option.some.inj (Except.ok.inj hans')).symm
  have hcd' : sess.columns = freshColumns cts (limited m a.limit) := hcols
  have htake : sess.mcursor.take sess.columns.numRows = docs.take (toUInt32 (limited m a.limit)) := by
    have htake : MongocCursor.take ⟨reply', 0, false⟩ sess.columns.numRows = (docs.drop 0).take sess.columns.numRows :=
      take_eq hy rfl (Nat.zero_le _) _
    rw [hcursor, htake, hcd']
    rfl
  obtain ⟨hlen, hclean⟩ := (monaryLoadQuery_ok_iff hcd).mp ⟨r, hopen.load⟩
  have hr := monaryLoadQuery_eq_ok hcd hopen.load
  refine ⟨r, sess, ?_, ?_, ?_⟩
  · rw [← hs']
    rfl
  · rw [hr]
    show ([] ++ (List.range _).map _).length < 2 ^ 31
    simpa using hlen
  · rw [htake, hcd'] at hclean
    exact hclean

/-- The size is right exactly when there is a document in the result, the number of rows is an `int` and the
documents are clean in their rows; and the pipeline of the caller is kept. -/
theorem aggregate_sized (h : Aggregation env inner a cts docs s) :
    (AggregateSized env inner a cts docs s ↔
      docs ≠ [] ∧ resultSize docs.length a.limit < 2 ^ 31 ∧
        (freshColumns cts (resultSize docs.length a.limit)).CleanAll 0
          (docs.take (resultSize docs.length a.limit))) ∧
      PipelineKept a.pipeline := by
  refine ⟨?_, pipelineKept _⟩
  obtain ⟨p, p', hp, -⟩ := spelled_ok h.spelled
  obtain ⟨trace, hshort, hempty, hsome⟩ := aggregate_counted h hp
  obtain ⟨client, hc⟩ := h.connected
  obtain ⟨reply, hans, hy⟩ := h.result p hp
  have hframe : (s.did trace 3).frame = Frame.start := h.frame
  have hlimited := limited_eq docs.length a.limit
  have h0 : 0 ≤ limited docs.length a.limit := by omega
  constructor
  · rintro ⟨s', trace', cursor, failed, hrun, hlog, hmem⟩
    have hdocs : docs ≠ [] := by
      intro hdocs
      obtain ⟨e, he⟩ := hempty hdocs
      rw [he] at hrun
      cases hrun
    rw [hsome hdocs] at hrun
    obtain ⟨r, sess, hlog', hlen, hclean⟩ := aggregateRows_returned h.ready hframe hans hy h0 hrun
    have htrace : trace' = trace ++ (sess.opening ++ [sess.loading r] ++ sess.closing) := by
      rw [hlog, log_did, List.append_assoc] at hlog'
      exact List.append_cancel_left hlog'
    have hn : resultSize docs.length a.limit < 2 ^ 31 := by
      rw [htrace, List.mem_append] at hmem
      rcases hmem with hmem | hmem
      · have := hshort _ _ _ hmem
        rw [List.length_map, List.length_range] at this
        omega
      · have hcalls : (List.range (resultSize docs.length a.limit)).map (fun i => (i, i)) = r.calls := by
          simp only [Session.opening, Session.closing, Session.loading, List.mem_append, List.mem_cons,
            List.not_mem_nil, or_false, reduceCtorEq, false_or, Event.loadQuery.injEq, Option.some.injEq,
            LoadRecord.mk.injEq] at hmem
          exact hmem.2.1
        have := congrArg List.length hcalls
        rw [List.length_map, List.length_range] at this
        omega
    have hu : toUInt32 (limited docs.length a.limit) = resultSize docs.length a.limit := by
      rw [hlimited]
      exact toUInt32_of_lt (by omega)
    rw [hu, hlimited] at hclean
    exact ⟨hdocs, hn, hclean⟩
  · rintro ⟨hdocs, hn, hclean⟩
    have htoNat : (limited docs.length a.limit).toNat = resultSize docs.length a.limit := by
      rw [hlimited]
      exact Int.toNat_natCast _
    rw [← hlimited] at hclean
    obtain ⟨trace', cursor, failed, hrun, hmem⟩ := aggregateRows_ready (s := s.did trace 3) h.quiet h.ready hc hframe
      hans hy h0 (by omega) htoNat hclean
    have hlen : (docs.take (resultSize docs.length a.limit)).length = resultSize docs.length a.limit := by
      rw [List.length_take]
      unfold resultSize
      split <;> omega
    refine ⟨_, trace ++ trace', cursor, failed, (hsome hdocs).trans hrun, ?_, ?_⟩
    · rw [log_did, log_did, List.append_assoc]
    · apply List.mem_append_right
      rw [hmem, hlen]
      exact ⟨rfl, rfl⟩

end Sizing

/-! ## An empty result -/

/-- `{pipeline: []}`. -/
def emptyPipeline : Bytes :=
  [0x14, 0, 0, 0, 4, 0x70, 0x69, 0x70, 0x65, 0x6C, 0x69, 0x6E, 0x65, 0, 5, 0, 0, 0, 0, 0]

/-- `{pipeline: [{$group: {_id: 1, count: {$sum: 1}}}]}`. -/
def countingPipeline : Bytes :=
  [0x48, 0, 0, 0, 4, 0x70, 0x69, 0x70, 0x65, 0x6C, 0x69, 0x6E, 0x65, 0, 0x39, 0, 0, 0, 3, 0x30, 0, 0x31, 0, 0, 0, 3,
    0x24, 0x67, 0x72, 0x6F, 0x75, 0x70, 0, 0x24, 0, 0, 0, 0x10, 0x5F, 0x69, 0x64, 0, 1, 0, 0, 0, 3, 0x63, 0x6F, 0x75,
    0x6E, 0x74, 0, 0xF, 0, 0, 0, 0x10, 0x24, 0x73, 0x75, 0x6D, 0, 1, 0, 0, 0, 0, 0, 0, 0, 0]

/-- `{_id: 1, count: 1}`. -/
def countDocument : Bson :=
  ⟨[0x19, 0, 0, 0, 0x10, 0x5F, 0x69, 0x64, 0, 1, 0, 0, 0, 0x10, 0x63, 0x6F, 0x75, 0x6E, 0x74, 0, 1, 0, 0, 0, 0],
    by decide⟩

/-- `{_id: 1, count: 2}`. -/
def countTwo : Bson :=
  ⟨[0x19, 0, 0, 0, 0x10, 0x5F, 0x69, 0x64, 0, 1, 0, 0, 0, 0x10, 0x63, 0x6F, 0x75, 0x6E, 0x74, 0, 2, 0, 0, 0, 0],
    by decide⟩

/-- A server with these documents, and with those that count them. -/
def pipelineServer (docs counts : List Bson) : Env where
  raises _ := none
  encode
    | .dict [("pipeline", .list [])] => .ok emptyPipeline
    | .dict [("pipeline", .list [_])] => .ok countingPipeline
    | _ => .error ⟨.other, "", []⟩
  client _ := true
  collection := true
  count _ := docs.length
  find _ _ _ _ := none
  aggregate pipeline :=
    if pipeline = emptyPipeline then some (MongocCursor.ofList docs false).reply
    else some (MongocCursor.ofList counts false).reply

/-- All documents, with an `int8` column. -/
def allNumbers : AggregateArgs := ⟨"test", "numbers", .list [], ["d"], ["int8"], 0⟩

/-- A state in which there is a connection. -/
def connectedState : State := ⟨[], some 0, 1, Frame.start⟩

/-- All documents, or the first of them, with a column of this type on `d`. -/
def oneColumn (type : String) (limit : Int) : AggregateArgs := ⟨"test", "numbers", .list [], ["d"], [type], limit⟩

theorem ready_oneColumn (type : String) (ct : ColumnType) (h : @columnType PyImpl.ascii "d" type = some ct)
    (answer : Option ColumnData → C (Option (Nat → Reply))) :
    @Plan.Ready PyImpl.ascii ⟨"test", "numbers", ["d"], [type], answer⟩ [ct] := by
  let _ := PyImpl.ascii
  have hdb : ∃ name, encodeAscii "test" = .ok name := ⟨_, if_pos (by decide)⟩
  have hcoll : ∃ name, encodeAscii "numbers" = .ok name := ⟨_, if_pos (by decide)⟩
  refine ⟨hdb, hcoll, rfl, ?_, ?_⟩
  · show 1 ≤ maxColumns
    decide
  · show [columnType "d" type] = [some ct]
    rw [h]

theorem aggregation_oneColumn (type : String) (ct : ColumnType) (h : @columnType PyImpl.ascii "d" type = some ct)
    (docs counts : List Bson) {limit : Int} (h0 : 0 ≤ limit)
    (hcounts : CountReply (MongocCursor.ofList counts false).reply docs.length) :
    @Aggregation PyImpl.ascii (pipelineServer docs counts) (pipelineServer docs counts) (oneColumn type limit) [ct] docs
      connectedState := by
  let _ := PyImpl.ascii
  refine ⟨⟨fun _ => rfl, rfl⟩, ⟨fun _ => rfl, rfl⟩, ready_oneColumn type ct h _, trivial, h0, ⟨0, rfl⟩, rfl, ?_, ?_⟩
  · rintro _ ⟨⟩
    refine ⟨_, ⟨emptyPipeline, rfl, ?_⟩, yields_ofList docs false⟩
    rfl
  · rintro _ _ ⟨⟩ ⟨⟩
    refine ⟨_, ⟨countingPipeline, rfl, ?_⟩, hcounts⟩
    rfl

theorem aggregation_allNumbers (docs counts : List Bson)
    (hcounts : CountReply (MongocCursor.ofList counts false).reply docs.length) :
    @Aggregation PyImpl.ascii (pipelineServer docs counts) (pipelineServer docs counts) allNumbers
      [⟨[0x64], .int8, 0⟩] docs connectedState :=
  aggregation_oneColumn "int8" _ rfl docs counts (le_refl _) hcounts

/-- A result without a document makes `aggregate` raise. -/
theorem not_forall_aggregateSized :
    ¬ ∀ env inner a cts docs s, @Aggregation PyImpl.ascii env inner a cts docs s →
      @AggregateSized PyImpl.ascii CImpl.x86 env inner a cts docs s := by
  intro h
  let _ := PyImpl.ascii
  let _ := CImpl.x86
  have hagg := aggregation_allNumbers [] [] (yields_ofList [] false)
  obtain ⟨s', trace, cursor, failed, hrun, -⟩ := h _ _ _ _ _ _ hagg
  obtain ⟨counting, -, hempty, -⟩ := aggregate_counted hagg rfl
  obtain ⟨e, he⟩ := hempty rfl
  rw [he] at hrun
  cases hrun

/-- A document without a number and one with the number 300, and the document that counts them. -/
theorem aggregate_sized_twoNumbers :
    @AggregateSized PyImpl.ascii CImpl.x86 (pipelineServer [emptyDocument, largeDocument] [countTwo])
      (pipelineServer [emptyDocument, largeDocument] [countTwo]) allNumbers [⟨[0x64], .int8, 0⟩]
      [emptyDocument, largeDocument] connectedState := by
  let _ := PyImpl.ascii
  let _ := CImpl.x86
  have hcounts : CountReply (MongocCursor.ofList [countTwo] false).reply 2 :=
    ⟨countTwo, yields_ofList _ _, _, rfl, Or.inl ⟨by decide, by decide⟩⟩
  refine ((aggregate_sized (aggregation_allNumbers [emptyDocument, largeDocument] [countTwo] hcounts)).1).mpr
    ⟨by simp, by decide, ?_⟩
  intro i bson _ c hc t it ht _
  obtain rfl := List.mem_singleton.mp hc
  obtain rfl : MonaryType.int8 = t := Option.some.inj ht
  exact ⟨nofun, nofun, nofun, nofun⟩

end Monary
