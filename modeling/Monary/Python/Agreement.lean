import Monary.Python.Partition

/-!
# Blocks and whole arrays

* `concatViews` : what a consumer that copies the blocks as they are yielded has for a column;
  `concatViews_blocksOf` : the values of the documents of the blocks, one after the other;
* `shownArrays` : the arrays of `query` and `aggregate`, `rows_outcome` : they are returned exactly when the load
  returns;
* `SameRows`, `sameRows_iff` : when the arrays have the rows of the blocks;
* `AggregatesAgree`, `aggregatesAgree_iff` : `aggregate` and `block_aggregate` agree exactly when the limit
  leaves out nothing.
-/

namespace Monary
open ByteSeq CInt Effect Chunks

section Agreement
variable [PyImpl] [CImpl]

/-! ## The values of the blocks -/

/-- The values of a column in the blocks, one block behind the other. -/
def concatViews (blocks : List (List MaskedArray)) (j : Nat) : List (Option Bytes) :=
  blocks.flatMap fun arrays => (arrays[j]?.map MaskedArray.views).getD []

section Column
variable {c : ColumnItem} {t : MonaryType} {n row : Nat} {docs : List Bson}

omit [PyImpl] in
theorem cellPayload_putAll (c : ColumnItem) (row : Nat) (docs : List Bson) :
    cellPayload (c.putAll row docs) = cellPayload c := by
  induction docs generalizing c row with
  | nil => rfl
  | cons d docs ih => exact ih (c.put row (cellPayload c d)) (row + 1)

omit [PyImpl] in
theorem fillsAll_putAll (c : ColumnItem) (row : Nat) (docs docs' : List Bson) :
    (c.putAll row docs).FillsAll 0 docs' ↔ c.FillsAll 0 docs' := by
  induction docs generalizing c row with
  | nil => rfl
  | cons d docs ih => exact ih (c.put row (cellPayload c d)) (row + 1)

omit [PyImpl] in
theorem views_putAll (hc : c.Holds t n) (hlen : docs.length ≤ n) (hfill : c.FillsAll 0 docs) :
    MaskedArray.views ⟨docs.length, c.putAll 0 docs⟩ = docs.map (cellPayload c) := by
  unfold MaskedArray.views
  apply List.ext_getElem
  · simp
  · intro i hi hi'
    have hlt : i < docs.length := by simpa using hi
    have hview := view_putAll hc (by omega) hfill (List.getElem?_eq_getElem hlt)
    rw [Nat.zero_add] at hview
    simpa using hview

omit [PyImpl] in
/-- A block is read before the next is loaded over it. -/
theorem concatViews_blocksOf {cd : ColumnData} {cs : List (List Bson)} {j : Nat} (hj : cd.columns[j]? = some c)
    (hc : c.Holds t n) (hcs : ∀ docs ∈ cs, docs.length ≤ n ∧ c.FillsAll 0 docs) :
    concatViews (blocksOf cd cs) j = cs.flatten.map (cellPayload c) := by
  induction cs generalizing cd c with
  | nil => rfl
  | cons docs cs ih =>
    obtain ⟨hlen, hfill⟩ := hcs docs List.mem_cons_self
    have hj' : (cd.putAll 0 docs).columns[j]? = some (c.putAll 0 docs) := by
      rw [columns_putAll, List.getElem?_map, hj]
      rfl
    have hrest := ih hj' (holds_putAll hc (by omega)) fun docs' hmem => by
      rw [fillsAll_putAll]
      exact hcs docs' (List.mem_cons_of_mem _ hmem)
    unfold concatViews at hrest ⊢
    rw [blocksOf, List.flatMap_cons, hrest, List.getElem?_map, hj', cellPayload_putAll, List.flatten_cons, List.map_append]
    congr 1
    exact views_putAll hc hlen hfill

end Column

/-! ## The values of the arrays -/

/-- The arrays that a method returns, when its load has put the documents that there are into their rows. -/
def shownArrays (cts : List ColumnType) (count : Int) (docs : List Bson) : List MaskedArray :=
  cts.map fun ct => ⟨count.toNat, (ct.fresh count.toNat).putAll 0 (docs.take (toUInt32 count))⟩

/-- The session of `query` and `aggregate` returns the arrays exactly when its load returns. -/
theorem rows_outcome {env : Env} {p : Plan} {cts : List ColumnType} {count : Int} {client : Nat} {s : State}
    {reply : Nat → Reply} {docs : List Bson} (hp : p.Ready cts) (hq : env.Quiet) (hcount : 0 ≤ count)
    (hs : s.frame = Frame.start) (hc : s.connection = some client)
    (hans : p.answer (some (freshColumns cts count)) = .ok (some reply)) {fails : Bool} (hy : Yields reply docs fails) :
    (Loadable (freshColumns cts count) (docs.take (toUInt32 count)) →
      ∃ trace f, p.rows env count s = (.returned (shownArrays cts count docs), (s.did trace 3).within f)) ∧
    (¬ Loadable (freshColumns cts count) (docs.take (toUInt32 count)) → ∃ f s', p.rows env count s = (.fault f, s')) := by
  obtain ⟨h, hh⟩ : ∃ h, h = Session.first cts count client s.fresh reply := ⟨_, rfl⟩
  have hcols : h.columns = freshColumns cts count := by rw [hh]; rfl
  have hrows : h.columns.numRows = toUInt32 count := by rw [hcols]; rfl
  have hcd : h.columns.Holds count.toNat := by
    rw [hcols]
    exact holds_freshColumns hp hcount
  have htake : h.mcursor.take h.columns.numRows = docs.take (toUInt32 count) := by
    rw [hrows, hh]
    exact take_first hy _ _ _ _ _
  have hok : (∃ r, monaryLoadQuery h.columns h.mcursor = .ok r) ↔ _ := monaryLoadQuery_ok_iff hcd
  rw [htake, hcols] at hok
  constructor
  · intro hl
    obtain ⟨r, hr⟩ := hok.mpr hl
    rw [← hcols] at hr
    have hafter := monaryLoadQuery_eq_ok hcd hr
    have harrays : (h.loaded r).arrays count = shownArrays cts count docs := by
      rw [hafter]
      show (h.columns.putAll 0 (h.mcursor.take h.columns.numRows)).columns.map _ = _
      rw [htake, columns_putAll, hcols]
      unfold shownArrays freshColumns
      rw [List.map_map, List.map_map]
      rfl
    have hrun := rows_ready hp hq hcount hs hc hans hh hr
    rw [harrays] at hrun
    exact ⟨_, _, hrun⟩
  · intro hl
    rcases hload : monaryLoadQuery h.columns h.mcursor with f | r
    · obtain ⟨s', hrun⟩ := rows_fault hp hq hcount hs hc hans hh hload
      exact ⟨f, s', hrun⟩
    · rw [hcols] at hload
      exact absurd (hok.mp ⟨r, hload⟩) hl

/-! ## Rows side by side -/

/-- The arrays have `rows` rows, and show in them what the blocks showed. -/
def SameRows (columns rows : Nat) (arrays : List MaskedArray) (blocks : List (List MaskedArray)) : Prop :=
  arrays.length = columns ∧
    ∀ j < columns, ∃ array, arrays[j]? = some array ∧ array.length = rows ∧ concatViews blocks j = array.views

/-- What a document has for a column of this type. -/
def ColumnType.value (ct : ColumnType) (bson : Bson) : Option Bytes := cellPayload (ct.fresh 0) bson

/-- Columns whose values all have the same width. -/
def FixedWidth (cts : List ColumnType) : Prop := ∀ ct ∈ cts, ct.type.sized = false ∧ ct.typeArg < 2 ^ 32

section Fixed
variable {cts : List ColumnType} {ct : ColumnType} {docs : List Bson}

omit [PyImpl] [CImpl] in
theorem FixedWidth.holds (hf : FixedWidth cts) (hct : ct ∈ cts) (n : Nat) : (ct.fresh n).Holds ct.type n := by
  obtain ⟨hs, hw⟩ := hf ct hct
  refine freshColumn_holds _ n hw fun h => ?_
  rw [hs] at h
  cases h

omit [PyImpl] [CImpl] in
theorem FixedWidth.fillsAll (hf : FixedWidth cts) (hct : ct ∈ cts) (n : Nat) (docs : List Bson) :
    (ct.fresh n).FillsAll 0 docs :=
  fun _ _ _ => fills_of_not_sized (hf.holds hct n) (hf ct hct).1 _ _

omit [PyImpl] in
/-- The rows of an array: the values of the documents, and nothing behind the last that was loaded. -/
theorem getElem?_views_shown (hf : FixedWidth cts) (hct : ct ∈ cts) {n k : Nat} (hk : k ≤ n) (i : Nat) :
    (MaskedArray.views ⟨n, (ct.fresh n).putAll 0 (docs.take k)⟩)[i]? =
      if i < n then some ((docs.take k)[i]?.bind ct.value) else none := by
  have hlen : (docs.take k).length ≤ n := (List.length_take_le _ _).trans hk
  unfold MaskedArray.views
  rw [List.getElem?_map]
  by_cases hi : i < n
  · rw [if_pos hi, List.getElem?_range hi, Option.map_some]
    congr 1
    rcases hdoc : (docs.take k)[i]? with _ | bson
    · have hge := List.getElem?_eq_none_iff.mp hdoc
      rw [view_putAll_of_not_mem (hf.holds hct n) (by omega) (hf.fillsAll hct n _) (Or.inr (by omega)),
        ColumnItem.view, masked_fresh]
      rfl
    · have hview := view_putAll (hf.holds hct n) (by omega) (hf.fillsAll hct n _) hdoc
      rw [Nat.zero_add] at hview
      exact hview
  · rw [if_neg hi, List.getElem?_eq_none (by simpa using hi)]
    rfl

omit [PyImpl] [CImpl] in
/-- The documents of the blocks are the first of the documents. -/
theorem flatten_blockDocs {blockSize : Int} (h : 0 < blockSize) (docs : List Bson) :
    ∃ m, (blockDocs blockSize docs).flatten = docs.take m := by
  unfold blockDocs
  split
  · exact ⟨docs.length, by rw [flatten_chunks (by omega), List.take_length]⟩
  · refine ⟨toUInt32 blockSize, ?_⟩
    split
    · next hnil =>
      rw [hnil]
      rfl
    · simp

omit [PyImpl] [CImpl] in
theorem length_of_mem_blockDocs {blockSize : Int} {docs c : List Bson} (hc : c ∈ blockDocs blockSize docs) :
    c.length ≤ blockSize.toNat := by
  unfold blockDocs at hc
  split at hc
  · obtain ⟨b, hb⟩ := List.getElem?_of_mem hc
    rw [getElem?_chunks hb, length_take_drop]
    omega
  · split at hc
    · cases hc
    · obtain rfl := List.mem_singleton.mp hc
      have hlen := List.length_take_le (toUInt32 blockSize) docs
      unfold toUInt32 at hlen ⊢
      omega

omit [PyImpl] in
theorem concatViews_fixed (hf : FixedWidth cts) {j : Nat} (hj : cts[j]? = some ct) (blockSize : Int) (docs : List Bson) :
    concatViews (blocksOf (freshColumns cts blockSize) (blockDocs blockSize docs)) j =
      (blockDocs blockSize docs).flatten.map ct.value := by
  have hct : ct ∈ cts := List.mem_of_getElem? hj
  have hcol : (freshColumns cts blockSize).columns[j]? = some (ct.fresh blockSize.toNat) := by
    show (cts.map _)[j]? = _
    rw [List.getElem?_map, hj]
    rfl
  rw [concatViews_blocksOf hcol (hf.holds hct _) fun c hc => ⟨length_of_mem_blockDocs hc, hf.fillsAll hct _ c⟩]
  rfl

omit [PyImpl] in
/-- An array shows what the blocks show exactly when both have all its rows, the documents behind the last that was
loaded into the array having nothing for it. -/
theorem concat_eq_views_iff (hf : FixedWidth cts) (hct : ct ∈ cts) {n k m : Nat} (hk : k ≤ n) :
    (docs.take m).map ct.value = MaskedArray.views ⟨n, (ct.fresh n).putAll 0 (docs.take k)⟩ ↔
      (docs.take m).length = n ∧ ∀ i bson, docs[i]? = some bson → k ≤ i → i < n → ct.value bson = none := by
  have hviews (i : Nat) : (MaskedArray.views ⟨n, (ct.fresh n).putAll 0 (docs.take k)⟩)[i]? =
      if i < n then some ((docs.take k)[i]?.bind ct.value) else none := getElem?_views_shown hf hct hk i
  constructor
  · intro h
    have hlen : (docs.take m).length = n := by
      have := congrArg List.length h
      simpa [MaskedArray.views] using this
    refine ⟨hlen, fun i bson hi hki hin => ?_⟩
    have hm : i < m := by
      rw [List.length_take] at hlen
      omega
    have hrow := hviews i
    rw [← h, List.getElem?_map, List.getElem?_take, if_pos hm, hi, if_pos hin, List.getElem?_take, if_neg (by omega)] at hrow
    exact Option.some.inj hrow
  · rintro ⟨hlen, hnone⟩
    apply List.ext_getElem?
    intro i
    rw [hviews, List.getElem?_map]
    by_cases hi : i < n
    · have hm : i < m := by
        rw [List.length_take] at hlen
        omega
      have hdocs : i < docs.length := by
        rw [List.length_take] at hlen
        omega
      rw [if_pos hi, List.getElem?_take, if_pos hm, List.getElem?_take, List.getElem?_eq_getElem hdocs]
      by_cases hki : i < k
      · rw [if_pos hki]
        rfl
      · rw [if_neg hki]
        exact congrArg some (hnone i _ (List.getElem?_eq_getElem hdocs) (by omega) hi)
    · rw [if_neg hi, List.getElem?_eq_none (by omega)]
      rfl

omit [PyImpl] in
/-- The arrays have the rows of the blocks exactly when all have as many. -/
theorem sameRows_iff (hf : FixedWidth cts) {blockSize count : Int} (hsize : 0 < blockSize) (hcount : 0 ≤ count)
    (rows : Nat) (docs : List Bson) :
    SameRows cts.length rows (shownArrays cts count docs) (blocksOf (freshColumns cts blockSize) (blockDocs blockSize docs)) ↔
      ∀ ct ∈ cts, count.toNat = rows ∧ (blockDocs blockSize docs).flatten.length = rows ∧
        ∀ i bson, docs[i]? = some bson → toUInt32 count ≤ i → i < rows → ct.value bson = none := by
  obtain ⟨m, hm⟩ := flatten_blockDocs hsize docs
  have hk : toUInt32 count ≤ count.toNat := by
    unfold toUInt32
    omega
  have hshown {j : Nat} {ct : ColumnType} (hj : cts[j]? = some ct) : (shownArrays cts count docs)[j]? =
      some ⟨count.toNat, (ct.fresh count.toNat).putAll 0 (docs.take (toUInt32 count))⟩ := by
    unfold shownArrays
    rw [List.getElem?_map, hj]
    rfl
  rw [hm]
  constructor
  · rintro ⟨-, h⟩ ct hct
    obtain ⟨j, hj⟩ := List.getElem?_of_mem hct
    obtain ⟨array, harray, hlen, hconcat⟩ := h j (List.getElem?_eq_some_iff.mp hj).1
    rw [hshown hj] at harray
    obtain rfl := Option.some.inj harray
    have hlen : count.toNat = rows := hlen
    rw [concatViews_fixed hf hj, hm, concat_eq_views_iff hf hct hk, hlen] at hconcat
    exact ⟨hlen, hconcat⟩
  · intro h
    refine ⟨List.length_map _, fun j hj => ?_⟩
    have hct : cts[j]? = some cts[j] := List.getElem?_eq_getElem hj
    obtain ⟨hlen, hrows⟩ := h cts[j] (List.getElem_mem hj)
    refine ⟨_, hshown hct, hlen, ?_⟩
    rw [concatViews_fixed hf hct, hm, concat_eq_views_iff hf (List.getElem_mem hj) hk, hlen]
    exact hrows

end Fixed

/-! ## `aggregate` and `block_aggregate` -/

section Aggregates
variable {env inner : Env} {a : AggregateArgs} {cts : List ColumnType} {docs : List Bson} {s t : State} {blockSize : Int}

/-- `aggregate` returns arrays of as many rows as the result has documents, or the limit, and `block_aggregate` comes to
its end with blocks that show the same. -/
def AggregatesAgree (env inner : Env) (a : AggregateArgs) (blockSize : Int) (columns n : Nat) (s t : State) : Prop :=
  ∃ arrays s' ys t', callMethod (aggregate env inner a true) s = (.returned arrays, s') ∧
    Drains env (.blockAggregate a blockSize) t ys t' ∧
    SameRows columns (resultSize n a.limit) arrays (ys.map Prod.fst)

omit [CImpl] in
theorem iteration_aggregate (h : Aggregation env inner a cts docs s) (ht : ∃ client, t.connection = some client) :
    Iteration env (.blockAggregate a blockSize) cts docs t := by
  obtain ⟨p, p', hp, -⟩ := spelled_ok h.spelled
  obtain ⟨reply, ⟨encoded, henc, hans⟩, hy⟩ := h.result p hp
  refine ⟨h.quiet, rfl, ht, a.plan env encoded, reply, ?_, ?_, hans, hy⟩
  · show (do return a.plan env (← getPlainQuery env.encode (← getPipeline a.pipeline))) = _
    rw [hp]
    show (do return a.plan env (← getPlainQuery env.encode p)) = _
    rw [henc]
    rfl
  · exact ⟨h.ready.db, h.ready.coll, h.ready.lengths, h.ready.few, h.ready.columns⟩

/-- `aggregate` returns its arrays exactly when there is a document and its load returns. -/
theorem aggregate_outcome (h : Aggregation env inner a cts docs s) (hdocs : docs ≠ []) :
    let n : Int := resultSize docs.length a.limit
    (Loadable (freshColumns cts n) (docs.take (toUInt32 n)) →
      ∃ s', callMethod (aggregate env inner a true) s = (.returned (shownArrays cts n docs), s')) ∧
    (¬ Loadable (freshColumns cts n) (docs.take (toUInt32 n)) →
      ∃ f s', callMethod (aggregate env inner a true) s = (.fault f, s')) := by
  intro n
  obtain ⟨p, p', hp, -⟩ := spelled_ok h.spelled
  obtain ⟨trace, -, -, hsome⟩ := aggregate_counted h hp
  obtain ⟨reply, ⟨encoded, henc, hans⟩, hy⟩ := h.result p hp
  obtain ⟨client, hc⟩ := h.connected
  have hframe : (s.did trace 3).frame = Frame.start := h.frame
  have hready : Plan.Ready (a.plan env encoded) cts :=
    ⟨h.ready.db, h.ready.coll, h.ready.lengths, h.ready.few, h.ready.columns⟩
  have hn : 0 ≤ n := Int.natCast_nonneg _
  have hrows := rows_outcome hready h.quiet hn hframe hc hans hy
  have hrun : callMethod (aggregate env inner a true) s =
      (((a.plan env encoded).rows env n (s.did trace 3)).1,
        ((a.plan env encoded).rows env n (s.did trace 3)).2.within Frame.start) := by
    rw [hsome hdocs, callMethod_apply _ hframe, aggregateRows_eq, ofExcept_bind_ok henc, limited_eq]
  rw [hrun]
  constructor
  · intro hl
    obtain ⟨trace', f, hr⟩ := hrows.1 hl
    rw [hr]
    exact ⟨_, rfl⟩
  · intro hl
    obtain ⟨f, s', hr⟩ := hrows.2 hl
    rw [hr]
    exact ⟨_, _, rfl⟩

omit [PyImpl] [CImpl] in
theorem blockSize_aggregate (a : AggregateArgs) (hsize : 1 ≤ blockSize) :
    (Generator.blockAggregate a blockSize).blockSize = blockSize := by
  show atLeastOne blockSize = _
  unfold atLeastOne
  omega

/-- The limit leaves out none of `n` documents, or as many as column data with fewer rows than the block size. -/
def LeavesOut (n : Nat) (limit blockSize : Int) : Prop :=
  if blockSize < 2 ^ 32 then limit = 0 ∨ (n : Int) ≤ limit else min n (toUInt32 blockSize) = resultSize n limit

omit [PyImpl] [CImpl] in
theorem leavesOut_iff {limit : Int} (h0 : 0 ≤ limit) (hsize : 1 ≤ blockSize) (docs : List Bson) :
    LeavesOut docs.length limit blockSize ↔
      (blockDocs blockSize docs).flatten.length = resultSize docs.length limit := by
  unfold LeavesOut blockDocs
  split
  · rw [flatten_chunks (by omega)]
    unfold resultSize
    split <;> omega
  · have hflat : (if docs.take (toUInt32 blockSize) = [] then [] else [docs.take (toUInt32 blockSize)]).flatten =
        docs.take (toUInt32 blockSize) := by
      split
      · next hnil =>
        rw [hnil]
        rfl
      · exact List.flatten_singleton
    rw [hflat, List.length_take, Nat.min_comm]

/-- Both loads return, the limit leaves out nothing, and no document with a value is behind the last that is loaded into
the arrays. -/
structure LimitKept (cts : List ColumnType) (docs : List Bson) (limit blockSize : Int) : Prop where
  arrays : Loadable (freshColumns cts (resultSize docs.length limit)) (docs.take (toUInt32 (resultSize docs.length limit)))
  blocks : ∀ c ∈ blockDocs blockSize docs, Loadable (freshColumns cts blockSize) c
  covered : cts ≠ [] → LeavesOut docs.length limit blockSize
  behind : ∀ ct ∈ cts, ∀ i bson, docs[i]? = some bson → toUInt32 (resultSize docs.length limit) ≤ i →
    i < resultSize docs.length limit → ct.value bson = none

theorem limitKept_of_agree (h : Aggregation env inner a cts docs s) (hdocs : docs ≠ []) (hf : FixedWidth cts)
    (ht : ∃ client, t.connection = some client) (hsize : 1 ≤ blockSize)
    (hagree : AggregatesAgree env inner a blockSize cts.length docs.length s t) : LimitKept cts docs a.limit blockSize := by
  obtain ⟨arrays, s', ys, t', hrun, hd, hrows⟩ := hagree
  have hi : Iteration env (.blockAggregate a blockSize) cts docs t := iteration_aggregate h ht
  have hbl := loadable_of_drains hi hd
  obtain ⟨ys', t'', hd', hys, -⟩ := iteration_blocks hi hbl
  rw [blockSize_aggregate a hsize] at hbl hys
  obtain ⟨hret, hfault⟩ := aggregate_outcome h hdocs
  by_cases hl : Loadable (freshColumns cts (resultSize docs.length a.limit))
      (docs.take (toUInt32 (resultSize docs.length a.limit)))
  · obtain ⟨s'', hrun'⟩ := hret hl
    rw [hrun] at hrun'
    cases hrun'
    obtain ⟨rfl, -⟩ := drains_unique hd hd'
    rw [hys, sameRows_iff hf (by omega) (Int.natCast_nonneg _)] at hrows
    refine ⟨hl, hbl, fun hne => ?_, fun ct hct => (hrows ct hct).2.2⟩
    obtain ⟨ct, hct⟩ := List.exists_mem_of_ne_nil _ hne
    exact (leavesOut_iff h.limit hsize docs).mpr (hrows ct hct).2.1
  · obtain ⟨f, s'', hrun'⟩ := hfault hl
    rw [hrun] at hrun'
    cases hrun'

theorem agree_of_limitKept (h : Aggregation env inner a cts docs s) (hdocs : docs ≠ []) (hf : FixedWidth cts)
    (ht : ∃ client, t.connection = some client) (hsize : 1 ≤ blockSize) (hkept : LimitKept cts docs a.limit blockSize) :
    AggregatesAgree env inner a blockSize cts.length docs.length s t := by
  obtain ⟨hl, hbl, hcov, hbehind⟩ := hkept
  have hi : Iteration env (.blockAggregate a blockSize) cts docs t := iteration_aggregate h ht
  obtain ⟨s', hrun⟩ := (aggregate_outcome h hdocs).1 hl
  obtain ⟨ys, t', hd, hys, -⟩ := iteration_blocks hi (by rwa [blockSize_aggregate a hsize])
  rw [blockSize_aggregate a hsize] at hys
  refine ⟨_, s', ys, t', hrun, hd, ?_⟩
  rw [hys, sameRows_iff hf (by omega) (Int.natCast_nonneg _)]
  intro ct hct
  exact ⟨Int.toNat_natCast _, (leavesOut_iff h.limit hsize docs).mp (hcov (List.ne_nil_of_mem hct)), hbehind ct hct⟩

/-- The two agree exactly when the limit leaves out nothing and both loads return. -/
theorem aggregatesAgree_iff (h : Aggregation env inner a cts docs s) (hdocs : docs ≠ []) (hf : FixedWidth cts)
    (ht : ∃ client, t.connection = some client) (hsize : 1 ≤ blockSize) :
    AggregatesAgree env inner a blockSize cts.length docs.length s t ↔ LimitKept cts docs a.limit blockSize :=
  ⟨limitKept_of_agree h hdocs hf ht hsize, agree_of_limitKept h hdocs hf ht hsize⟩

end Aggregates

end Agreement

/-! ## Two documents -/

theorem aggregation_two (limit : Int) (h0 : 0 ≤ limit) :
    @Aggregation PyImpl.ascii (pipelineServer [emptyDocument, emptyDocument] [countTwo])
      (pipelineServer [emptyDocument, emptyDocument] [countTwo]) (oneColumn "int8" limit) [⟨[0x64], .int8, 0⟩]
      [emptyDocument, emptyDocument] connectedState :=
  aggregation_oneColumn "int8" _ rfl _ _ h0 ⟨countTwo, yields_ofList _ _, _, rfl, Or.inl ⟨by decide, by decide⟩⟩

theorem fixedWidth_int8 : FixedWidth [⟨[0x64], .int8, 0⟩] := by
  intro ct hct
  obtain rfl := List.mem_singleton.mp hct
  exact ⟨rfl, by decide⟩

theorem loadable_int8 (count : Int) {docs : List Bson} (h : docs.length < 2 ^ 31) :
    Loadable (freshColumns [⟨[0x64], .int8, 0⟩] count) docs := by
  refine ⟨h, ?_⟩
  intro i bson _ col hcol t it ht _
  obtain rfl := List.mem_singleton.mp hcol
  obtain rfl : MonaryType.int8 = t := Option.some.inj ht
  exact ⟨nofun, nofun, nofun, nofun⟩

/-- A limit of one, and blocks with two documents. -/
theorem not_forall_aggregatesAgree :
    ¬ ∀ env inner a blockSize cts docs s t, @Aggregation PyImpl.ascii env inner a cts docs s → docs ≠ [] →
      FixedWidth cts → (∃ client, t.connection = some client) → 1 ≤ blockSize →
      @AggregatesAgree PyImpl.ascii CImpl.x86 env inner a blockSize cts.length docs.length s t := by
  intro h
  let _ := PyImpl.ascii
  let _ := CImpl.x86
  have hagg := aggregation_two 1 (by decide)
  have hagree := h _ _ _ 1 _ _ _ connectedState hagg (by simp) fixedWidth_int8 ⟨0, rfl⟩ (le_refl _)
  have hkept := limitKept_of_agree hagg (by simp) fixedWidth_int8 ⟨0, rfl⟩ (le_refl _) hagree
  have hleaves : LeavesOut 2 1 1 := hkept.covered (by simp)
  rcases hleaves with h | h
  · exact absurd h (by decide)
  · exact absurd h (by decide)

/-- Without a limit they agree. -/
theorem aggregatesAgree_two :
    @AggregatesAgree PyImpl.ascii CImpl.x86 (pipelineServer [emptyDocument, emptyDocument] [countTwo])
      (pipelineServer [emptyDocument, emptyDocument] [countTwo]) (oneColumn "int8" 0) 1 1 2 connectedState
      connectedState := by
  let _ := PyImpl.ascii
  let _ := CImpl.x86
  refine (aggregatesAgree_iff (aggregation_two 0 (le_refl _)) (by simp) fixedWidth_int8 ⟨0, rfl⟩ (le_refl _)).mpr
    ⟨loadable_int8 _ (by decide), fun c hc => loadable_int8 _ ?_, fun _ => ?_, ?_⟩
  · have hlen := length_of_mem_blockDocs hc
    have h1 : Int.toNat 1 = 1 := rfl
    omega
  · show LeavesOut 2 0 1
    exact (if_pos (by decide)).mpr (Or.inl rfl)
  · intro ct _ i bson _ hle hlt
    have h2 : toUInt32 ((resultSize 2 0 : Nat) : Int) = 2 := by decide
    have h2' : resultSize 2 0 = 2 := by decide
    have hle : toUInt32 ((resultSize 2 0 : Nat) : Int) ≤ i := hle
    have hlt : i < resultSize 2 0 := hlt
    omega

end Monary
