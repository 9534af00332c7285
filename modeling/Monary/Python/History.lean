import Monary.Python.Agreement

/-!
# Blocks and what was loaded before

* `BlocksFresh` : every block shows what its documents leave in arrays that are freshly zeroed;
* `blocksFresh_of_fills` : so does every run of a generator whose values all fill their cells;
* `history_independent` : this, and for one cell that a load forgets what the cell held exactly when its value fills it.
-/

namespace Monary
open ByteSeq CInt Effect Chunks

theorem length_le_numRows {blockSize : Int} {docs c : List Bson} (hc : c ∈ blockDocs blockSize docs) :
    c.length ≤ toUInt32 blockSize := by
  unfold blockDocs at hc
  split at hc
  · next hlt =>
    obtain ⟨b, hb⟩ := List.getElem?_of_mem hc
    have hlen := length_take_drop docs b blockSize.toNat
    rw [← getElem?_chunks hb] at hlen
    unfold toUInt32
    omega
  · split at hc
    · cases hc
    · obtain rfl := List.mem_singleton.mp hc
      exact List.length_take_le _ _

section History
variable [PyImpl] [CImpl]

/-- The blocks show what loads into fresh arrays show, each of its documents alone. -/
def BlocksFresh (cts : List ColumnType) (blockSize : Int) (docs : List Bson) (blocks : List (List MaskedArray)) : Prop :=
  ∀ (b : Nat) arrays c, blocks[b]? = some arrays → (blockDocs blockSize docs)[b]? = some c →
    ∃ r, monaryLoadQuery (freshColumns cts blockSize) (.ofList c false) = .ok r ∧
      arrays.map MaskedArray.views = r.coldata.columns.map fun col => MaskedArray.views ⟨c.length, col⟩

/-- Every value of a block fills the cell that it is loaded into. -/
def ValuesFill (cts : List ColumnType) (blockSize : Int) (docs : List Bson) : Prop :=
  ∀ c ∈ blockDocs blockSize docs, ∀ col ∈ (freshColumns cts blockSize).columns, col.FillsAll 0 c

omit [PyImpl] in
/-- A block of documents that fill their cells shows their values, whatever the columns held. -/
theorem views_blocksOf {cd : ColumnData} {cs : List (List Bson)} {rows b : Nat} {arrays : List MaskedArray}
    {c : List Bson} (hcd : cd.Holds rows) (hlen : ∀ c ∈ cs, c.length ≤ cd.numRows)
    (hfill : ∀ c ∈ cs, ∀ col ∈ cd.columns, col.FillsAll 0 c) (hb : (blocksOf cd cs)[b]? = some arrays)
    (hc : cs[b]? = some c) : arrays.map MaskedArray.views = cd.columns.map fun col => c.map (cellPayload col) := by
  induction cs generalizing cd b with
  | nil => cases hc
  | cons first cs ih =>
    have hfirst : 0 + first.length ≤ cd.numRows := by
      rw [Nat.zero_add]
      exact hlen first List.mem_cons_self
    rcases b with _ | b
    · obtain rfl := Option.some.inj hc
      obtain rfl := Option.some.inj hb
      rw [columns_putAll, List.map_map, List.map_map]
      apply List.map_congr_left
      intro col hcol
      obtain ⟨t, ht⟩ := hcd.columns col hcol
      have hle := hcd.le
      exact views_putAll ht (by omega) (hfill first List.mem_cons_self col hcol)
    · have hcols : (cd.putAll 0 first).columns = cd.columns.map (·.putAll 0 first) := by rw [columns_putAll]
      rw [ih (hcd.putAll hfirst) ?_ ?_ hb hc, hcols, List.map_map]
      · apply List.map_congr_left
        intro col _
        show c.map (cellPayload (col.putAll 0 first)) = _
        rw [cellPayload_putAll]
      · intro c' hc'
        rw [numRows_putAll]
        exact hlen c' (List.mem_cons_of_mem _ hc')
      · intro c' hc' col hcol
        rw [hcols] at hcol
        obtain ⟨col', hcol', rfl⟩ := List.mem_map.mp hcol
        rw [fillsAll_putAll]
        exact hfill c' (List.mem_cons_of_mem _ hc') col' hcol'

variable {env : Env} {g : Generator} {cts : List ColumnType} {docs : List Bson} {s s' : State}

/-- A run in which every value fills its cell. -/
theorem blocksFresh_of_fills (hi : Iteration env g cts docs s) {ys : List (List MaskedArray × List Event)}
    (hd : Drains env g s ys s') (hfill : ValuesFill cts g.blockSize docs) :
    BlocksFresh cts g.blockSize docs (ys.map Prod.fst) := by
  have hload := loadable_of_drains hi hd
  obtain ⟨ys', s'', hd', hys, -⟩ := iteration_blocks hi hload
  obtain ⟨rfl, -⟩ := drains_unique hd hd'
  obtain ⟨p, reply, -, hready, -⟩ := hi.plan
  have hpos := blockSize_created hi.created
  have hcd : (freshColumns cts g.blockSize).Holds g.blockSize.toNat := holds_freshColumns hready (by omega)
  intro b arrays c hb hc
  have hmem := List.mem_of_getElem? hc
  have hlen := length_le_numRows hmem
  have htake : (MongocCursor.ofList c false).take (freshColumns cts g.blockSize).numRows = c := by
    rw [take_eq (yields_ofList c false) rfl (Nat.zero_le _)]
    show (c.drop 0).take _ = c
    rw [List.drop_zero]
    exact List.take_of_length_le hlen
  obtain ⟨h31, hclean⟩ := hload c hmem
  have hr := monaryLoadQuery_eq hcd (by rwa [htake]) (by rwa [htake])
  refine ⟨_, hr, ?_⟩
  rw [hys] at hb
  rw [views_blocksOf hcd (fun c hc => length_le_numRows hc) hfill hb hc]
  show _ = ((freshColumns cts g.blockSize).putAll 0
    ((MongocCursor.ofList c false).take (freshColumns cts g.blockSize).numRows)).columns.map _
  rw [htake, columns_putAll, List.map_map]
  apply List.map_congr_left
  intro col hcol
  obtain ⟨t, ht⟩ := hcd.columns col hcol
  have hle := hcd.le
  have hrows : (freshColumns cts g.blockSize).numRows = toUInt32 g.blockSize := rfl
  exact (views_putAll ht (by omega) (hfill c hmem col hcol)).symm

/-- One cell forgets what it held exactly when the value fills it and its offset does not overflow; and a run whose values
all fill their cells yields the blocks of fresh arrays. -/
theorem history_independent :
    (∀ (e : Element) (c : ColumnItem) (t : MonaryType) (n row : Nat), c.Holds t n → row < n → Taken t e.iter →
      (LoadForgets e c t n row ↔ FillsCell t c.typeArg row e.iter ∧ OffsetFits t c.typeArg row)) ∧
    ∀ (env : Env) (g : Generator) (cts : List ColumnType) (docs : List Bson) (s s' : State)
      (ys : List (List MaskedArray × List Event)), Iteration env g cts docs s → Drains env g s ys s' →
      ValuesFill cts g.blockSize docs → BlocksFresh cts g.blockSize docs (ys.map Prod.fst) :=
  ⟨fun _ _ _ _ _ hc hrow htaken => loadForgets_iff hc hrow htaken,
    fun _ _ _ _ _ _ _ hi hd hfill => blocksFresh_of_fills hi hd hfill⟩

end History

/-! ## A short string -/

/-- `{d: 'ab'}` and `{d: 'c'}`. -/
def longThenShort : List Bson :=
  [⟨[15, 0, 0, 0, 2, 0x64, 0, 3, 0, 0, 0, 0x61, 0x62, 0, 0], by decide⟩,
    ⟨[14, 0, 0, 0, 2, 0x64, 0, 2, 0, 0, 0, 0x63, 0, 0], by decide⟩]

/-- The columns of two bytes on `d`. -/
def twoBytes : List ColumnType := [⟨[0x64], .string, 2⟩]

theorem loadable_twoBytes {docs : List Bson} (h : docs.length ≤ 1) : Loadable (freshColumns twoBytes 1) docs := by
  refine ⟨by omega, ?_⟩
  intro i bson hi col hcol t it ht _
  obtain rfl := List.mem_singleton.mp hcol
  obtain rfl : MonaryType.string = t := Option.some.inj ht
  have hlt := (List.getElem?_eq_some_iff.mp hi).1
  have hrow : (0 + i) * 2 < 2 ^ 31 := by omega
  exact ⟨nofun, nofun, fun _ _ => hrow, nofun⟩

theorem iteration_twoBytes (docs : List Bson) :
    @Iteration PyImpl.ascii (pipelineServer docs []) (.blockAggregate (oneColumn "string:2" 0) 1) twoBytes docs
      connectedState :=
  iteration_oneColumn "string:2" _ rfl docs [] 0 1

/-- The second block shows the end of the string of the first. -/
theorem not_forall_blocksFresh :
    ¬ ∀ env g cts docs s s' ys, @Iteration PyImpl.ascii env g cts docs s →
      @Drains PyImpl.ascii CImpl.x86 env g s ys s' →
      @BlocksFresh CImpl.x86 cts g.blockSize docs (ys.map Prod.fst) := by
  intro h
  let _ := PyImpl.ascii
  let _ := CImpl.x86
  have hi := iteration_twoBytes longThenShort
  obtain ⟨ys, s', hd, hys, -⟩ := iteration_blocks hi fun c hc => loadable_twoBytes (length_of_mem_blockDocs hc)
  have hviews : (blocksOf (freshColumns twoBytes 1) (blockDocs 1 longThenShort)).map (·.map MaskedArray.views) =
      [[[some [0x61, 0x62]]], [[some [0x63, 0x62]]]] := by rfl
  have hfresh : (monaryLoadQuery (freshColumns twoBytes 1) (.ofList (longThenShort.drop 1) false)).map
      (fun r => r.coldata.columns.map fun col => MaskedArray.views ⟨1, col⟩) = .ok [[some [0x63, 0]]] := by rfl
  have hblocks := h _ _ _ _ _ _ _ hi hd
  rw [hys] at hblocks
  obtain ⟨arrays, harrays⟩ : ∃ arrays, (blocksOf (freshColumns twoBytes 1) (blockDocs 1 longThenShort))[1]? = some arrays :=
    ⟨_, rfl⟩
  obtain ⟨r, hr, heq⟩ := hblocks 1 arrays (longThenShort.drop 1) harrays rfl
  have hshown : arrays.map MaskedArray.views = [[some [0x63, 0x62]]] := by
    have hmap : (List.map _ _)[1]? = _ := congrArg (·[1]?) hviews
    rw [List.getElem?_map, harrays] at hmap
    exact Option.some.inj hmap
  have hr : monaryLoadQuery (freshColumns twoBytes 1) (.ofList (longThenShort.drop 1) false) = .ok r := hr
  rw [hr] at hfresh
  have hfresh : r.coldata.columns.map (fun col => MaskedArray.views ⟨1, col⟩) = [[some [0x63, 0]]] :=
    Except.ok.inj hfresh
  rw [hshown] at heq
  have heq : [[some [(0x63 : UInt8), 0x62]]] = [[some [0x63, 0]]] := heq.trans hfresh
  simp at heq

/-- A value of two bytes fills the cell, and the run with it shows it as fresh arrays do. -/
theorem history_independent_twoBytes : ∃ ys s',
    @Drains PyImpl.ascii CImpl.x86 (pipelineServer (longThenShort.take 1) []) (.blockAggregate (oneColumn "string:2" 0) 1)
      connectedState ys s' ∧ @BlocksFresh CImpl.x86 twoBytes 1 (longThenShort.take 1) (ys.map Prod.fst) := by
  let _ := PyImpl.ascii
  let _ := CImpl.x86
  have hi := iteration_twoBytes (longThenShort.take 1)
  obtain ⟨ys, s', hd, -⟩ := iteration_blocks hi fun c hc => loadable_twoBytes (length_of_mem_blockDocs hc)
  refine ⟨ys, s', hd, history_independent.2 _ _ _ _ _ _ _ hi hd ?_⟩
  intro c hc col hcol i bson hbson
  have hc : c ∈ [longThenShort.take 1] := hc
  obtain rfl := List.mem_singleton.mp hc
  obtain rfl := List.mem_singleton.mp hcol
  rcases i with _ | i
  · obtain rfl := Option.some.inj hbson
    intro t it v ht hit hv
    obtain rfl : MonaryType.string = t := Option.some.inj ht
    have hval : (resolve ((ColumnType.mk [0x64] .string 2).fresh 1) (longThenShort.head (by simp [longThenShort]))).bind
        (sizedValue .string) = some [0x61, 0x62] := by rfl
    have hval : (some it).bind (sizedValue .string) = some [0x61, 0x62] := by
      rw [← hval]
      exact congrArg (·.bind (sizedValue .string)) hit.symm
    obtain rfl := Option.some.inj (hv.symm.trans hval)
    exact ⟨by decide, nofun⟩
  · cases hbson

end Monary
