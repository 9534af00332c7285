import Monary.Python.Blocks
import Monary.Python.Sizing

/-!
# Blocks partition the result

* `Iteration` : a generator over documents that meets nothing in its way, and `blockDocs` the documents of its
  blocks;
* `iteration_blocks` : it comes to its end exactly when its loads return, and has then yielded `blocksOf` them;
* `Partitions`, `partitions_iff` : it yields one block for each chunk of the documents, with a row for each document
  of the chunk, exactly when every document is clean in its row.
-/

namespace Monary
open ByteSeq CInt Effect Chunks

/-- The documents of the blocks of this size. -/
def blockDocs (blockSize : Int) (docs : List Bson) : List (List Bson) :=
  if blockSize < 2 ^ 32 then chunks blockSize.toNat docs
  else if docs.take (toUInt32 blockSize) = [] then [] else [docs.take (toUInt32 blockSize)]

theorem rounds_blockDocs {blockSize : Int} (h : 0 < blockSize) (docs : List Bson) :
    Rounds blockSize.toNat (toUInt32 blockSize) docs (blockDocs blockSize docs) := by
  unfold blockDocs
  split
  · next hlt =>
    have hk : toUInt32 blockSize = blockSize.toNat := by
      unfold toUInt32
      omega
    rw [hk]
    exact rounds_chunks (by omega) docs
  · apply rounds_lt
    unfold toUInt32
    omega

section Iteration
variable [PyImpl] [CImpl] {env : Env} {g : Generator} {cts : List ColumnType} {reply : Nat → Reply} {docs : List Bson}
  {s : State}

/-- The generator is made, and meets nothing in its way; its cursor has the documents. -/
structure Iteration (env : Env) (g : Generator) (cts : List ColumnType) (docs : List Bson) (s : State) : Prop where
  quiet : env.Quiet
  created : g.created = true
  connected : ∃ client, s.connection = some client
  plan : ∃ p reply, g.plan env = .ok p ∧ p.Ready cts ∧ p.answer (some (freshColumns cts g.blockSize)) = .ok (some reply) ∧
    Yields reply docs false

/-- The generator comes to its first load. -/
theorem awaits_first (hi : Iteration env g cts docs s) :
    ∃ h t, Awaits env docs g.blockSize.toNat (toUInt32 g.blockSize) g s h t ∧ h.mcursor.pos = 0 ∧
      h.columns = freshColumns cts g.blockSize ∧ h.cursor.coldata = some s.fresh := by
  obtain ⟨client, hc⟩ := hi.connected
  obtain ⟨p, reply, hp, hready, hans, hy⟩ := hi.plan
  have hpos := blockSize_created hi.created
  have hloads := loads_created hi.quiet hi.created hp hready (by omega) hc hans
  refine ⟨_, _, ⟨hloads, by omega, ⟨_, holds_freshColumns hready (by omega)⟩, rfl, hy, rfl, Nat.zero_le _⟩, rfl, rfl,
    rfl⟩

/-- What a generator yields. -/
theorem iteration_blocks (hi : Iteration env g cts docs s)
    (hclean : ∀ c ∈ blockDocs g.blockSize docs, Loadable (freshColumns cts g.blockSize) c) :
    ∃ ys s', Drains env g s ys s' ∧ ys.map Prod.fst = blocksOf (freshColumns cts g.blockSize) (blockDocs g.blockSize docs) ∧
      ∀ (b : Nat) y c, ys[b]? = some y → (blockDocs g.blockSize docs)[b]? = some c →
        ∃ cursor : CursorHandle, cursor.coldata = some s.fresh ∧ LoadedLast y.2 cursor (b * toUInt32 g.blockSize) c.length := by
  obtain ⟨h, t, ha, hpos, hcols, hd⟩ := awaits_first hi
  have hsize := blockSize_created hi.created
  have hk : toUInt32 g.blockSize ≤ g.blockSize.toNat := by
    unfold toUInt32
    omega
  obtain ⟨ys, s', hdrains, hblocks, hlast⟩ := drains_clean hi.quiet (by omega) hk (rounds_blockDocs hsize docs) ha
    (by rw [hpos, List.drop_zero]) (by rwa [hcols])
  rw [hcols] at hblocks
  refine ⟨ys, s', hdrains, hblocks, fun b y c hy hc => ⟨h.cursor, hd, ?_⟩⟩
  have hlast := hlast b y c hy hc
  rwa [hpos, Nat.zero_add] at hlast

theorem loadable_of_drains (hi : Iteration env g cts docs s) {ys : List (List MaskedArray × List Event)} {s' : State}
    (hd : Drains env g s ys s') : ∀ c ∈ blockDocs g.blockSize docs, Loadable (freshColumns cts g.blockSize) c := by
  obtain ⟨h, t, ha, hpos, hcols, -⟩ := awaits_first hi
  have hsize := blockSize_created hi.created
  have hk : toUInt32 g.blockSize ≤ g.blockSize.toNat := by
    unfold toUInt32
    omega
  rw [← hcols]
  exact clean_of_drains hi.quiet hk (rounds_blockDocs hsize docs) ha (by rw [hpos, List.drop_zero]) hd

omit [PyImpl] in
/-- Every block has the rows of its documents. -/
theorem getElem?_blocksOf {cd : ColumnData} {cs : List (List Bson)} {b : Nat} {arrays : List MaskedArray}
    (h : (blocksOf cd cs)[b]? = some arrays) :
    ∃ c, cs[b]? = some c ∧ arrays.length = cd.columns.length ∧ ∀ a ∈ arrays, a.length = c.length := by
  induction cs generalizing cd b with
  | nil => simp [blocksOf] at h
  | cons c cs ih =>
    rcases b with _ | b
    · obtain rfl := Option.some.inj h
      refine ⟨c, rfl, ?_, ?_⟩
      · rw [List.length_map, columns_putAll, List.length_map]
      · intro a ha
        obtain ⟨col, -, rfl⟩ := List.mem_map.mp ha
        rfl
    · obtain ⟨c', hc', hlen, hrows⟩ := ih h
      refine ⟨c', hc', ?_, hrows⟩
      rw [hlen, columns_putAll, List.length_map]

omit [PyImpl] in
theorem length_blocksOf (cd : ColumnData) (cs : List (List Bson)) : (blocksOf cd cs).length = cs.length := by
  induction cs generalizing cd with
  | nil => rfl
  | cons c cs ih => rw [blocksOf, List.length_cons, List.length_cons, ih]

/-! ## The partition -/

/-- The calls of `monary_bson_to_arrays` on this column data. -/
def callsOn (coldata : Nat) (log : List Event) : List (Nat × Nat) :=
  log.flatMap fun
    | .loadQuery cursor (some record) => if cursor.coldata = some coldata then record.calls else []
    | _ => []

/-- The number of the document of the last call on the row. -/
def lastCall (coldata : Nat) (log : List Event) (row : Nat) : Option Nat :=
  ((callsOn coldata log).reverse.find? (·.1 = row)).map (·.2)

omit [PyImpl] [CImpl] in
theorem lastCall_of_loadedLast {log : List Event} {cursor : CursorHandle} {first rows coldata r : Nat}
    (h : LoadedLast log cursor first rows) (hcur : cursor.coldata = some coldata) (hr : r < rows) :
    lastCall coldata log r = some (first + r) := by
  obtain ⟨earlier, failed, rfl⟩ := h
  have hcalls : callsOn coldata (earlier ++ [.loadQuery cursor (some ⟨(List.range rows).map fun r => (r, first + r), failed⟩)]) =
      callsOn coldata earlier ++ (List.range rows).map fun r => (r, first + r) := by
    unfold callsOn
    rw [List.flatMap_append, List.flatMap_singleton]
    dsimp only
    rw [if_pos hcur]
  have hfind : ((List.range rows).map fun r => (r, first + r)).reverse.find? (·.1 = r) = some (r, first + r) := by
    clear hcalls
    induction rows with
    | zero => omega
    | succ n ih =>
      rw [List.range_succ, List.map_append, List.reverse_append, List.map_singleton, List.reverse_singleton,
        List.singleton_append, List.find?_cons]
      by_cases hn : n = r
      · rw [decide_eq_true (by exact hn), hn]
      · rw [decide_eq_false (by exact hn)]
        exact ih (by omega)
  unfold lastCall
  rw [hcalls, List.reverse_append, List.find?_append, hfind]
  rfl

/-- `n` documents are yielded in blocks: how many, of how many rows, and which document was put last into each row. -/
def Partitions (env : Env) (g : Generator) (columns n : Nat) (s : State) : Prop :=
  let size := g.blockSize.toNat
  ∃ ys s', Drains env g s ys s' ∧ ys.length = (n + size - 1) / size ∧
    ∀ (b : Nat) y, ys[b]? = some y → y.1.length = columns ∧ (∀ a ∈ y.1, a.length = min size (n - b * size)) ∧
      ∀ r < min size (n - b * size), lastCall s.fresh y.2 r = some (b * size + r)

/-- The result is partitioned exactly when every document is clean in the row that it comes to. -/
theorem partitions_iff (hi : Iteration env g cts docs s) (h31 : g.blockSize < 2 ^ 31) :
    Partitions env g cts.length docs.length s ↔
      ∀ i bson, docs[i]? = some bson → (freshColumns cts g.blockSize).Clean (i % g.blockSize.toNat) bson := by
  have hpos := blockSize_created hi.created
  have hdocs : blockDocs g.blockSize docs = chunks g.blockSize.toNat docs := if_pos (by omega)
  have hk : toUInt32 g.blockSize = g.blockSize.toNat := by
    unfold toUInt32
    omega
  have hlen (c : List Bson) (hc : c ∈ chunks g.blockSize.toNat docs) : c.length < 2 ^ 31 := by
    obtain ⟨b, hb⟩ := List.getElem?_of_mem hc
    rw [getElem?_chunks hb, length_take_drop]
    omega
  have hiff : (∀ c ∈ chunks g.blockSize.toNat docs, Loadable (freshColumns cts g.blockSize) c) ↔
      ∀ i bson, docs[i]? = some bson → (freshColumns cts g.blockSize).Clean (i % g.blockSize.toNat) bson := by
    rw [← forall_chunks_iff (by omega)]
    refine forall₂_congr fun c hc => ?_
    unfold Loadable ColumnData.CleanAll
    simp only [hlen c hc, true_and, Nat.zero_add]
  rw [← hiff, ← hdocs]
  constructor
  · rintro ⟨ys, s', hd, -⟩
    exact loadable_of_drains hi hd
  · intro hclean
    obtain ⟨ys, s', hd, hblocks, hlast⟩ := iteration_blocks hi hclean
    rw [hdocs] at hblocks hlast
    refine ⟨ys, s', hd, ?_, ?_⟩
    · rw [← length_chunks, ← length_blocksOf (freshColumns cts g.blockSize), ← hblocks, List.length_map]
    · intro b y hy
      have hb : (blocksOf (freshColumns cts g.blockSize) (chunks g.blockSize.toNat docs))[b]? = some y.1 := by
        rw [← hblocks, List.getElem?_map, hy]
        rfl
      obtain ⟨c, hc, hcols, hrows⟩ := getElem?_blocksOf hb
      have hclen : c.length = min g.blockSize.toNat (docs.length - b * g.blockSize.toNat) := by
        rw [getElem?_chunks hc, length_take_drop]
      rw [← hclen]
      refine ⟨?_, hrows, fun r hr => ?_⟩
      · rw [hcols]
        exact List.length_map _
      · obtain ⟨cursor, hcur, hload⟩ := hlast b y c hy hc
        rw [hk] at hload
        exact lastCall_of_loadedLast hload hcur hr

end Iteration

/-! ## One column -/

theorem iteration_oneColumn (type : String) (ct : ColumnType) (h : @columnType PyImpl.ascii "d" type = some ct)
    (docs counts : List Bson) (limit blockSize : Int) :
    @Iteration PyImpl.ascii (pipelineServer docs counts) (.blockAggregate (oneColumn type limit) blockSize) [ct] docs
      connectedState := by
  let _ := PyImpl.ascii
  exact ⟨⟨fun _ => rfl, rfl⟩, rfl, ⟨0, rfl⟩, _, (MongocCursor.ofList docs false).reply, rfl, ready_oneColumn type ct h _,
    rfl, yields_ofList docs false⟩

/-- The string of one stray byte keeps the generator from yielding. -/
theorem not_forall_partitions :
    ¬ ∀ env g cts docs s, @Iteration PyImpl.ascii env g cts docs s → g.blockSize < 2 ^ 31 →
      @Partitions PyImpl.ascii CImpl.x86 env g cts.length docs.length s := by
  intro h
  let _ := PyImpl.ascii
  let _ := CImpl.x86
  have hi := iteration_oneColumn "length" ⟨[0x64], .length, 0⟩ rfl [strayDocument] [] 0 1
  obtain ⟨ys, s', hd, -⟩ := h _ _ _ _ _ hi (by decide)
  have hmem : [strayDocument] ∈ blockDocs 1 [strayDocument] := List.mem_singleton_self [strayDocument]
  obtain ⟨h31, hclean⟩ := loadable_of_drains hi hd [strayDocument] hmem
  have hload : ∃ r, monaryLoadQuery lengthColumns (.ofList [strayDocument] false) = .ok r :=
    (monaryLoadQuery_ok_iff lengthColumns_holds).mpr ⟨h31, hclean⟩
  have hfault : monaryLoadQuery lengthColumns (.ofList [strayDocument] false) = .error .diverges := by rfl
  rw [hfault] at hload
  obtain ⟨r, hr⟩ := hload
  cases hr

/-- Two documents in blocks of one. -/
theorem partitions_int8 :
    @Partitions PyImpl.ascii CImpl.x86 (pipelineServer [emptyDocument, emptyDocument] [])
      (.blockAggregate (oneColumn "int8" 0) 1) 1 2 connectedState := by
  let _ := PyImpl.ascii
  let _ := CImpl.x86
  have hi := iteration_oneColumn "int8" ⟨[0x64], .int8, 0⟩ rfl [emptyDocument, emptyDocument] [] 0 1
  refine (partitions_iff hi (by decide)).mpr ?_
  intro i bson _ c hc t it ht _
  obtain rfl := List.mem_singleton.mp hc
  obtain rfl : MonaryType.int8 = t := Option.some.inj ht
  exact ⟨nofun, nofun, nofun, nofun⟩

end Monary
