import Monary.Cmonary.Chars
import Monary.Cmonary.Contract
import Monary.Python.ColumnSpecs
import Monary.Python.Runs

/-!
# The loads of the methods

* `RowsFound` : the rows that arrays show unmasked were loaded from documents that a find returned;
  `query_rowsFound` : the arrays of `query` show no others;
* `load_contract` : this and what a load promises;
* `RowsSurvive`, `rowsSurvive_iff` : column data made for a number of rows is filled with as many exactly
  when the number is an `int`.
-/

namespace Monary
open ByteSeq CInt Effect

theorem limited_nonneg {m limit : Int} (hm : 0 ≤ m) : 0 ≤ limited m limit := by
  unfold limited
  split <;> omega

theorem masked_fresh (ct : ColumnType) (n i : Nat) : (ct.fresh n).masked i = true := by
  show ((List.replicate n (1 : UInt8)).getD i 1 != 0) = true
  rw [List.getD_eq_getElem?_getD, List.getElem?_replicate]
  split <;> rfl

section Query
variable [PyImpl] [CImpl]

/-- Every row that the arrays show unmasked was loaded from the document of its number of a find. -/
def RowsFound (env : Env) (arrays : List MaskedArray) (log : List Event) : Prop :=
  ∃ reply cursor calls failed, (∃ skip limit doc fields, env.find skip limit doc fields = some reply) ∧
    Event.loadQuery cursor (some ⟨calls, failed⟩) ∈ log ∧
    ∀ a ∈ arrays, ∀ i, i < a.length → a.column.masked i = false → (i, i) ∈ calls ∧ ∃ bson, reply i = .doc bson

/-- The load of fresh columns unmasks only rows that it loads. -/
theorem opens_unmasked {env : Env} {p : Plan} {count : Int} (hcount : 0 ≤ count) {connection : Option Nat}
    {fresh : Nat} {h : Session} {r : LoadState} (ho : Opens env p count connection fresh h r) :
    ∀ a ∈ (h.loaded r).arrays count, ∀ i, a.column.masked i = false →
      (i, i) ∈ r.calls ∧ ∃ bson, h.mcursor.reply i = .doc bson := by
  have hcd := holds_accepted hcount ho.accepts
  obtain ⟨-, cts, hcts, hcols⟩ := (accepts_iff hcount).mp ho.accepts
  obtain ⟨reply, -, hcursor⟩ := ho.answer
  have hr := monaryLoadQuery_eq_ok hcd ho.load
  have hrem := remaining_take h.mcursor h.columns.numRows
  have hpos : h.mcursor.pos = 0 := by rw [hcursor]
  intro a ha i hi
  obtain ⟨c', hc', rfl⟩ := List.mem_map.mp ha
  have hc' : c' ∈ r.coldata.columns := hc'
  rw [hr] at hc'
  have hc' : c' ∈ (h.columns.putAll 0 (h.mcursor.take h.columns.numRows)).columns := hc'
  rw [columns_putAll] at hc'
  obtain ⟨c, hc, rfl⟩ := List.mem_map.mp hc'
  obtain ⟨t, ht⟩ := hcd.columns c hc
  have hlt : i < (h.mcursor.take h.columns.numRows).length := by
    by_contra hge
    have hle := hrem.le.trans hcd.le
    have hmask : (c.putAll 0 (h.mcursor.take h.columns.numRows)).masked i = c.masked i :=
      masked_putAll_of_not_mem ht (by omega) (Or.inr (by omega))
    rw [hcols] at hc
    obtain ⟨ct, -, rfl⟩ := List.mem_map.mp hc
    rw [masked_fresh] at hmask
    rw [hmask] at hi
    cases hi
  refine ⟨?_, ?_⟩
  · have hcalls : r.calls = [] ++ (List.range (h.mcursor.take h.columns.numRows).length).map
        (fun j => (0 + j, h.mcursor.pos + j)) := by rw [hr]; rfl
    rw [hcalls, hpos, List.nil_append]
    refine List.mem_map.mpr ⟨i, List.mem_range.mpr hlt, ?_⟩
    rw [Nat.zero_add]
  · obtain ⟨-, hdoc⟩ := hrem.doc i _ (List.getElem?_eq_getElem hlt)
    rw [hpos, Nat.zero_add] at hdoc
    exact ⟨_, hdoc⟩

/-- The arrays of `query` show unmasked only what its find returned. -/
theorem query_rowsFound (env inner : Env) (a : QueryArgs) (doCount : Bool) {s s' : State}
    (hs : s.frame = Frame.start) {arrays : List MaskedArray}
    (h : callMethod (query env inner a doCount) s = (.returned arrays, s')) : RowsFound env arrays s'.log := by
  have hrun := query_run env inner a doCount hs
  rw [h] at hrun
  generalize hres : (Outcome.returned arrays, s') = res at hrun
  rcases hrun with _ | _ | ⟨fullQuery, m, t, n, o, s₁, -, hm, -, hrows⟩
  · cases hres
  · cases hres
  · cases hres
    rcases hrows with _ | _ | ⟨sess, r, hopen⟩
    obtain ⟨reply, hans, hcursor⟩ := hopen.answer
    refine ⟨reply, sess.cursor, r.calls, mongocCursorError r.mcursor, ?_, ?_, ?_⟩
    · have hans : findReply env a.offset a.limit fullQuery a.selectFields (some sess.columns) = .ok (some reply) :=
        hans
      obtain ⟨doc, -, hans⟩ := bind_eq_ok hans
      obtain ⟨d, -, hd⟩ := Option.bind_eq_some_iff.mp (Except.ok.inj hans)
      exact ⟨_, _, _, _, hd⟩
    · simp [Session.loading]
    · intro arr harr i _ hi
      have hfound := opens_unmasked (limited_nonneg hm) hopen arr harr i hi
      rw [hcursor] at hfound
      exact hfound

/-- A load keeps its contract exactly when every document it stores is clean in its row; and the arrays of `query`
show unmasked only what its find returned. -/
theorem load_contract {cd : ColumnData} {rows : Nat} (mcursor : MongocCursor) (hcd : cd.Holds rows)
    (h31 : cd.numRows < 2 ^ 31) :
    (LoadContract cd mcursor ↔ cd.CleanAll 0 (mcursor.take cd.numRows)) ∧
      ∀ (env inner : Env) (a : QueryArgs) (doCount : Bool) (s s' : State) (arrays : List MaskedArray),
        s.frame = Frame.start → callMethod (query env inner a doCount) s = (.returned arrays, s') →
        RowsFound env arrays s'.log :=
  ⟨loadContract_iff_clean hcd h31, fun env inner a doCount _ _ _ hs h => query_rowsFound env inner a doCount hs h⟩

end Query

/-- A `length` column on `d` of one row. -/
def lengthColumns : ColumnData := ⟨1, [freshColumn [0x64] .length 0 1]⟩

theorem lengthColumns_holds : lengthColumns.Holds 1 := by
  refine ⟨le_refl _, ?_⟩
  intro c hc
  obtain rfl := List.mem_singleton.mp hc
  exact ⟨.length, freshColumn_holds _ 1 (by decide) nofun⟩

/-- The string of one stray byte keeps the load from ending. -/
theorem not_forall_loadContract :
    ¬ ∀ (cd : ColumnData) (rows : Nat) (mcursor : MongocCursor), cd.Holds rows → cd.numRows < 2 ^ 31 →
      @LoadContract CImpl.x86 cd mcursor := by
  intro h
  let _ := CImpl.x86
  obtain ⟨-, s, -, hload, -⟩ := h lengthColumns 1 (.ofList [strayDocument] false) lengthColumns_holds (by decide)
  have hfault : monaryLoadQuery lengthColumns (.ofList [strayDocument] false) = .error .diverges := by rfl
  rw [hfault] at hload
  cases hload

/-- Two columns on `d` of two rows. -/
def lengthAndInt : ColumnData := ⟨2, [freshColumn [0x64] .length 0 2, freshColumn [0x64] .int8 0 2]⟩

theorem lengthAndInt_holds : lengthAndInt.Holds 2 := by
  refine ⟨le_refl _, ?_⟩
  intro c hc
  simp only [lengthAndInt, List.mem_cons, List.not_mem_nil, or_false] at hc
  rcases hc with rfl | rfl
  · exact ⟨.length, freshColumn_holds _ 2 (by decide) nofun⟩
  · exact ⟨.int8, freshColumn_holds _ 2 (by decide) nofun⟩

/-- The document with the stray byte is left to the cursor. -/
theorem load_contract_leftOver :
    @LoadContract CImpl.x86 lengthAndInt (.ofList [accentDocument, trueDocument, strayDocument] false) := by
  let _ := CImpl.x86
  let _ := PyImpl.ascii
  refine (load_contract (.ofList [accentDocument, trueDocument, strayDocument] false) lengthAndInt_holds
    (by decide)).1.mpr ?_
  have haccent : CharsEnd [0xC3, 0xA9, 0, 0] := charsEnd_of_charLoop (n := 3) (k := 0) (l := 1) (by decide)
  intro i bson hb c hc t it ht hit
  simp only [lengthAndInt, List.mem_cons, List.not_mem_nil, or_false] at hc
  rcases hc with rfl | rfl
  · obtain rfl : MonaryType.length = t := Option.some.inj ht
    rcases i with _ | _ | i
    · cases hb
      cases hit
      exact ⟨fun _ => by decide, fun _ _ => haccent, nofun, nofun⟩
    · cases hb
      cases hit
      exact ⟨fun _ => by decide, fun _ h => absurd h (by decide), nofun, nofun⟩
    · cases hb
  · obtain rfl : MonaryType.int8 = t := Option.some.inj ht
    exact ⟨nofun, nofun, nofun, nofun⟩

/-! ## Row counts -/

theorem length_take_of_docs {mcursor : MongocCursor} {n : Nat} (hf : mcursor.failed = false)
    (hdocs : ∀ i < n, ∃ bson, mcursor.reply (mcursor.pos + i) = .doc bson) : (mcursor.take n).length = n := by
  obtain ⟨hle, -, hlast⟩ := remaining_take mcursor n
  by_contra hne
  rcases hlast (by omega) with h | h
  · rw [hf] at h
    cases h
  · obtain ⟨bson, hb⟩ := hdocs (mcursor.take n).length (by omega)
    exact h bson hb

section Counts
variable [PyImpl] [CImpl]

/-- The load fills as many rows, one document each, and returns their number. -/
def RowsSurvive (cd : ColumnData) (mcursor : MongocCursor) (count : Int) : Prop :=
  ∃ s, monaryLoadQuery cd mcursor = .ok s ∧ (s.row : Int) = count ∧
    s.calls = (List.range count.toNat).map fun i => (i, mcursor.pos + i)

/-- Rows that were allocated for a count are all filled exactly when the count is an `int` and the documents
are clean. -/
theorem rowsSurvive_iff {env : Env} {fields types : List String} {count : Int} (hcount : 0 ≤ count)
    {cd : ColumnData} (hacc : Accepts env fields types count cd) {mcursor : MongocCursor}
    (hf : mcursor.failed = false)
    (hdocs : ∀ i < count.toNat, ∃ bson, mcursor.reply (mcursor.pos + i) = .doc bson) :
    RowsSurvive cd mcursor count ↔ count < 2 ^ 31 ∧ cd.CleanAll 0 (mcursor.take count.toNat) := by
  have hcd := holds_accepted hcount hacc
  obtain ⟨-, cts, -, hcols⟩ := (accepts_iff hcount).mp hacc
  have hrows : cd.numRows = toUInt32 count := by rw [hcols]
  have hle : cd.numRows ≤ count.toNat := hcd.le
  have hlen : (mcursor.take cd.numRows).length = cd.numRows :=
    length_take_of_docs hf fun i hi => hdocs i (by omega)
  constructor
  · rintro ⟨s, hs, hrow, -⟩
    obtain ⟨h31, hclean⟩ := (monaryLoadQuery_ok_iff hcd).mp ⟨s, hs⟩
    have hafter := monaryLoadQuery_eq_ok hcd hs
    have hsrow : s.row = 0 + (mcursor.take cd.numRows).length := by
      rw [hafter]
      rfl
    rw [hlen] at hsrow h31
    have hn : cd.numRows = count.toNat := by omega
    rw [hn] at hclean
    exact ⟨by omega, hclean⟩
  · rintro ⟨h31, hclean⟩
    have hn : cd.numRows = count.toNat := by
      rw [hrows]
      unfold toUInt32
      omega
    rw [← hn] at hclean
    refine ⟨_, monaryLoadQuery_eq hcd (by omega) hclean, ?_, ?_⟩
    · show ((0 + (mcursor.take cd.numRows).length : Nat) : Int) = count
      omega
    · show [] ++ _ = _
      rw [List.nil_append, hlen, hn]
      simp only [Nat.zero_add]

end Counts

/-- A cursor over empty documents that has no end. -/
def emptyDocuments : MongocCursor := ⟨fun _ => .doc ⟨[5, 0, 0, 0, 0], by decide⟩, 0, false⟩

/-- An environment in which no step raises. -/
def quietEnv : Env := ⟨fun _ => none, fun _ => .ok [], fun _ => true, true, fun _ => 0, fun _ _ _ _ => none, fun _ => none⟩

/-- The column data of one `int8` column. -/
def int8Columns (count : Int) : ColumnData :=
  ⟨toUInt32 count, [(ColumnType.mk [0x64] .int8 0).fresh count.toNat]⟩

theorem accepts_int8Columns [PyImpl] {count : Int} (hcount : 0 ≤ count) :
    Accepts quietEnv ["d"] ["int8"] count (int8Columns count) :=
  (accepts_iff hcount).mpr ⟨rfl, [⟨[0x64], .int8, 0⟩], ⟨⟨rfl, rfl, rfl⟩, _, _, rfl, rfl, rfl⟩, rfl⟩

/-- With `2^32` rows none is filled. -/
theorem not_forall_rowsSurvive :
    ¬ ∀ (env : Env) (fields types : List String) (count : Int) (cd : ColumnData) (mcursor : MongocCursor), 0 ≤ count →
      count < 2 ^ 63 → @Accepts env PyImpl.ascii fields types count cd → mcursor.failed = false →
      (∀ i < count.toNat, ∃ bson, mcursor.reply (mcursor.pos + i) = .doc bson) →
      @RowsSurvive CImpl.x86 cd mcursor count := by
  intro h
  let _ := CImpl.x86
  obtain ⟨s, hs, hrow, -⟩ := h quietEnv ["d"] ["int8"] (2 ^ 32) _ emptyDocuments (by norm_num) (by norm_num)
    (@accepts_int8Columns PyImpl.ascii (2 ^ 32) (by norm_num)) rfl fun _ _ => ⟨_, rfl⟩
  have hzero : toUInt32 (2 ^ 32) = 0 := by decide
  have hload : monaryLoadQuery (int8Columns (2 ^ 32)) emptyDocuments =
      .ok ⟨int8Columns (2 ^ 32), emptyDocuments, 0, []⟩ := by
    rw [monaryLoadQuery, int8Columns, hzero]
    rfl
  rw [hload] at hs
  cases hs
  exact absurd hrow (by norm_num)

theorem rowsSurvive_int8Columns : @RowsSurvive CImpl.x86 (int8Columns 3) emptyDocuments 3 := by
  refine (@rowsSurvive_iff PyImpl.ascii CImpl.x86 _ _ _ _ (by norm_num) _
    (@accepts_int8Columns PyImpl.ascii 3 (by norm_num)) _ rfl fun _ _ => ⟨_, rfl⟩).mpr ⟨by norm_num, ?_⟩
  intro i bson _ c hc t it ht _
  obtain rfl := List.mem_singleton.mp hc
  obtain rfl : MonaryType.int8 = t := Option.some.inj ht
  exact ⟨nofun, nofun, nofun, nofun⟩

end Monary
