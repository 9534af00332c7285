import Monary.Cmonary.Mask

/-!
# The load loop

* `MongocCursor` : a cursor of the driver as the sequence of what it answers, its place in it and whether
  it failed; `mongocCursorNext`, `mongocCursorError`;
* `monaryLoadQuery` : `monary_load_query`, `loadRows` being its `while`. The calls of
  `monary_bson_to_arrays` are recorded with the row and the number of the document in the sequence;
* `loadRows_eq`, `monaryLoadQuery_ok_iff` : the loop puts the documents that are left (`MongocCursor.take`) into
  the rows from the first on and takes no further one (`MongocCursor.after`); it returns exactly when
  every document is clean in its row and the `int` that counts the rows does not overflow.

What the loop prints and the sum `num_masked`, which is only printed, are left out.
-/

namespace Monary
open ByteSeq CInt

/-! ## The cursor of the driver -/

/-- What the server has for a cursor at one place. -/
inductive Reply where
  | doc (bson : Bson)
  | eof
  | error

/-- `mongoc_cursor_t`. The first answer that is no document ends the cursor. -/
structure MongocCursor where
  reply : Nat → Reply
  pos : Nat
  failed : Bool

def mongocCursorError (cursor : MongocCursor) : Bool := cursor.failed

def mongocCursorNext (cursor : MongocCursor) : Option Bson × MongocCursor :=
  if cursor.failed then (none, cursor)
  else
    match cursor.reply cursor.pos with
    | .doc bson => (some bson, { cursor with pos := cursor.pos + 1 })
    | .eof => (none, cursor)
    | .error => (none, { cursor with failed := true })

namespace MongocCursor

/-- The documents among the next `n` answers. -/
def take (cursor : MongocCursor) : Nat → List Bson
  | 0 => []
  | n + 1 =>
    match mongocCursorNext cursor with
    | (some bson, cursor) => bson :: take cursor n
    | (none, _) => []

/-- The cursor after `mongoc_cursor_next` was called for them, and once more if they are fewer than `n`. -/
def after (cursor : MongocCursor) : Nat → MongocCursor
  | 0 => cursor
  | n + 1 =>
    match mongocCursorNext cursor with
    | (some _, cursor) => after cursor n
    | (none, cursor) => cursor

end MongocCursor

theorem mongocCursorNext_pos {cursor cursor' : MongocCursor} {bson : Bson}
    (h : mongocCursorNext cursor = (some bson, cursor')) :
    cursor.failed = false ∧ cursor' = { cursor with pos := cursor.pos + 1 } := by
  unfold mongocCursorNext at h
  split at h
  · cases h
  · next hf =>
    refine ⟨by simpa using hf, ?_⟩
    split at h <;> cases h
    rfl

/-- The answers are the documents, and then the end or an error. -/
structure Yields (reply : Nat → Reply) (docs : List Bson) (fails : Bool) : Prop where
  doc : ∀ i bson, docs[i]? = some bson → reply i = .doc bson
  last : reply docs.length = if fails then .error else .eof

/-- A cursor that yields the documents and then ends, or fails. -/
def MongocCursor.ofList (docs : List Bson) (fails : Bool) : MongocCursor where
  reply i :=
    match docs[i]? with
    | some bson => .doc bson
    | none => if fails then .error else .eof
  pos := 0
  failed := false

theorem yields_ofList (docs : List Bson) (fails : Bool) :
    Yields (MongocCursor.ofList docs fails).reply docs fails := by
  refine ⟨?_, ?_⟩
  · intro i bson h
    unfold MongocCursor.ofList
    dsimp only
    rw [h]
  · unfold MongocCursor.ofList
    dsimp only
    rw [List.getElem?_eq_none (le_refl _)]

section Yields
variable {cursor : MongocCursor} {docs : List Bson} {fails : Bool}

theorem mongocCursorNext_of_lt (hy : Yields cursor.reply docs fails) (hf : cursor.failed = false)
    (hp : cursor.pos < docs.length) :
    mongocCursorNext cursor = (some docs[cursor.pos], { cursor with pos := cursor.pos + 1 }) := by
  unfold mongocCursorNext
  rw [hf, if_neg Bool.false_ne_true, hy.doc cursor.pos _ (List.getElem?_eq_getElem hp)]

theorem mongocCursorNext_of_eq (hy : Yields cursor.reply docs fails) (hf : cursor.failed = false)
    (hp : cursor.pos = docs.length) :
    mongocCursorNext cursor = (none, { cursor with failed := fails }) := by
  obtain ⟨reply, pos, failed⟩ := cursor
  dsimp only at hf hp
  subst hf hp
  unfold mongocCursorNext
  rw [if_neg Bool.false_ne_true, hy.last]
  cases fails <;> rfl

/-- The documents that are left. -/
theorem take_eq (hy : Yields cursor.reply docs fails) (hf : cursor.failed = false)
    (hp : cursor.pos ≤ docs.length) (n : Nat) : cursor.take n = (docs.drop cursor.pos).take n := by
  induction n generalizing cursor with
  | zero => rw [MongocCursor.take, List.take_zero]
  | succ n ih =>
    rw [MongocCursor.take]
    rcases Nat.lt_or_eq_of_le hp with hlt | heq
    · rw [mongocCursorNext_of_lt hy hf hlt]
      dsimp only
      have ih' := @ih { cursor with pos := cursor.pos + 1 } hy hf hlt
      rw [ih', List.drop_eq_getElem_cons hlt, List.take_succ_cons]
    · rw [mongocCursorNext_of_eq hy hf heq, heq, List.drop_length, List.take_nil]

theorem take_ofList (docs : List Bson) (fails : Bool) :
    (MongocCursor.ofList docs fails).take docs.length = docs := by
  rw [take_eq (yields_ofList docs fails) rfl (Nat.zero_le _)]
  show (docs.drop 0).take docs.length = docs
  rw [List.drop_zero, List.take_length]

/-- The cursor moves to the document behind the last that was taken, and fails only when it was asked
for one more than there are. -/
theorem after_eq (hy : Yields cursor.reply docs fails) (hf : cursor.failed = false)
    (hp : cursor.pos ≤ docs.length) (n : Nat) :
    cursor.after n = { cursor with
      pos := min (cursor.pos + n) docs.length
      failed := fails && decide (docs.length < cursor.pos + n) } := by
  induction n generalizing cursor with
  | zero =>
    rw [MongocCursor.after, Nat.add_zero, Nat.min_eq_left hp, decide_eq_false (by omega), Bool.and_false,
      ← hf]
  | succ n ih =>
    rw [MongocCursor.after]
    rcases Nat.lt_or_eq_of_le hp with hlt | heq
    · rw [mongocCursorNext_of_lt hy hf hlt]
      dsimp only
      have ih' := @ih { cursor with pos := cursor.pos + 1 } hy hf hlt
      rw [ih',
        show cursor.pos + (n + 1) = cursor.pos + 1 + n by omega]
    · rw [mongocCursorNext_of_eq hy hf heq, decide_eq_true (by omega), Bool.and_true,
        Nat.min_eq_right (by omega), ← heq]

end Yields

/-! ## `monary_load_query` -/

/-- `monary_cursor` and the variables of `monary_load_query`; `calls` are the calls of
`monary_bson_to_arrays` so far. -/
structure LoadState where
  coldata : ColumnData
  mcursor : MongocCursor
  row : Nat
  calls : List (Nat × Nat)

/-- The `while` of `monary_load_query`; the first argument is `coldata->num_rows - row`. -/
def loadRows [CImpl] : Nat → LoadState → C LoadState
  | 0, s => return s
  | n + 1, s =>
    if mongocCursorError s.mcursor then return s
    else
      match mongocCursorNext s.mcursor with
      | (none, mcursor) => return { s with mcursor := mcursor }
      | (some bson, mcursor) => do
        let (coldata, _) ← monaryBsonToArrays (some s.coldata) s.row (some bson)
        -- `++row`
        if s.row + 1 = 2 ^ 31 then .error .undefined
        loadRows n ⟨coldata.getD s.coldata, mcursor, s.row + 1, s.calls ++ [(s.row, s.mcursor.pos)]⟩

/-- `monary_load_query`; the row of the result is what it returns. -/
def monaryLoadQuery [CImpl] (coldata : ColumnData) (mcursor : MongocCursor) : C LoadState :=
  loadRows coldata.numRows ⟨coldata, mcursor, 0, []⟩

/-! ## What the loop does -/

/-- The documents are put into the rows from `row` on. -/
def ColumnData.putAll [CImpl] : ColumnData → Nat → List Bson → ColumnData
  | cd, _, [] => cd
  | cd, row, bson :: docs => (cd.put row bson).putAll (row + 1) docs

/-- Every document is clean in its row. -/
def ColumnData.CleanAll (cd : ColumnData) (row : Nat) (docs : List Bson) : Prop :=
  ∀ i bson, docs[i]? = some bson → cd.Clean (row + i) bson

theorem cleanAll_nil (cd : ColumnData) (row : Nat) : cd.CleanAll row [] := by
  intro i bson h
  simp at h

/-- The first of the documents goes to the row, and the others to the rows behind it. -/
theorem forall_rows_cons {P : Nat → Bson → Prop} {row : Nat} {bson : Bson} {docs : List Bson} :
    (∀ i b, (bson :: docs)[i]? = some b → P (row + i) b) ↔
      P row bson ∧ ∀ i b, docs[i]? = some b → P (row + 1 + i) b := by
  constructor
  · intro h
    refine ⟨h 0 bson rfl, ?_⟩
    intro i b hb
    rw [show row + 1 + i = row + (i + 1) by omega]
    exact h (i + 1) b hb
  · rintro ⟨h0, h⟩ i b hb
    rcases i with _ | i
    · cases hb
      exact h0
    · rw [show row + (i + 1) = row + 1 + i by omega]
      exact h i b hb

theorem cleanAll_cons {cd : ColumnData} {row : Nat} {bson : Bson} {docs : List Bson} :
    cd.CleanAll row (bson :: docs) ↔ cd.Clean row bson ∧ cd.CleanAll (row + 1) docs := forall_rows_cons

section Loop
variable [CImpl] {rows : Nat}

/-- Loads change no column but in its arrays. -/
theorem clean_put {cd : ColumnData} {r row : Nat} {b bson : Bson} :
    (cd.put r b).Clean row bson ↔ cd.Clean row bson := by
  unfold ColumnData.put ColumnData.Clean
  rw [List.forall_mem_map]
  rfl

theorem cleanAll_put {cd : ColumnData} {r row : Nat} {b : Bson} {docs : List Bson} :
    (cd.put r b).CleanAll row docs ↔ cd.CleanAll row docs :=
  forall₃_congr fun _ _ _ => clean_put

/-- What `loadRows n` makes of a state. -/
def LoadState.after (s : LoadState) (n : Nat) : LoadState where
  coldata := s.coldata.putAll s.row (s.mcursor.take n)
  mcursor := s.mcursor.after n
  row := s.row + (s.mcursor.take n).length
  calls := s.calls ++ (List.range (s.mcursor.take n).length).map fun i => (s.row + i, s.mcursor.pos + i)

/-- One turn of the loop that loads a document. -/
theorem loadState_after_succ {s : LoadState} {n : Nat} {bson : Bson} {mcursor : MongocCursor}
    (h : mongocCursorNext s.mcursor = (some bson, mcursor)) :
    s.after (n + 1) =
      LoadState.after ⟨s.coldata.put s.row bson, mcursor, s.row + 1, s.calls ++ [(s.row, s.mcursor.pos)]⟩
        n := by
  have htake : s.mcursor.take (n + 1) = bson :: mcursor.take n := by rw [MongocCursor.take, h]
  have hafter : s.mcursor.after (n + 1) = mcursor.after n := by rw [MongocCursor.after, h]
  unfold LoadState.after
  dsimp only
  rw [htake, hafter, List.length_cons, List.range_succ_eq_map, List.map_cons, List.map_map,
    List.append_assoc, List.singleton_append, (mongocCursorNext_pos h).2]
  have hcalls : ((fun i => (s.row + i, s.mcursor.pos + i)) ∘ Nat.succ) =
      fun i => (s.row + 1 + i, s.mcursor.pos + 1 + i) := by
    funext i
    show (s.row + (i + 1), s.mcursor.pos + (i + 1)) = _
    rw [Nat.add_right_comm, Nat.add_right_comm s.mcursor.pos, Nat.add_assoc, Nat.add_assoc]
  rw [hcalls, Nat.add_right_comm, Nat.add_assoc]
  rfl

/-- The loop over clean documents. -/
theorem loadRows_eq {n : Nat} {s : LoadState} (hcd : s.coldata.Holds rows)
    (hn : s.row + n = s.coldata.numRows) (hrow : s.row + (s.mcursor.take n).length < 2 ^ 31)
    (hclean : s.coldata.CleanAll s.row (s.mcursor.take n)) : loadRows n s = .ok (s.after n) := by
  induction n generalizing s with
  | zero =>
    show Except.ok s = _
    unfold LoadState.after MongocCursor.take MongocCursor.after ColumnData.putAll
    simp
  | succ n ih =>
    rw [loadRows]
    rcases hnext : mongocCursorNext s.mcursor with ⟨_ | bson, mcursor⟩
    · have htake : s.mcursor.take (n + 1) = [] := by rw [MongocCursor.take, hnext]
      have hafter : s.mcursor.after (n + 1) = mcursor := by rw [MongocCursor.after, hnext]
      have hres : s.after (n + 1) = { s with mcursor := mcursor } := by
        unfold LoadState.after
        rw [htake, hafter]
        simp [ColumnData.putAll]
      rw [hres]
      split
      · next hf =>
        unfold mongocCursorNext at hnext
        rw [if_pos (by simpa [mongocCursorError] using hf)] at hnext
        cases hnext
        rfl
      · rfl
    · have htake : s.mcursor.take (n + 1) = bson :: mcursor.take n := by rw [MongocCursor.take, hnext]
      rw [htake, List.length_cons] at hrow
      rw [htake, cleanAll_cons] at hclean
      obtain ⟨hf, -⟩ := mongocCursorNext_pos hnext
      rw [mongocCursorError, hf, if_neg Bool.false_ne_true]
      dsimp only
      rw [monaryBsonToArrays_eq hcd (by omega) (by omega) hclean.1]
      show (if s.row + 1 = 2 ^ 31 then _ else _) = _
      rw [if_neg (by omega), loadState_after_succ hnext]
      refine ih (hcd.put (by omega)) ?_ ?_ ?_
      · show s.row + 1 + n = s.coldata.numRows
        omega
      · show s.row + 1 + (mcursor.take n).length < 2 ^ 31
        omega
      · exact cleanAll_put.mpr hclean.2

theorem clean_of_loadRows {n : Nat} {s s' : LoadState} (hcd : s.coldata.Holds rows)
    (hn : s.row + n = s.coldata.numRows) (hrow : s.row < 2 ^ 31) (h : loadRows n s = .ok s') :
    s.row + (s.mcursor.take n).length < 2 ^ 31 ∧ s.coldata.CleanAll s.row (s.mcursor.take n) := by
  induction n generalizing s with
  | zero => exact ⟨hrow, cleanAll_nil _ _⟩
  | succ n ih =>
    rw [loadRows] at h
    rcases hnext : mongocCursorNext s.mcursor with ⟨_ | bson, mcursor⟩
    · have htake : s.mcursor.take (n + 1) = [] := by rw [MongocCursor.take, hnext]
      rw [htake]
      exact ⟨hrow, cleanAll_nil _ _⟩
    · have htake : s.mcursor.take (n + 1) = bson :: mcursor.take n := by rw [MongocCursor.take, hnext]
      obtain ⟨hf, -⟩ := mongocCursorNext_pos hnext
      rw [mongocCursorError, hf, if_neg Bool.false_ne_true, hnext] at h
      obtain ⟨r, hr, h⟩ := bind_eq_ok h
      have hclean := (monaryBsonToArrays_ok_iff hcd (by omega) hrow).mp ⟨r, hr⟩
      rw [monaryBsonToArrays_eq hcd (by omega) hrow hclean] at hr
      cases hr
      by_cases h31 : s.row + 1 = 2 ^ 31
      · dsimp only at h
        rw [if_pos h31] at h
        cases h
      · dsimp only at h
        rw [if_neg h31] at h
        obtain ⟨h1, h2⟩ := ih (s := ⟨s.coldata.put s.row bson, mcursor, s.row + 1,
          s.calls ++ [(s.row, s.mcursor.pos)]⟩) (hcd.put (by omega))
          (show s.row + 1 + n = s.coldata.numRows by omega) (show s.row + 1 < 2 ^ 31 by omega) h
        dsimp only at h1 h2
        rw [htake, List.length_cons, cleanAll_cons]
        exact ⟨by omega, hclean, cleanAll_put.mp h2⟩

/-- `monary_load_query` over clean documents. -/
theorem monaryLoadQuery_eq {cd : ColumnData} {mcursor : MongocCursor} (hcd : cd.Holds rows)
    (hlen : (mcursor.take cd.numRows).length < 2 ^ 31)
    (hclean : cd.CleanAll 0 (mcursor.take cd.numRows)) :
    monaryLoadQuery cd mcursor = .ok (LoadState.after ⟨cd, mcursor, 0, []⟩ cd.numRows) :=
  loadRows_eq (s := ⟨cd, mcursor, 0, []⟩) hcd (Nat.zero_add _) (by rwa [Nat.zero_add]) hclean

/-- `monary_load_query` returns exactly when every document it loads is clean in its row and the row
counter does not overflow. -/
theorem monaryLoadQuery_ok_iff {cd : ColumnData} {mcursor : MongocCursor} (hcd : cd.Holds rows) :
    (∃ s, monaryLoadQuery cd mcursor = .ok s) ↔
      (mcursor.take cd.numRows).length < 2 ^ 31 ∧ cd.CleanAll 0 (mcursor.take cd.numRows) := by
  constructor
  · rintro ⟨s, h⟩
    have h := clean_of_loadRows (s := ⟨cd, mcursor, 0, []⟩) hcd (Nat.zero_add _) (Nat.two_pow_pos 31) h
    rwa [Nat.zero_add] at h
  · rintro ⟨h1, h2⟩
    exact ⟨_, monaryLoadQuery_eq hcd h1 h2⟩

theorem monaryLoadQuery_eq_ok {cd : ColumnData} {mcursor : MongocCursor} {s : LoadState} (hcd : cd.Holds rows)
    (h : monaryLoadQuery cd mcursor = .ok s) :
    s = LoadState.after ⟨cd, mcursor, 0, []⟩ cd.numRows := by
  obtain ⟨h1, h2⟩ := (monaryLoadQuery_ok_iff hcd).mp ⟨s, h⟩
  rw [monaryLoadQuery_eq hcd h1 h2] at h
  exact (Except.ok.inj h).symm

end Loop

end Monary
