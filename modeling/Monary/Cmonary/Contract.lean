import Monary.Cmonary.Rows

/-!
# What a load promises

* `Remaining` : the documents that are left at a cursor, up to a number of them; `remaining_take`;
* `LoadContract` : a load stores the documents that are left in as many rows from the first on, pulls no further
  one, and leaves the other rows as they were;
* `loadContract_iff_clean` : it does exactly when every document it stores is clean in its row.
-/

namespace Monary
open ByteSeq CInt

/-- The documents are those that are left at the cursor, or the first `n` of them. -/
structure Remaining (cursor : MongocCursor) (n : Nat) (docs : List Bson) : Prop where
  le : docs.length ≤ n
  doc : ∀ i bson, docs[i]? = some bson → cursor.failed = false ∧ cursor.reply (cursor.pos + i) = .doc bson
  last : docs.length < n → cursor.failed = true ∨ ∀ bson, cursor.reply (cursor.pos + docs.length) ≠ .doc bson

theorem mongocCursorNext_doc {cursor cursor' : MongocCursor} {bson : Bson}
    (h : mongocCursorNext cursor = (some bson, cursor')) : cursor.reply cursor.pos = .doc bson := by
  unfold mongocCursorNext at h
  split at h
  · cases h
  · split at h
    · next hr =>
      cases h
      exact hr
    · cases h
    · cases h

theorem mongocCursorNext_none {cursor cursor' : MongocCursor} (h : mongocCursorNext cursor = (none, cursor')) :
    (cursor.failed = true ∨ ∀ bson, cursor.reply cursor.pos ≠ .doc bson) ∧ cursor'.pos = cursor.pos := by
  unfold mongocCursorNext at h
  split at h
  · next hf =>
    cases h
    exact ⟨Or.inl hf, rfl⟩
  · split at h
    · cases h
    · next hr =>
      cases h
      exact ⟨Or.inr (by simp [hr]), rfl⟩
    · next hr =>
      cases h
      exact ⟨Or.inr (by simp [hr]), rfl⟩

theorem remaining_take (cursor : MongocCursor) (n : Nat) : Remaining cursor n (cursor.take n) := by
  induction n generalizing cursor with
  | zero => exact ⟨Nat.zero_le _, by simp [MongocCursor.take], by simp [MongocCursor.take]⟩
  | succ n ih =>
    rcases hnext : mongocCursorNext cursor with ⟨_ | bson, cursor'⟩
    · have htake : cursor.take (n + 1) = [] := by rw [MongocCursor.take, hnext]
      rw [htake]
      exact ⟨Nat.zero_le _, by simp, fun _ => (mongocCursorNext_none hnext).1⟩
    · have htake : cursor.take (n + 1) = bson :: cursor'.take n := by rw [MongocCursor.take, hnext]
      obtain ⟨hf, hc⟩ := mongocCursorNext_pos hnext
      have hdoc := mongocCursorNext_doc hnext
      obtain ⟨hle, hdocs, hlast⟩ := ih cursor'
      rw [htake]
      have hshift (i : Nat) : cursor'.pos + i = cursor.pos + (i + 1) := by
        rw [hc]
        show cursor.pos + 1 + i = _
        omega
      have hreply : cursor'.reply = cursor.reply := by rw [hc]
      have hfail : cursor'.failed = cursor.failed := by rw [hc]
      refine ⟨Nat.succ_le_succ hle, ?_, ?_⟩
      · intro i b hb
        rcases i with _ | i
        · cases hb
          exact ⟨hf, hdoc⟩
        · obtain ⟨-, h⟩ := hdocs i b hb
          rw [hreply, hshift] at h
          exact ⟨hf, h⟩
      · intro hlt
        rw [List.length_cons] at hlt ⊢
        have h := hlast (by omega)
        rwa [hreply, hfail, hshift] at h

theorem pos_after (cursor : MongocCursor) (n : Nat) :
    (cursor.after n).pos = cursor.pos + (cursor.take n).length := by
  induction n generalizing cursor with
  | zero => rfl
  | succ n ih =>
    rcases hnext : mongocCursorNext cursor with ⟨_ | bson, cursor'⟩
    · rw [MongocCursor.take, MongocCursor.after, hnext]
      exact (mongocCursorNext_none hnext).2
    · have hc := (mongocCursorNext_pos hnext).2
      rw [MongocCursor.take, MongocCursor.after, hnext]
      show (cursor'.after n).pos = cursor.pos + (bson :: cursor'.take n).length
      rw [ih, List.length_cons, hc]
      show cursor.pos + 1 + _ = _
      omega

section Contract
variable [CImpl] {c : ColumnItem} {t : MonaryType} {n row : Nat}

/-- A load of a row writes no cell of a later row. -/
theorem cell_put_of_lt {bson : Bson} (hc : c.Holds t n) (hrow : row < n) {i : Nat} (hi : row < i) :
    (c.put row (cellPayload c bson)).cell i = c.cell i := by
  rcases hp : cellPayload c bson with _ | src
  · rfl
  · obtain ⟨e, -, hpay⟩ := cellPayload_eq_some hc hp
    have hle := length_payload_le hpay
    have hrowle : place t c.typeArg row src.length + src.length ≤ (row + 1) * t.itemSize c.typeArg :=
      place_add_le (Nat.lt_succ_self row) hle
    have hn : place t c.typeArg row src.length + src.length ≤ n * t.itemSize c.typeArg := place_add_le hrow hle
    have hplace : c.place row src.length = place t c.typeArg row src.length := by
      rw [ColumnItem.place, hc.type_eq]
    have hcell : (row + 1) * t.itemSize c.typeArg ≤ i * t.itemSize c.typeArg := Nat.mul_le_mul_right _ hi
    apply cell_put_of_disjoint hc
    · rwa [hplace]
    · rw [hplace]
      exact Or.inr (hrowle.trans hcell)

theorem cell_putAll_of_le {docs : List Bson} (hc : c.Holds t n) (hrow : row + docs.length ≤ n) {i : Nat}
    (hi : row + docs.length ≤ i) : (c.putAll row docs).cell i = c.cell i := by
  induction docs generalizing c row with
  | nil => rfl
  | cons bson docs ih =>
    rw [List.length_cons] at hrow hi
    rw [ColumnItem.putAll, ih (holds_put hc (by omega)) (by omega) (by omega),
      cell_put_of_lt hc (by omega) (by omega)]

/-- The documents that are left go to the rows from the first on, one call of `monary_bson_to_arrays` for each;
the cursor is behind the last of them, and the rows behind are as they were. -/
def LoadContract (cd : ColumnData) (mcursor : MongocCursor) : Prop :=
  ∃ docs s, Remaining mcursor cd.numRows docs ∧ monaryLoadQuery cd mcursor = .ok s ∧ s.row = docs.length ∧
    s.calls = (List.range docs.length).map (fun i => (i, mcursor.pos + i)) ∧
    s.mcursor.pos = mcursor.pos + docs.length ∧
    List.Forall₂ (fun c c' => ∀ i, docs.length ≤ i → c'.masked i = c.masked i ∧ c'.cell i = c.cell i)
      cd.columns s.coldata.columns

theorem loadContract_iff_clean {cd : ColumnData} {rows : Nat} {mcursor : MongocCursor} (hcd : cd.Holds rows)
    (h31 : cd.numRows < 2 ^ 31) :
    LoadContract cd mcursor ↔ cd.CleanAll 0 (mcursor.take cd.numRows) := by
  constructor
  · rintro ⟨-, s, -, h, -⟩
    exact ((monaryLoadQuery_ok_iff hcd).mp ⟨s, h⟩).2
  · intro hclean
    have hrem := remaining_take mcursor cd.numRows
    have hlen : (mcursor.take cd.numRows).length ≤ rows := hrem.le.trans hcd.le
    refine ⟨_, _, hrem, monaryLoadQuery_eq hcd (by have := hrem.le; omega) hclean, ?_, ?_, pos_after _ _, ?_⟩
    · exact Nat.zero_add _
    · show [] ++ _ = _
      rw [List.nil_append]
      simp only [Nat.zero_add]
    · show List.Forall₂ _ cd.columns (cd.putAll 0 (mcursor.take cd.numRows)).columns
      rw [columns_putAll, List.forall₂_map_right_iff, List.forall₂_same]
      intro c hc i hi
      obtain ⟨t, ht⟩ := hcd.columns c hc
      exact ⟨masked_putAll_of_not_mem ht (by omega) (Or.inr (by omega)), cell_putAll_of_le ht (by omega) (by omega)⟩

end Contract

end Monary
