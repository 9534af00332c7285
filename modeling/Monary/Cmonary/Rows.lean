import Monary.Cmonary.Query

/-!
# A run of rows

* `ColumnItem.putAll` : a column after documents were put into its rows one after the other, and
  `columns_putAll` the columns of `ColumnData.putAll`;
* `masked_putAll`, `masked_putAll_of_not_mem` : the masks of the rows of the run, and of the others;
* `view_putAll`, `view_putAll_of_not_mem` : where every value fills its cell (`ColumnItem.FillsAll`), the
  view of a row of the run is what its document has for the column, and the other rows keep theirs.
-/

namespace Monary
open ByteSeq CInt

section Rows
variable [CImpl]

/-- The documents are put into the rows of the column from `row` on. -/
def ColumnItem.putAll : ColumnItem → Nat → List Bson → ColumnItem
  | c, _, [] => c
  | c, row, bson :: docs => (c.put row (cellPayload c bson)).putAll (row + 1) docs

theorem columns_putAll (cd : ColumnData) (row : Nat) (docs : List Bson) :
    cd.putAll row docs = { cd with columns := cd.columns.map (·.putAll row docs) } := by
  induction docs generalizing cd row with
  | nil =>
    unfold ColumnData.putAll ColumnItem.putAll
    rw [List.map_id']
  | cons bson docs ih =>
    rw [ColumnData.putAll, ih, ColumnData.put, List.map_map]
    rfl

variable {c : ColumnItem} {t : MonaryType} {n row : Nat} {bson : Bson} {docs : List Bson}

theorem holds_putAll (hc : c.Holds t n) (hrow : row + docs.length ≤ n) :
    (c.putAll row docs).Holds t n := by
  induction docs generalizing c row with
  | nil => exact hc
  | cons bson docs ih =>
    rw [List.length_cons] at hrow
    exact ih (holds_put hc (by omega)) (by omega)

/-! ## Masks -/

theorem masked_putAll_of_not_mem (hc : c.Holds t n) (hrow : row + docs.length ≤ n) {i : Nat}
    (hi : i < row ∨ row + docs.length ≤ i) : (c.putAll row docs).masked i = c.masked i := by
  induction docs generalizing c row with
  | nil => rfl
  | cons bson docs ih =>
    rw [List.length_cons] at hrow hi
    rw [ColumnItem.putAll, ih (holds_put hc (by omega)) (by omega) (by omega),
      masked_put_of_ne hc (by omega) _ (by omega)]

/-- A row of the run is masked where its document has nothing for the column. -/
theorem masked_putAll (hc : c.Holds t n) (hrow : row + docs.length ≤ n) {i : Nat}
    (hi : docs[i]? = some bson) :
    (c.putAll row docs).masked (row + i) = (cellPayload c bson).isNone := by
  induction docs generalizing c row i with
  | nil => simp at hi
  | cons d docs ih =>
    rw [List.length_cons] at hrow
    have hput : (c.put row (cellPayload c d)).Holds t n := holds_put hc (by omega)
    rcases i with _ | i
    · cases hi
      rw [Nat.add_zero, ColumnItem.putAll, masked_putAll_of_not_mem hput (by omega) (by omega),
        masked_put_self hc (by omega)]
    · rw [ColumnItem.putAll, show row + (i + 1) = row + 1 + i by omega]
      exact ih hput (by omega) hi

/-! ## Cells -/

/-- The value of the document, if the column is sized and finds one, fills the cell of the row. -/
def ColumnItem.Fills (c : ColumnItem) (row : Nat) (bson : Bson) : Prop :=
  ∀ t it v, MonaryType.ofCode c.type = some t → resolve c bson = some it → sizedValue t it = some v →
    c.typeArg ≤ v.length ∧ (t = .bson → row * c.typeArg < 2 ^ 32)

omit [CImpl] in
theorem fills_of_not_sized {c : ColumnItem} (hc : c.Holds t n) (hs : t.sized = false) (row : Nat)
    (bson : Bson) : c.Fills row bson := by
  intro t' it v ht' _ hv
  obtain rfl : t = t' := Option.some.inj (hc.type_eq.symm.trans ht')
  rw [sizedValue_of_not_sized hs] at hv
  cases hv

/-- A value that fills its cell is put into the cell, and is all of it. -/
theorem place_of_fills {src : Bytes} (hc : c.Holds t n) (hfill : c.Fills row bson)
    (hp : cellPayload c bson = some src) :
    c.place row src.length = row * t.itemSize c.typeArg ∧ src.length = t.itemSize c.typeArg := by
  obtain ⟨e, hit, hp⟩ := cellPayload_eq_some hc hp
  have hle := length_payload_le hp
  rw [ColumnItem.place, hc.type_eq]
  have hcell : FillsCell t c.typeArg row e.iter := by
    intro hs
    rw [payload_of_sized hs] at hp
    obtain ⟨v, hv, -⟩ := Option.map_eq_some_iff.mp (Except.ok.inj hp)
    obtain ⟨h1, h2⟩ := hfill t e.iter v hc.type_eq hit hv
    exact ⟨⟨v, hv, h1⟩, h2⟩
  have h := (fillsCell_iff hc.width_pos hp).mp hcell
  dsimp only
  omega

omit [CImpl] in
theorem cell_put_self {src : Bytes} (hc : c.Holds t n) (hrow : row < n)
    (hplace : c.place row src.length = row * t.itemSize c.typeArg)
    (hlen : src.length = t.itemSize c.typeArg) : (c.put row (some src)).cell row = src := by
  obtain ⟨s, hs, hsl⟩ := hc.storage_eq
  have hb := row_add_le (w := t.itemSize c.typeArg) hrow
  have hsize : (c.put row (some src)).itemSize = t.itemSize c.typeArg := hc.itemSize_eq
  have hself : slice (patch s (row * t.itemSize c.typeArg) src) (row * t.itemSize c.typeArg) src.length = src :=
    slice_patch_self (by omega)
  rw [ColumnItem.cell, hsize]
  show slice ((c.storage.map (patch · (c.place row src.length) src)).getD []) _ _ = src
  rw [hs, Option.map_some, Option.getD_some, hplace]
  rwa [hlen] at hself

omit [CImpl] in
/-- What is written at another place than a cell leaves the cell as it is. -/
theorem cell_put_of_disjoint {src : Bytes} (hc : c.Holds t n) {i : Nat}
    (hn : c.place row src.length + src.length ≤ n * t.itemSize c.typeArg)
    (hdis : i * t.itemSize c.typeArg + t.itemSize c.typeArg ≤ c.place row src.length ∨
      c.place row src.length + src.length ≤ i * t.itemSize c.typeArg) :
    (c.put row (some src)).cell i = c.cell i := by
  obtain ⟨s, hs, hsl⟩ := hc.storage_eq
  have hsize : (c.put row (some src)).itemSize = t.itemSize c.typeArg := hc.itemSize_eq
  rw [ColumnItem.cell, hsize, ColumnItem.cell, hc.itemSize_eq]
  show slice ((c.storage.map (patch · (c.place row src.length) src)).getD []) _ _ = _
  rw [hs, Option.map_some, Option.getD_some, Option.getD_some]
  refine (frame_patch (by omega)).slice_eq ?_
  intro k h1 h2 h3
  omega

omit [CImpl] in
theorem cell_put_of_ne {src : Bytes} (hc : c.Holds t n) (hrow : row < n)
    (hplace : c.place row src.length = row * t.itemSize c.typeArg)
    (hlen : src.length = t.itemSize c.typeArg) {i : Nat} (hi : i ≠ row) :
    (c.put row (some src)).cell i = c.cell i := by
  have hb := row_add_le (w := t.itemSize c.typeArg) hrow
  have hdis : i * t.itemSize c.typeArg + t.itemSize c.typeArg ≤ row * t.itemSize c.typeArg ∨
      row * t.itemSize c.typeArg + t.itemSize c.typeArg ≤ i * t.itemSize c.typeArg := by
    rcases Nat.lt_or_gt_of_ne hi with h | h
    · exact Or.inl (row_add_le h)
    · exact Or.inr (row_add_le h)
  apply cell_put_of_disjoint hc
  · rwa [hplace, hlen]
  · rwa [hplace, hlen]

theorem view_put_of_ne (hc : c.Holds t n) (hrow : row < n) (hfill : c.Fills row bson) {i : Nat}
    (hi : i ≠ row) : (c.put row (cellPayload c bson)).view i = c.view i := by
  have hcell : (c.put row (cellPayload c bson)).cell i = c.cell i := by
    rcases hp : cellPayload c bson with _ | src
    · rfl
    · obtain ⟨h1, h2⟩ := place_of_fills hc hfill hp
      exact cell_put_of_ne hc hrow h1 h2 hi
  rw [ColumnItem.view, masked_put_of_ne hc hrow _ hi, hcell, ColumnItem.view]

theorem view_put_self (hc : c.Holds t n) (hrow : row < n) (hfill : c.Fills row bson) :
    (c.put row (cellPayload c bson)).view row = cellPayload c bson := by
  rw [ColumnItem.view, masked_put_self hc hrow]
  rcases hp : cellPayload c bson with _ | src
  · rfl
  · obtain ⟨h1, h2⟩ := place_of_fills hc hfill hp
    rw [cell_put_self hc hrow h1 h2]
    rfl

/-- Every value of the run fills its cell. -/
def ColumnItem.FillsAll (c : ColumnItem) (row : Nat) (docs : List Bson) : Prop :=
  ∀ i bson, docs[i]? = some bson → c.Fills (row + i) bson

omit [CImpl] in
theorem fillsAll_cons :
    c.FillsAll row (bson :: docs) ↔ c.Fills row bson ∧ c.FillsAll (row + 1) docs := forall_rows_cons

theorem view_putAll_of_not_mem (hc : c.Holds t n) (hrow : row + docs.length ≤ n)
    (hfill : c.FillsAll row docs) {i : Nat} (hi : i < row ∨ row + docs.length ≤ i) :
    (c.putAll row docs).view i = c.view i := by
  induction docs generalizing c row with
  | nil => rfl
  | cons bson docs ih =>
    rw [List.length_cons] at hrow hi
    rw [fillsAll_cons] at hfill
    rw [ColumnItem.putAll, ih (holds_put hc (by omega)) (by omega) hfill.2 (by omega),
      view_put_of_ne hc (by omega) hfill.1 (by omega)]

/-- The view of a row of the run is what its document has for the column. -/
theorem view_putAll (hc : c.Holds t n) (hrow : row + docs.length ≤ n) (hfill : c.FillsAll row docs)
    {i : Nat} (hi : docs[i]? = some bson) :
    (c.putAll row docs).view (row + i) = cellPayload c bson := by
  induction docs generalizing c row i with
  | nil => simp at hi
  | cons d docs ih =>
    rw [List.length_cons] at hrow
    rw [fillsAll_cons] at hfill
    have hput : (c.put row (cellPayload c d)).Holds t n := holds_put hc (by omega)
    rcases i with _ | i
    · cases hi
      rw [Nat.add_zero, ColumnItem.putAll, view_putAll_of_not_mem hput (by omega) hfill.2 (by omega),
        view_put_self hc (by omega) hfill.1]
    · rw [ColumnItem.putAll, show row + (i + 1) = row + 1 + i by omega]
      exact ih hput (by omega) hfill.2 hi

end Rows

end Monary
