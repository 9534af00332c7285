import Monary.Mongoc.Projection
import Monary.Cmonary.Chars
import Monary.Cmonary.Setup

/-!
# Columns and selected fields

* `payload_sameValue` : what a load copies depends on the type and the bytes of the value only, if the characters
  that a `length` column counts end at the NUL;
* `selectedPaths` : the paths that `monary_get_bson_fields_list` selects, and the `_id` the server adds;
* `ColumnItem.Plain`, `monaryBsonToArrays_projected` : columns that are loaded from the projection of a document as
  from the document.
-/

namespace Monary
open ByteSeq CInt

/-! ## A load depends on the value of the element -/

section Values
variable {e e' : Element}

theorem SameValue.slice_eight (h : SameValue e.iter e'.iter)
    (ht : e.iter.bsonType ∈ [some .dateTime, some .double, some .int64, some .timestamp]) :
    slice e.iter.raw e.iter.d1 8 = slice e'.iter.raw e'.iter.d1 8 :=
  h.slice_eq e.accepted e'.accepted (a := 0) (e.accepted.eight ht).le

theorem SameValue.int32_eq (h : SameValue e.iter e'.iter) : bsonIterInt32 e.iter = bsonIterInt32 e'.iter := by
  unfold bsonIterInt32
  rw [← h.bsonType_eq]
  split
  · next ht => rw [h.uint32At_eq e.accepted e'.accepted (e.accepted.four ht).le]
  · rfl

theorem SameValue.int64_eq (h : SameValue e.iter e'.iter) : bsonIterInt64 e.iter = bsonIterInt64 e'.iter := by
  unfold bsonIterInt64
  rw [← h.bsonType_eq]
  split
  · next ht => rw [h.slice_eight (by simp [ht])]
  · rfl

theorem SameValue.double_eq (h : SameValue e.iter e'.iter) : bsonIterDouble e.iter = bsonIterDouble e'.iter := by
  unfold bsonIterDouble
  rw [← h.bsonType_eq]
  split
  · next ht => rw [h.slice_eight (by simp [ht])]
  · rfl

theorem SameValue.dateTime_eq (h : SameValue e.iter e'.iter) :
    bsonIterDateTime e.iter = bsonIterDateTime e'.iter := by
  unfold bsonIterDateTime
  rw [← h.bsonType_eq]
  split
  · next ht => rw [h.slice_eight (by simp [ht])]
  · rfl

theorem SameValue.timestamp_eq (h : SameValue e.iter e'.iter) :
    bsonIterTimestamp e.iter = bsonIterTimestamp e'.iter := by
  unfold bsonIterTimestamp
  rw [← h.bsonType_eq]
  split
  · next ht => rw [h.slice_eight (by simp [ht])]
  · rfl

theorem SameValue.bool_eq (h : SameValue e.iter e'.iter) : bsonIterBool e.iter = bsonIterBool e'.iter := by
  unfold bsonIterBool
  rw [← h.bsonType_eq]
  split
  · next ht =>
    have hlt := e.accepted.bool ht
    have hb := h.byte_eq e.accepted e'.accepted (a := 0) (by omega)
    rw [Nat.add_zero, Nat.add_zero] at hb
    rw [hb]
  · rfl

theorem SameValue.oid_eq (h : SameValue e.iter e'.iter) :
    (bsonIterOid e.iter).map (·.take 12) = (bsonIterOid e'.iter).map (·.take 12) := by
  unfold bsonIterOid
  rw [← h.bsonType_eq]
  split
  · next ht =>
    exact congrArg some (h.slice_eq e.accepted e'.accepted (a := 0) (n := 12) (e.accepted.oid ht).le)
  · rfl

/-- A string: its length, and its bytes up to the NUL. -/
theorem SameValue.utf8_eq (h : SameValue e.iter e'.iter) : (bsonIterUtf8 e.iter).2 = (bsonIterUtf8 e'.iter).2 ∧
    (bsonIterUtf8 e.iter).1.map (·.take (bsonIterUtf8 e.iter).2) =
      (bsonIterUtf8 e'.iter).1.map (·.take (bsonIterUtf8 e'.iter).2) := by
  by_cases ht : e.iter.bsonType = some .utf8
  · obtain ⟨hd, hpos, hend, -⟩ := e.accepted.string (by simp [ht])
    obtain ⟨hd', -⟩ := e'.accepted.string (by simp [← h.bsonType_eq, ht])
    have hl := h.uint32At_eq e.accepted e'.accepted (by omega)
    rw [(e.accepted.utf8 e.small ht).1, (e'.accepted.utf8 e'.small (h.bsonType_eq ▸ ht)).1, ← hl]
    refine ⟨rfl, congrArg some ?_⟩
    have hs := h.slice_eq e.accepted e'.accepted (a := 4) (n := e.iter.uint32At e.iter.d1 - 1) (by omega)
    rwa [← hd, ← hd'] at hs
  · unfold bsonIterUtf8
    rw [if_neg ht, if_neg (h.bsonType_eq ▸ ht)]
    exact ⟨rfl, rfl⟩

theorem SameValue.binary_eq (h : SameValue e.iter e'.iter) :
    (bsonIterBinary e.iter).2 = (bsonIterBinary e'.iter).2 ∧
      (bsonIterBinary e.iter).1.map (·.take (bsonIterBinary e.iter).2) =
        (bsonIterBinary e'.iter).1.map (·.take (bsonIterBinary e'.iter).2) := by
  by_cases ht : e.iter.bsonType = some .binary
  · obtain ⟨hd2, hd3, hend, hinner⟩ := e.accepted.binary ht
    have ht' : e'.iter.bsonType = some .binary := h.bsonType_eq.symm.trans ht
    obtain ⟨hd2', hd3', -⟩ := e'.accepted.binary ht'
    have hl := h.uint32At_eq e.accepted e'.accepted (by omega)
    have hsub : e.iter.byte e.iter.d2 = e'.iter.byte e'.iter.d2 := by
      rw [hd2, hd2']
      exact h.byte_eq e.accepted e'.accepted (by omega)
    unfold bsonIterBinary
    rw [if_pos ht, if_pos ht']
    dsimp only
    rw [← hsub, ← hl]
    by_cases hold : e.iter.byte e.iter.d2 = binaryDeprecated
    · rw [if_pos hold, if_pos hold]
      refine ⟨rfl, congrArg some ?_⟩
      have hle := hinner hold
      have hlt := e.iter.uint32At_lt e.iter.d1
      have hu : toUInt32 ((e.iter.uint32At e.iter.d1 : Int) - 4) = e.iter.uint32At e.iter.d1 - 4 := by
        unfold toUInt32
        omega
      have hs := h.slice_eq e.accepted e'.accepted (a := 9) (n := e.iter.uint32At e.iter.d1 - 4) (by omega)
      dsimp only
      rw [hu, BsonIter.ptr, BsonIter.ptr, List.drop_drop, List.drop_drop, hd3, hd3']
      exact hs
    · rw [if_neg hold, if_neg hold]
      refine ⟨rfl, congrArg some ?_⟩
      have hs := h.slice_eq e.accepted e'.accepted (a := 5) (n := e.iter.uint32At e.iter.d1) (by omega)
      dsimp only
      rw [BsonIter.ptr, BsonIter.ptr, hd3, hd3']
      exact hs
  · unfold bsonIterBinary
    rw [if_neg ht, if_neg (h.bsonType_eq ▸ ht)]
    exact ⟨rfl, rfl⟩

theorem SameValue.document_eq (h : SameValue e.iter e'.iter) :
    (bsonIterDocument e.iter).2 = (bsonIterDocument e'.iter).2 ∧
      (bsonIterDocument e.iter).1.map (·.take (bsonIterDocument e.iter).2) =
        (bsonIterDocument e'.iter).1.map (·.take (bsonIterDocument e'.iter).2) := by
  unfold bsonIterDocument
  rw [← h.bsonType_eq]
  by_cases ht : e.iter.bsonType = some .document
  · rw [if_pos ht, if_pos ht]
    obtain ⟨hlt, hend⟩ := e.accepted.document (by simp [ht])
    obtain ⟨hlt', hend'⟩ := e'.accepted.document (by simp [← h.bsonType_eq, ht])
    have hlen := h.length_eq e.accepted e'.accepted
    have hl : e.iter.uint32At e.iter.d1 = e'.iter.uint32At e'.iter.d1 := by omega
    refine ⟨hl, congrArg some ?_⟩
    dsimp only
    rw [← hl]
    exact h.slice_eq e.accepted e'.accepted (a := 0) (n := e.iter.uint32At e.iter.d1) (by omega)
  · rw [if_neg ht, if_neg ht]
    exact ⟨rfl, rfl⟩

theorem SameValue.array_eq (h : SameValue e.iter e'.iter) :
    (bsonIterArray e.iter).2 = (bsonIterArray e'.iter).2 := by
  unfold bsonIterArray
  rw [← h.bsonType_eq]
  by_cases ht : e.iter.bsonType = some .array
  · rw [if_pos ht, if_pos ht]
    obtain ⟨-, hend⟩ := e.accepted.document (by simp [ht])
    obtain ⟨-, hend'⟩ := e'.accepted.document (by simp [← h.bsonType_eq, ht])
    have hlen := h.length_eq e.accepted e'.accepted
    show e.iter.uint32At e.iter.d1 = e'.iter.uint32At e'.iter.d1
    omega
  · rw [if_neg ht, if_neg ht]

theorem SameValue.count_eq (h : SameValue e.iter e'.iter) :
    (bsonIterRecurse e.iter).map (fun child => (bsonIterElements child).length) =
      (bsonIterRecurse e'.iter).map fun child => (bsonIterElements child).length := by
  rcases recurse_sameValue h e.accepted e'.accepted with ⟨h1, h2⟩ | ⟨child, raw, h1, h2, -, hagree⟩
  · rw [h1, h2]
  · rw [h1, h2, Option.map_some, Option.map_some, bsonIterElements_moved hagree, List.length_map]

/-- The bytes of a string, with its NUL. -/
theorem SameValue.stringPayload_eq (h : SameValue e.iter e'.iter) (ht : e.iter.bsonType = some .utf8) :
    e.iter.stringPayload = e'.iter.stringPayload := by
  obtain ⟨hd, hpos, hend, -⟩ := e.accepted.string (by simp [ht])
  unfold BsonIter.stringPayload
  rw [← h.uint32At_eq e.accepted e'.accepted (by omega)]
  exact h.slice_eq e.accepted e'.accepted (a := 4) (by omega)

/-- What a `length` column counts in a string whose characters end at its NUL. -/
theorem SameValue.lengthValue_eq (h : SameValue e.iter e'.iter)
    (hchars : e.iter.bsonType = some .utf8 → LeadsToNul e.iter.stringPayload) :
    lengthValue e.iter = lengthValue e'.iter := by
  unfold lengthValue
  rw [← h.bsonType_eq, ← h.count_eq, ← h.binary_eq.1]
  by_cases ht : e.iter.bsonType = some .utf8
  · have hend := charsEnd_iff.mpr (hchars ht)
    obtain ⟨n, d, hd, -, hn, hload⟩ := charLoopBounded_of_charsEnd ht hend
    obtain ⟨n', d', hd', -, hn', hload'⟩ := charLoopBounded_of_charsEnd (e := e') (h.bsonType_eq.symm.trans ht)
      (h.stringPayload_eq ht ▸ hend)
    rw [h.stringPayload_eq ht, hn'] at hn
    obtain rfl := Except.ok.inj hn
    rw [ht, hd, hd']
    show (charLoop (d.length + 1) d 0).map some = (charLoop (d'.length + 1) d' 0).map some
    rw [hload, hload']
  · have hnone : (bsonIterUtf8 e.iter).1 = none := by rw [bsonIterUtf8, if_neg ht]
    have hnone' : (bsonIterUtf8 e'.iter).1 = none := by
      rw [bsonIterUtf8, if_neg fun ht' => ht (h.bsonType_eq.trans ht')]
    rw [hnone, hnone']

theorem SameValue.sizeValue_eq (h : SameValue e.iter e'.iter) : sizeValue e.iter = sizeValue e'.iter := by
  unfold sizeValue
  rw [← h.bsonType_eq, ← h.utf8_eq.1, ← h.binary_eq.1, ← h.document_eq.1, ← h.array_eq]

theorem SameValue.sizedValue_eq (h : SameValue e.iter e'.iter) (t : MonaryType) :
    sizedValue t e.iter = sizedValue t e'.iter := by
  unfold sizedValue
  dsimp only
  rw [h.utf8_eq.2, h.binary_eq.2, h.document_eq.2]

/-- The payload of a load depends on the type and the bytes of the value, if the characters that a `length`
column counts end at the NUL. -/
theorem payload_sameValue [CImpl] (h : SameValue e.iter e'.iter) {t : MonaryType} (w : Nat)
    (hchars : t = .length → e.iter.bsonType = some .utf8 → LeadsToNul e.iter.stringPayload) :
    payload t w e.iter = payload t w e'.iter := by
  have hint (n : IntType) : intPayload n e.iter = intPayload n e'.iter := by
    unfold intPayload
    rw [← h.bsonType_eq, h.int32_eq, h.int64_eq, h.double_eq]
  have hfloat (n : FloatType) : floatPayload n e.iter = floatPayload n e'.iter := by
    unfold floatPayload
    rw [← h.bsonType_eq, h.int32_eq, h.int64_eq, h.double_eq]
  unfold payload
  rw [h.oid_eq, h.bool_eq, h.dateTime_eq, h.timestamp_eq, h.type_eq, h.sizeValue_eq, h.sizedValue_eq, h.bsonType_eq]
  simp only [hint, hfloat]
  cases t
  case length =>
    dsimp only
    rw [h.lengthValue_eq (hchars rfl)]
  all_goals rfl

end Values

/-! ## Columns -/

/-- `_id`, which is kept though it is not selected. -/
def idKey : Bytes := [0x5F, 0x69, 0x64]

/-- The paths that are kept when the fields of the columns are selected. -/
def selectedPaths (cd : ColumnData) : List (List Bytes) := [idKey] :: (monaryGetBsonFieldsList cd).map dotPath

/-- The path of the column is direct in the document, and the characters of a string that it counts end at the
NUL. -/
structure ColumnItem.Plain (c : ColumnItem) (paths : List (List Bytes)) (bson : Bson) : Prop where
  direct : ∀ field, c.field = some field → Direct paths (dotPath field) (bsonIterInit bson)
  chars : ∀ it, MonaryType.ofCode c.type = some .length → resolve c bson = some it → it.bsonType = some .utf8 →
    LeadsToNul it.stringPayload

/-- The fields of the columns are selected. -/
theorem mem_selectedPaths {cd : ColumnData} {c : ColumnItem} {field : Bytes} (hc : c ∈ cd.columns)
    (hf : c.field = some field) : dotPath field ∈ selectedPaths cd :=
  List.mem_cons_of_mem _ (List.mem_map_of_mem (List.mem_filterMap.mpr ⟨c, hc, hf⟩))

theorem mapM_congr {α β : Type} {f g : α → C β} {l : List α} (h : ∀ a ∈ l, f a = g a) : l.mapM f = l.mapM g := by
  induction l with
  | nil => rfl
  | cons a l ih => rw [List.mapM_cons, List.mapM_cons, h a (by simp), ih fun b hb => h b (by simp [hb])]

section Columns
variable [CImpl] {cd : ColumnData} {c : ColumnItem} {t : MonaryType} {n : Nat} {whole projection : Bson}

omit [CImpl] in
/-- The value that a column finds in the projection is the one it finds in the document. -/
theorem resolve_projected {paths : List (List Bytes)} (hpaths : ∀ field, c.field = some field → dotPath field ∈ paths)
    (hserver : Projected .document paths (bsonIterElements (bsonIterInit whole))
      (bsonIterElements (bsonIterInit projection)))
    (hplain : c.Plain paths whole) : Option.Rel SameValue (resolve c whole) (resolve c projection) := by
  unfold resolve
  rcases hfield : c.field with _ | field
  · exact .none
  · exact findPath_projected (bsonIterInit_fits _) (bsonIterInit_fits _) (hpaths field hfield) hserver
      (hplain.direct field hfield)

theorem loadColumn_projected (hc : c.Holds t n) {paths : List (List Bytes)}
    (hpaths : ∀ field, c.field = some field → dotPath field ∈ paths)
    (hserver : Projected .document paths (bsonIterElements (bsonIterInit whole))
      (bsonIterElements (bsonIterInit projection)))
    (hplain : c.Plain paths whole) (row : Nat) : loadColumn row projection c = loadColumn row whole c := by
  have hrel := resolve_projected hpaths hserver hplain
  unfold loadColumn
  rcases hit : resolve c whole with _ | it <;> rcases hit' : resolve c projection with _ | it' <;>
    rw [hit, hit'] at hrel <;> cases hrel
  next hvalue =>
    obtain ⟨e, rfl⟩ := resolve_element hit
    obtain ⟨e', rfl⟩ := resolve_element hit'
    have hload : monaryLoadItem e.iter c (toInt32 row) = monaryLoadItem e'.iter c (toInt32 row) := by
      rw [monaryLoadItem_eq e hc.type_eq hc.width_lt, monaryLoadItem_eq e' hc.type_eq hc.width_lt,
        payload_sameValue hvalue _ fun ht => by
          subst ht
          exact hplain.chars e.iter hc.type_eq hit]
    dsimp only
    rw [hload]

/-- The row that is loaded from the projection is the one that is loaded from the document. -/
theorem monaryBsonToArrays_projected {rows : Nat} (hcd : cd.Holds rows)
    (hserver : Projected .document (selectedPaths cd) (bsonIterElements (bsonIterInit whole))
      (bsonIterElements (bsonIterInit projection)))
    (hplain : ∀ c ∈ cd.columns, c.Plain (selectedPaths cd) whole) (row : Nat) :
    monaryBsonToArrays (some cd) row (some projection) = monaryBsonToArrays (some cd) row (some whole) := by
  have hcolumns : cd.columns.mapM (loadColumn row projection) = cd.columns.mapM (loadColumn row whole) := by
    apply mapM_congr
    intro c hc
    obtain ⟨t, ht⟩ := hcd.columns c hc
    exact loadColumn_projected ht (fun _ => mem_selectedPaths hc) hserver (hplain c hc) row
  unfold monaryBsonToArrays
  dsimp only
  rw [hcolumns]

end Columns

/-! ### Two documents -/

/-- `{"a": [5]}` and `{"a": []}`. -/
def oneItem : Bson := ⟨[20, 0, 0, 0, 4, 0x61, 0, 12, 0, 0, 0, 0x10, 0x30, 0, 5, 0, 0, 0, 0, 0], by decide⟩
def noItem : Bson := ⟨[13, 0, 0, 0, 4, 0x61, 0, 5, 0, 0, 0, 0, 0], by decide⟩

/-- A column `int32` on `a.0`. -/
def itemColumns : ColumnData := ⟨1, [freshColumn [0x61, 0x2E, 0x30] .int32 0 1]⟩

theorem itemColumns_holds : itemColumns.Holds 1 := by
  refine ⟨le_refl _, ?_⟩
  intro c hc
  obtain rfl := List.mem_singleton.mp hc
  exact ⟨.int32, freshColumn_holds _ 1 (by decide) nofun⟩

/-- The item is no document: the projection on `a.0` drops it. -/
theorem oneItem_projected : Projected .document (selectedPaths itemColumns) (bsonIterElements (bsonIterInit oneItem))
    (bsonIterElements (bsonIterInit noItem)) := by
  have hwhole : bsonIterElements (bsonIterInit oneItem) = [⟨oneItem.data, 20, 4, 4, 5, 7, 0, 0, 0, 19⟩] := by decide
  have hproj : bsonIterElements (bsonIterInit noItem) = [⟨noItem.data, 13, 4, 4, 5, 7, 0, 0, 0, 12⟩] := by decide
  have hentered : Entered .array ⟨oneItem.data, 20, 4, 4, 5, 7, 0, 0, 0, 19⟩ ⟨noItem.data, 13, 4, 4, 5, 7, 0, 0, 0, 12⟩
      ⟨oneItem.data.drop 7, 12, 0, 0, 0, 0, 0, 0, 0, 4⟩ ⟨noItem.data.drop 7, 5, 0, 0, 0, 0, 0, 0, 0, 4⟩ :=
    ⟨by decide, by decide, by decide, by decide, by decide, fun _ => by decide, fun _ => by decide⟩
  have hitems : bsonIterElements ⟨oneItem.data.drop 7, 12, 0, 0, 0, 0, 0, 0, 0, 4⟩ =
      [⟨oneItem.data.drop 7, 12, 4, 4, 5, 7, 0, 0, 0, 11⟩] := by decide
  have hnone : bsonIterElements ⟨noItem.data.drop 7, 5, 0, 0, 0, 0, 0, 0, 0, 4⟩ = [] := by decide
  rw [hwhole, hproj]
  refine .enter (by decide) (by decide) hentered ?_ (.nil _ _)
  rw [hitems, hnone]
  exact .dropItem (by decide) (.nil _ _)

/-- The column `a.0` has a value in the document, and is masked in the projection. -/
theorem not_forall_projected :
    ¬ ∀ (cd : ColumnData) (rows row : Nat) (whole projection : Bson), cd.Holds rows → row < cd.numRows →
      Projected .document (selectedPaths cd) (bsonIterElements (bsonIterInit whole))
        (bsonIterElements (bsonIterInit projection)) →
      @monaryBsonToArrays CImpl.x86 (some cd) row (some projection) =
        @monaryBsonToArrays CImpl.x86 (some cd) row (some whole) := by
  intro h
  have heq := h itemColumns 1 0 oneItem noItem itemColumns_holds (by decide) oneItem_projected
  revert heq
  decide

/-- `{"a": {"x": 5, "y": 6}}` and `{"a": {"x": 5}}`. -/
def twoFields : Bson := ⟨[27, 0, 0, 0, 3, 0x61, 0, 19, 0, 0, 0, 0x10, 0x78, 0, 5, 0, 0, 0, 0x10, 0x79, 0, 6, 0, 0, 0, 0,
  0], by decide⟩
def oneField : Bson := ⟨[20, 0, 0, 0, 3, 0x61, 0, 12, 0, 0, 0, 0x10, 0x78, 0, 5, 0, 0, 0, 0, 0], by decide⟩

/-- A column `int32` on `a.x`. -/
def fieldColumns : ColumnData := ⟨1, [freshColumn [0x61, 0x2E, 0x78] .int32 0 1]⟩

theorem twoFields_projected : Projected .document (selectedPaths fieldColumns) (bsonIterElements (bsonIterInit twoFields))
    (bsonIterElements (bsonIterInit oneField)) := by
  have hwhole : bsonIterElements (bsonIterInit twoFields) = [⟨twoFields.data, 27, 4, 4, 5, 7, 0, 0, 0, 26⟩] := by decide
  have hproj : bsonIterElements (bsonIterInit oneField) = [⟨oneField.data, 20, 4, 4, 5, 7, 0, 0, 0, 19⟩] := by decide
  have hentered : Entered .document ⟨twoFields.data, 27, 4, 4, 5, 7, 0, 0, 0, 26⟩ ⟨oneField.data, 20, 4, 4, 5, 7, 0, 0, 0, 19⟩
      ⟨twoFields.data.drop 7, 19, 0, 0, 0, 0, 0, 0, 0, 4⟩ ⟨oneField.data.drop 7, 12, 0, 0, 0, 0, 0, 0, 0, 4⟩ :=
    ⟨by decide, by decide, by decide, by decide, by decide, nofun, nofun⟩
  have hfields : bsonIterElements ⟨twoFields.data.drop 7, 19, 0, 0, 0, 0, 0, 0, 0, 4⟩ =
      [⟨twoFields.data.drop 7, 19, 4, 4, 5, 7, 0, 0, 0, 11⟩, ⟨twoFields.data.drop 7, 19, 11, 11, 12, 14, 0, 0, 0, 18⟩] := by
    decide
  have hfield : bsonIterElements ⟨oneField.data.drop 7, 12, 0, 0, 0, 0, 0, 0, 0, 4⟩ =
      [⟨oneField.data.drop 7, 12, 4, 4, 5, 7, 0, 0, 0, 11⟩] := by decide
  rw [hwhole, hproj]
  refine .enter (by decide) (by decide) hentered ?_ (.nil _ _)
  rw [hfields, hfield]
  refine .keep (by decide) (by decide) ⟨by decide, by decide⟩ (.drop (by decide) (by decide) (.nil _ _))

theorem fieldColumns_holds : fieldColumns.Holds 1 := by
  refine ⟨le_refl _, ?_⟩
  intro c hc
  obtain rfl := List.mem_singleton.mp hc
  exact ⟨.int32, freshColumn_holds _ 1 (by decide) nofun⟩

theorem fieldColumns_plain : ∀ c ∈ fieldColumns.columns, c.Plain (selectedPaths fieldColumns) twoFields := by
  intro c hc
  obtain rfl := List.mem_singleton.mp hc
  refine ⟨?_, nofun⟩
  intro field hfield
  obtain rfl := Option.some.inj hfield
  refine Or.inr ?_
  intro e he
  have ha : bsonIterFindWithLen (bsonIterInit twoFields) [0x61] = some ⟨twoFields.data, 27, 4, 4, 5, 7, 0, 0, 0, 26⟩ := by
    decide
  obtain rfl := Option.some.inj (ha.symm.trans he)
  refine ⟨fun hnone => absurd hnone (by decide), ?_⟩
  intro child _
  refine ⟨fun _ => Or.inl (by decide), fun harray => absurd harray (by decide)⟩

/-- The column `a.x` is loaded from the projection on it. -/
theorem projected_fieldColumns :
    @monaryBsonToArrays CImpl.x86 (some fieldColumns) 0 (some oneField) =
      @monaryBsonToArrays CImpl.x86 (some fieldColumns) 0 (some twoFields) :=
  @monaryBsonToArrays_projected CImpl.x86 _ _ _ _ fieldColumns_holds twoFields_projected fieldColumns_plain 0

end Monary
