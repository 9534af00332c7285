import Monary.Cmonary.Clean

/-!
# A load and its cell

* `CellIsolated`, `cellIsolated_iff` : a load of row `row` changes nothing outside the cell of that row,
  except `monary_load_document_value` with a document shorter than the column, which scales the row by
  the length of the document (`ShortDocument`), and a load into a row that is a negative `int`;
* `LoadForgets`, `loadForgets_iff` : the cell after a load does not depend on the cell before, unless the
  value is shorter than the column or goes elsewhere.
-/

namespace Monary
open ByteSeq CInt

/-- The byte `k` of the storage belongs to row `row`. -/
def InCell (t : MonaryType) (typeArg row k : Nat) : Prop :=
  row * t.itemSize typeArg ≤ k ∧ k < (row + 1) * t.itemSize typeArg

theorem ColumnItem.Holds.withStorage {c : ColumnItem} {t : MonaryType} {n : Nat} (h : c.Holds t n)
    {s : Bytes} (hs : s.length = n * t.itemSize c.typeArg) :
    ({ c with storage := some s } : ColumnItem).Holds t n :=
  ⟨h.type_eq, h.width_lt, h.width_pos, h.field_ne, ⟨s, rfl, hs⟩, h.mask_eq⟩

section Isolation
variable [CImpl]

/-- Whatever the storage holds, the load changes no byte of it outside the cell of the row; where it
comes to no result, it does so before anything is written. -/
def CellIsolated (e : Element) (c : ColumnItem) (t : MonaryType) (n row : Nat) : Prop :=
  ∀ s : Bytes, s.length = n * t.itemSize c.typeArg →
    (∀ f, monaryLoadItem e.iter { c with storage := some s } (toInt32 row) = .error f →
      payload t c.typeArg e.iter = .error f) ∧
    ∀ s', monaryLoadItem e.iter { c with storage := some s } (toInt32 row) = .ok (some s') →
      Frame s s' (InCell t c.typeArg row)

/-- A document shorter than its `bson` column goes to a row other than the first. -/
def ShortDocument (e : Element) (c : ColumnItem) (t : MonaryType) (row : Nat) : Prop :=
  t = .bson ∧ e.iter.bsonType = some .document ∧ 0 < row ∧ 0 < (bsonIterDocument e.iter).2 ∧
    (bsonIterDocument e.iter).2 < c.typeArg

/-- The payload of a document that is not short starts where the cell starts. -/
theorem place_eq {e : Element} {c : ColumnItem} {t : MonaryType} {row : Nat} {src : Bytes}
    (hmul : t.sized = true → row * c.typeArg < 2 ^ 31) (hshort : ¬ ShortDocument e c t row)
    (hp : payload t c.typeArg e.iter = .ok (some src)) :
    src = [] ∨ place t c.typeArg row src.length = row * t.itemSize c.typeArg := by
  unfold place
  by_cases ht : t = .bson
  · subst ht
    rw [if_pos rfl, MonaryType.itemSize_of_sized rfl]
    rw [payload_of_sized rfl] at hp
    obtain ⟨v, hv, hsrc⟩ := Option.map_eq_some_iff.mp (Except.ok.inj hp)
    have hdoc : e.iter.bsonType = some .document := by
      have := (sizedValue_isSome e .bson).mp (by rw [hv]; rfl)
      simpa using this
    obtain ⟨v', hv', hlen⟩ := sizedValue_document hdoc
    obtain rfl : v = v' := Option.some.inj (hv.symm.trans hv')
    have hl : src.length = min c.typeArg v.length := by rw [← hsrc, List.length_take]
    have hm := hmul rfl
    by_cases h0 : src = []
    · exact Or.inl h0
    · right
      have hpos : 0 < src.length := List.length_pos_iff.mpr h0
      by_cases hr : row = 0
      · rw [hr, Nat.zero_mul, Nat.zero_mul, Nat.zero_mod]
      · have hw : src.length = c.typeArg := by
          by_contra hne
          exact hshort ⟨rfl, hdoc, Nat.pos_of_ne_zero hr, by omega, by omega⟩
        rw [hw, Nat.mod_eq_of_lt (by omega)]
  · rw [if_neg ht]
    exact Or.inr rfl

theorem cellIsolated_of_not_shortDocument {e : Element} {c : ColumnItem} {t : MonaryType} {n row : Nat}
    (hc : c.Holds t n) (hrow : row < n) (h31 : row < 2 ^ 31) (hmul : t.sized = true → row * c.typeArg < 2 ^ 31)
    (hshort : ¬ ShortDocument e c t row) : CellIsolated e c t n row := by
  intro s hs
  have hcs := hc.withStorage hs
  rw [toInt32_natCast h31]
  refine ⟨?_, ?_⟩
  · intro f hf
    rcases hp : payload t c.typeArg e.iter with f' | p
    · rw [monaryLoadItem_eq e hcs.type_eq hcs.width_lt row, hp] at hf
      exact hf
    · obtain ⟨p', -, hload⟩ := monaryLoadItem_of_clean hcs hrow
        (clean_of_payload hp (fun ht _ => hmul (by rw [ht]; rfl)) fun ht _ => hmul (by rw [ht]; rfl))
      rw [hload] at hf
      cases hf
  · intro s' hs'
    obtain ⟨src, hp, hb, rfl⟩ := monaryLoadItem_eq_some hcs rfl hrow hs'
    rcases place_eq hmul hshort hp with rfl | hplace
    · rw [patch_nil]
      exact Frame.refl _ _
    · refine (frame_patch hb).mono ?_
      intro k hk
      have hle := length_payload_le hp
      dsimp only at hk hle
      rw [hplace] at hk
      unfold InCell
      rw [Nat.add_mul, Nat.one_mul]
      omega

theorem not_cellIsolated_of_shortDocument {e : Element} {c : ColumnItem} {t : MonaryType} {n row : Nat}
    (hc : c.Holds t n) (hrow : row < n) (hmul : t.sized = true → row * c.typeArg < 2 ^ 31)
    (hshort : ShortDocument e c t row) : ¬ CellIsolated e c t n row := by
  intro hiso
  obtain ⟨rfl, hdoc, hr, h0, hlt⟩ := hshort
  have h31 := lt_of_mul_lt hc rfl hmul
  obtain ⟨v, hv, hlen⟩ := sizedValue_document hdoc
  have hp : payload .bson c.typeArg e.iter = .ok (some v) := by
    rw [payload_of_sized rfl, hv, Option.map_some, List.take_of_length_le (by omega)]
  have hm := hmul rfl
  have hwr := row_add_le (w := c.typeArg) hrow
  have hlw : row * v.length < row * c.typeArg := Nat.mul_lt_mul_of_pos_left (by omega) hr
  have hsize : MonaryType.bson.itemSize c.typeArg = c.typeArg := MonaryType.itemSize_of_sized rfl _
  -- fill the storage with a byte other than the first of the document
  obtain ⟨b, hb⟩ : ∃ b : UInt8, v[0]? ≠ some b := by
    rcases hv0 : v[0]? with _ | x
    · exact ⟨0, by simp⟩
    · exact ⟨x + 1, by simp⟩
  let s := List.replicate (n * c.typeArg) b
  have hs : s.length = n * MonaryType.bson.itemSize c.typeArg := by rw [List.length_replicate, hsize]
  obtain ⟨p, hp', hload⟩ := monaryLoadItem_of_clean (hc.withStorage hs) hrow
    (e := e) ⟨nofun, nofun, nofun, nofun⟩
  obtain rfl : p = some v := Except.ok.inj (hp'.symm.trans hp)
  have hframe := ((hiso s hs).2 _ (by rw [toInt32_natCast h31]; exact hload)).2 (row * v.length)
    (by intro h; have := h.1; rw [hsize] at this; omega)
  have hplace : place .bson c.typeArg row v.length = row * v.length := by
    rw [place, if_pos rfl, Nat.mod_eq_of_lt (by omega)]
  dsimp only [Option.getD_some] at hframe
  rw [hplace, getElem?_patch (by rw [List.length_replicate]; omega), if_pos ⟨le_refl _, by omega⟩,
    Nat.sub_self, List.getElem?_replicate, if_pos (by omega)] at hframe
  exact hb hframe

/-- A load of what the column does not take writes nothing. -/
theorem cellIsolated_of_not_taken {e : Element} {c : ColumnItem} {t : MonaryType} {n row : Nat} (hc : c.Holds t n)
    (htaken : ¬ Taken t e.iter) : CellIsolated e c t n row := by
  intro s hs
  have hcs := hc.withStorage hs
  have hload := monaryLoadItem_of_not_taken hcs.type_eq hcs.width_lt htaken (toInt32 row)
  rw [hload]
  refine ⟨fun f hf => hf, ?_⟩
  intro s' hs'
  exact absurd ((taken_iff e t _).mpr ⟨s', hs'⟩) htaken

theorem not_cellIsolated_of_far {e : Element} {c : ColumnItem} {t : MonaryType} {n row : Nat} (hc : c.Holds t n)
    (hsized : t.sized = false) (h31 : 2 ^ 31 ≤ row) (h32 : row < 2 ^ 32) (htaken : Taken t e.iter) :
    ¬ CellIsolated e c t n row := by
  intro hiso
  obtain ⟨src, hp⟩ := (taken_iff e t c.typeArg).mp htaken
  obtain ⟨s, -, hs⟩ := hc.storage_eq
  have hfault := (hiso s hs).1 _ (monaryLoadItem_far (hc.withStorage hs) hsized h31 h32 htaken)
  rw [hp] at hfault
  cases hfault

/-- A load alters no other cell, and nothing outside the storage, exactly when it is not the load of a short document,
and the row of a value that is stored is below `2^31`. -/
theorem cellIsolated_iff (e : Element) {c : ColumnItem} {t : MonaryType} {n row : Nat} (hc : c.Holds t n)
    (hn : n < 2 ^ 32) (hrow : row < n) (hmul : t.sized = true → row * c.typeArg < 2 ^ 31) :
    CellIsolated e c t n row ↔ ¬ ShortDocument e c t row ∧ (Taken t e.iter → row < 2 ^ 31) := by
  constructor
  · intro h
    refine ⟨fun hshort => not_cellIsolated_of_shortDocument hc hrow hmul hshort h, fun htaken => ?_⟩
    rcases hs : t.sized with _ | _
    · by_contra h31
      exact not_cellIsolated_of_far hc hs (by omega) (hrow.trans hn) htaken h
    · exact lt_of_mul_lt hc hs hmul
  · rintro ⟨hshort, h31⟩
    by_cases htaken : Taken t e.iter
    · exact cellIsolated_of_not_shortDocument hc hrow (h31 htaken) hmul hshort
    · exact cellIsolated_of_not_taken hc htaken

end Isolation

/-- `{"d": {}}`; the inner document has five bytes. -/
def emptyDocument : Bson := ⟨[13, 0, 0, 0, 3, 0x64, 0, 5, 0, 0, 0, 0, 0], by decide⟩

/-- A column `bson:6` on `d` of two rows. -/
def emptyDocumentColumn : ColumnItem :=
  ⟨some [0x64], MonaryType.bson.code, 6, some (List.replicate 12 0), some [1, 1]⟩

theorem emptyDocumentColumn_holds : emptyDocumentColumn.Holds .bson 2 :=
  ⟨by decide, by decide, by decide, by decide, ⟨_, rfl, by decide⟩, ⟨_, rfl, by decide⟩⟩

/-- The load of `{}` into row 1 writes the last byte of row 0. -/
theorem not_forall_cellIsolated :
    ¬ ∀ (e : Element) (c : ColumnItem) (t : MonaryType) (n row : Nat), c.Holds t n → n < 2 ^ 32 → row < n →
      (t.sized = true → row * c.typeArg < 2 ^ 31) → @CellIsolated CImpl.x86 e c t n row := by
  intro h
  have hmul : MonaryType.bson.sized = true → 1 * emptyDocumentColumn.typeArg < 2 ^ 31 := by decide
  let _ := CImpl.x86
  exact not_cellIsolated_of_shortDocument (e := .find emptyDocument [0x64] rfl) emptyDocumentColumn_holds
    (show 1 < 2 by decide) hmul (by unfold ShortDocument; decide)
    (h _ _ _ _ _ emptyDocumentColumn_holds (by decide) (by decide) hmul)

/-- A column `bson:5` on `d` of three rows, which `{}` fills. -/
def filledDocumentColumn : ColumnItem := freshColumn [0x64] .bson 5 3

/-- The load of `{}` into row 1 of this column leaves rows 0 and 2 as they are. -/
theorem cellIsolated_emptyDocument :
    @CellIsolated CImpl.x86 (.find emptyDocument [0x64] rfl) filledDocumentColumn .bson 3 1 :=
  (@cellIsolated_iff CImpl.x86 _ _ _ _ _ (freshColumn_holds _ 3 (by decide) (by decide)) (by decide) (by decide)
    (by decide)).mpr ⟨by unfold ShortDocument; decide, fun _ => by decide⟩

/-! ## What was in the cell before -/

section History
variable [CImpl]

/-- Two loads of the element return 1 and leave the same bytes in the cell of the row, whatever was in the storage
before. -/
def LoadForgets (e : Element) (c : ColumnItem) (t : MonaryType) (n row : Nat) : Prop :=
  ∀ s₁ s₂ : Bytes, s₁.length = n * t.itemSize c.typeArg → s₂.length = n * t.itemSize c.typeArg →
    ∃ s₁' s₂', monaryLoadItem e.iter { c with storage := some s₁ } (toInt32 row) = .ok (some s₁') ∧
      monaryLoadItem e.iter { c with storage := some s₂ } (toInt32 row) = .ok (some s₂') ∧
      slice s₁' (row * t.itemSize c.typeArg) (t.itemSize c.typeArg) =
        slice s₂' (row * t.itemSize c.typeArg) (t.itemSize c.typeArg)

/-- The value fills the cell, and the product of row and width is one of `unsigned int`. -/
def FillsCell (t : MonaryType) (typeArg row : Nat) (it : BsonIter) : Prop :=
  t.sized = true →
    (∃ v, sizedValue t it = some v ∧ typeArg ≤ v.length) ∧ (t = .bson → row * typeArg < 2 ^ 32)

theorem fillsCell_iff {e : Element} {t : MonaryType} {w row : Nat} {src : Bytes}
    (hw : t.sized = true → 0 < w) (hp : payload t w e.iter = .ok (some src)) :
    FillsCell t w row e.iter ↔ place t w row src.length ≤ row * t.itemSize w ∧
      row * t.itemSize w + t.itemSize w ≤ place t w row src.length + src.length := by
  by_cases hs : t.sized = true
  · rw [payload_of_sized hs] at hp
    obtain ⟨v, hv, hsrc⟩ := Option.map_eq_some_iff.mp (Except.ok.inj hp)
    have hl : src.length = min w v.length := by rw [← hsrc, List.length_take]
    have hpos := hw hs
    rw [MonaryType.itemSize_of_sized hs]
    unfold FillsCell place
    rw [MonaryType.itemSize_of_sized hs]
    constructor
    · intro h
      obtain ⟨⟨v', hv', hle⟩, hmod⟩ := h hs
      obtain rfl : v = v' := Option.some.inj (hv.symm.trans hv')
      rw [hl, Nat.min_eq_left hle]
      split
      · next ht =>
        rw [Nat.mod_eq_of_lt (hmod ht)]
        exact ⟨le_refl _, le_refl _⟩
      · exact ⟨le_refl _, le_refl _⟩
    · intro h _
      have hle : w ≤ v.length := by
        split at h <;> omega
      rw [hl, Nat.min_eq_left hle] at h
      refine ⟨⟨v, hv, hle⟩, ?_⟩
      intro ht
      rw [if_pos ht] at h
      have := Nat.mod_lt (row * w) (show 0 < 2 ^ 32 by decide)
      omega
  · have hl := length_payload (by simpa using hs) hp
    have ht : t ≠ .bson := by
      rintro rfl
      exact hs rfl
    unfold FillsCell place
    rw [if_neg ht, hl]
    exact ⟨fun _ => ⟨le_refl _, le_refl _⟩, fun _ h => absurd h hs⟩

/-- The loaders compute the offset of the row without an overflow: the row of a column without a width is an `int`, and
so is the product of row and width of a string or binary column. -/
def OffsetFits (t : MonaryType) (typeArg row : Nat) : Prop :=
  (t.sized = false → row < 2 ^ 31) ∧ (t = .string ∨ t = .binary → row * typeArg < 2 ^ 31)

/-- What a load of `src` leaves in the cell. -/
theorem loadForgets_iff_covers {e : Element} {c : ColumnItem} {t : MonaryType} {n row : Nat} {src : Bytes}
    (hc : c.Holds t n) (hrow : row < n) (hp : payload t c.typeArg e.iter = .ok (some src)) :
    LoadForgets e c t n row ↔ src.length = t.itemSize c.typeArg ∧
      destOffset t c.typeArg (toInt32 row) src.length = some ((row * t.itemSize c.typeArg : Nat) : Int) := by
  have hcell := row_add_le (w := t.itemSize c.typeArg) hrow
  have hle := length_payload_le hp
  have hload {s : Bytes} (hs : s.length = n * t.itemSize c.typeArg) :
      monaryLoadItem e.iter { c with storage := some s } (toInt32 row) =
        transfer t { c with storage := some s } (toInt32 row) (some src) := by
    have hcs := hc.withStorage hs
    rw [monaryLoadItem_eq e hcs.type_eq hcs.width_lt, hp]
    rfl
  unfold LoadForgets
  constructor
  · intro h
    let s₁ := List.replicate (n * t.itemSize c.typeArg) (0 : UInt8)
    let s₂ := List.replicate (n * t.itemSize c.typeArg) (1 : UInt8)
    have h₁ : s₁.length = n * t.itemSize c.typeArg := List.length_replicate
    have h₂ : s₂.length = n * t.itemSize c.typeArg := List.length_replicate
    obtain ⟨s₁', s₂', hr₁, hr₂, heq⟩ := h s₁ s₂ h₁ h₂
    rw [hload h₁, transfer] at hr₁
    rw [hload h₂, transfer] at hr₂
    rcases hoff : destOffset t c.typeArg (toInt32 row) src.length with _ | off <;> simp only [hoff] at hr₁ hr₂
    · cases hr₁
    · obtain ⟨s, hs, hs'⟩ := bind_eq_ok (x := memcpyTo (some s₁) off src) (f := fun s => .ok (some s)) hr₁
      cases hs'
      obtain ⟨s, hs₂, hs'⟩ := bind_eq_ok (x := memcpyTo (some s₂) off src) (f := fun s => .ok (some s)) hr₂
      cases hs'
      obtain ⟨h0, hb, rfl⟩ := memcpyTo_eq_ok hs
      obtain ⟨-, -, rfl⟩ := memcpyTo_eq_ok hs₂
      have hcovers : off.toNat ≤ row * t.itemSize c.typeArg ∧
          row * t.itemSize c.typeArg + t.itemSize c.typeArg ≤ off.toNat + src.length := by
        by_contra hout
        exact slice_patch_ne (x := (0 : UInt8)) (y := 1) (by decide) (by omega) hcell
          (t.itemSize_pos hc.width_pos) hout heq
      refine ⟨by omega, congrArg some ?_⟩
      omega
  · rintro ⟨hlen, hoff⟩ s₁ s₂ h₁ h₂
    have hrun {s : Bytes} (hs : s.length = n * t.itemSize c.typeArg) :
        monaryLoadItem e.iter { c with storage := some s } (toInt32 row) =
          .ok (some (patch s (row * t.itemSize c.typeArg) src)) := by
      rw [hload hs, transfer]
      simp only [hoff]
      rw [memcpyTo_ok (by omega)]
      rfl
    refine ⟨_, _, hrun h₁, hrun h₂, ?_⟩
    rw [slice_patch_of_subset (by omega) (le_refl _) (by omega),
      slice_patch_of_subset (by omega) (le_refl _) (by omega)]

/-- A load of what the column takes forgets what was in the cell exactly when its value fills it, and the offset is the
row's. -/
theorem loadForgets_iff {e : Element} {c : ColumnItem} {t : MonaryType} {n row : Nat} (hc : c.Holds t n)
    (hrow : row < n) (htaken : Taken t e.iter) :
    LoadForgets e c t n row ↔ FillsCell t c.typeArg row e.iter ∧ OffsetFits t c.typeArg row := by
  obtain ⟨src, hp⟩ := (taken_iff e t c.typeArg).mp htaken
  rw [loadForgets_iff_covers hc hrow hp]
  have hpos := t.itemSize_pos hc.width_pos
  rcases hs : t.sized with _ | _
  · -- a column without a width
    have hlen := length_payload hs hp
    rw [destOffset_of_not_sized hs, hlen]
    have hnot : ¬ (t = .string ∨ t = .binary) := by
      rintro (rfl | rfl) <;> cases hs
    have hfills : FillsCell t c.typeArg row e.iter := fun h => by rw [hs] at h; cases h
    have hfits : OffsetFits t c.typeArg row ↔ row < 2 ^ 31 := by
      unfold OffsetFits
      exact ⟨fun h => h.1 hs, fun h => ⟨fun _ => h, fun ht => absurd ht hnot⟩⟩
    rw [hfits, ← toInt32_eq_natCast_iff, Option.some.injEq, Nat.cast_mul]
    constructor
    · rintro ⟨-, h⟩
      exact ⟨hfills, Int.eq_of_mul_eq_mul_right (by omega) h⟩
    · rintro ⟨-, h⟩
      exact ⟨rfl, by rw [h]⟩
  · -- a column with a width
    have hw := hc.width_pos hs
    have hsize := MonaryType.itemSize_of_sized hs c.typeArg
    rw [hsize]
    rw [payload_of_sized hs] at hp
    obtain ⟨v, hv, hsrc⟩ := Option.map_eq_some_iff.mp (Except.ok.inj hp)
    have hl : src.length = min c.typeArg v.length := by rw [← hsrc, List.length_take]
    have hfill : src.length = c.typeArg ↔ ∃ v, sizedValue t e.iter = some v ∧ c.typeArg ≤ v.length := by
      rw [hl]
      refine ⟨fun h => ⟨v, hv, by omega⟩, ?_⟩
      rintro ⟨v', hv', hle⟩
      obtain rfl := Option.some.inj (hv.symm.trans hv')
      omega
    have hoffset : src.length = c.typeArg →
        (destOffset t c.typeArg (toInt32 row) src.length = some ((row * c.typeArg : Nat) : Int) ↔
          (t = .bson → row * c.typeArg < 2 ^ 32) ∧ OffsetFits t c.typeArg row) := by
      intro hlen
      have hprod : mulInt32 (toInt32 row) (toInt32 c.typeArg) = some ((row * c.typeArg : Nat) : Int) ↔
          row * c.typeArg < 2 ^ 31 := by
        constructor
        · intro h
          obtain ⟨h₁, -, h₂⟩ := mulInt32_eq_some.mp h
          omega
        · intro h
          rw [toInt32_natCast ((Nat.le_mul_of_pos_right row hw).trans_lt h)]
          exact mulInt32_row hc.width_lt h
      unfold OffsetFits
      cases t
      case string | binary =>
        refine hprod.trans ?_
        simp [MonaryType.sized]
      case bson =>
        show some ((toUInt32 (toInt32 row * (src.length : Int)) : Nat) : Int) = _ ↔ _
        rw [toUInt32_toInt32_mul, hlen, ← Nat.cast_mul, toUInt32_natCast, Option.some.injEq, Nat.cast_inj]
        have hmod : row * c.typeArg % 2 ^ 32 = row * c.typeArg ↔ row * c.typeArg < 2 ^ 32 :=
          ⟨fun h => h ▸ Nat.mod_lt _ (by decide), Nat.mod_eq_of_lt⟩
        rw [hmod]
        simp [MonaryType.sized]
      all_goals cases hs
    unfold FillsCell
    rw [hfill]
    constructor
    · rintro ⟨hv, hoff⟩
      obtain ⟨h32, hfits⟩ := (hoffset (hfill.mpr hv)).mp hoff
      exact ⟨fun _ => ⟨hv, h32⟩, hfits⟩
    · rintro ⟨h, hfits⟩
      obtain ⟨hv, h32⟩ := h hs
      exact ⟨hv, (hoffset (hfill.mpr hv)).mpr ⟨h32, hfits⟩⟩

end History

end Monary
