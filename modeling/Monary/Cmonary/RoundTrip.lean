import Monary.Cmonary.Rows
import Monary.Lib.Records

/-!
# Sizes first, values then

* `Lossless` : a column as wide as the largest size holds every value in full;
* `lossless_iff` : that is so for strings and binaries when the offset of the last row is an `int`, and for
  documents when all that do not go to the first row are as large as the column (or have no bytes).
-/

namespace Monary
open ByteSeq CInt

/-- Every document has at the path a value of the kind the column type stands for. -/
def HoldsKind (t : MonaryType) (field : Bytes) (docs : List Bson) : Prop :=
  ∀ d ∈ docs, ∃ it ty, bsonIterFindDescendant (bsonIterInit d) field = some it ∧
    it.bsonType = some ty ∧ represents t ty = true

/-- The value a sized column finds in a document. -/
def valueAt (t : MonaryType) (field : Bytes) (d : Bson) : Bytes :=
  ((bsonIterFindDescendant (bsonIterInit d) field).bind (sizedValue t)).getD []

/-- The entry of a `size` column in row `i`. -/
def sizeAt (c : ColumnItem) (i : Nat) : Nat := leNat (c.cell i)

theorem sizedValue_of_represents {e : Element} {t : MonaryType} {ty : BsonType} (hs : t.sized = true)
    (hty : e.iter.bsonType = some ty) (hr : represents t ty = true) :
    ∃ v, sizedValue t e.iter = some v ∧ sizeValue e.iter = some v.length ∧ v.length < 2 ^ 32 := by
  have hv : (sizedValue t e.iter).isSome := by
    rw [sizedValue_isSome, hty]
    cases t
    case string | binary | bson => simpa [represents] using hr
    all_goals cases hs
  obtain ⟨v, hv⟩ := Option.isSome_iff_exists.mp hv
  refine ⟨v, hv, ?_⟩
  cases t
  case string =>
    obtain rfl : ty = .utf8 := by simpa [represents] using hr
    obtain ⟨hu, hlen⟩ := e.accepted.utf8 e.small hty
    have hb := e.iter.uint32At_lt e.iter.d1
    rw [sizedValue_string hty] at hv
    obtain rfl := Option.some.inj hv
    rw [sizeValue, hty, hu, ByteSeq.length_slice (by omega)]
    exact ⟨rfl, by omega⟩
  case binary =>
    obtain rfl : ty = .binary := by simpa [represents] using hr
    obtain ⟨p, hp, hlen⟩ := e.accepted.binaryData hty
    have hv' : sizedValue .binary e.iter = some (p.take (bsonIterBinary e.iter).2) := by
      simp only [sizedValue, hp, Option.map_some]
    obtain rfl := Option.some.inj (hv'.symm.trans hv)
    rw [sizeValue, hty, List.length_take, Nat.min_eq_left hlen]
    exact ⟨rfl, bsonIterBinary_lt _⟩
  case bson =>
    obtain rfl : ty = .document := by simpa [represents] using hr
    obtain ⟨v', hv', hlen⟩ := sizedValue_document hty
    obtain rfl : v = v' := Option.some.inj (hv.symm.trans hv')
    rw [sizeValue, hty, hlen]
    refine ⟨rfl, ?_⟩
    rw [bsonIterDocument, if_pos hty]
    exact e.iter.uint32At_lt _
  all_goals cases hs

section RoundTrip
variable [CImpl] {field : Bytes} {t : MonaryType} {w n : Nat} {docs : List Bson}

omit [CImpl] in
theorem holds_single {c : ColumnItem} (hc : c.Holds t n) : (⟨n, [c]⟩ : ColumnData).Holds n := by
  refine ⟨le_refl _, ?_⟩
  intro c' hc'
  obtain rfl := List.mem_singleton.mp hc'
  exact ⟨t, hc⟩

/-- A column of its own after the documents were loaded. -/
theorem load_single {c : ColumnItem} {s : LoadState} (hc : c.Holds t docs.length)
    (h : monaryLoadQuery ⟨docs.length, [c]⟩ (.ofList docs false) = .ok s) :
    s.coldata.columns = [c.putAll 0 docs] ∧ docs.length < 2 ^ 31 := by
  have hcd := holds_single hc
  have hok := (monaryLoadQuery_ok_iff hcd).mp ⟨s, h⟩
  rw [monaryLoadQuery_eq_ok hcd h, LoadState.after]
  dsimp only at hok ⊢
  rw [take_ofList] at hok ⊢
  rw [columns_putAll]
  exact ⟨rfl, hok.1⟩

theorem load_single_ok_iff {c : ColumnItem} (hc : c.Holds t docs.length) :
    (∃ s, monaryLoadQuery ⟨docs.length, [c]⟩ (.ofList docs false) = .ok s) ↔
      docs.length < 2 ^ 31 ∧ ∀ i d, docs[i]? = some d → c.Clean i d := by
  rw [monaryLoadQuery_ok_iff (holds_single hc)]
  dsimp only
  rw [take_ofList]
  refine and_congr Iff.rfl ?_
  unfold ColumnData.CleanAll ColumnData.Clean
  simp

theorem cellPayload_freshColumn {d : Bson} (hkind : HoldsKind t field docs) (hs : t.sized = true)
    (hd : d ∈ docs) (hw : w < 2 ^ 32) (hpos : 0 < w) :
    cellPayload (freshColumn field t w n) d = some ((valueAt t field d).take w) ∧
      cellPayload (freshColumn field .size 0 n) d = some (leBytes 4 (valueAt t field d).length) ∧
      (valueAt t field d).length < 2 ^ 32 := by
  obtain ⟨it, ty, hit, hty, hr⟩ := hkind d hd
  obtain ⟨e, rfl⟩ := Element.ofFind hit
  obtain ⟨v, hv, hsize, hlt⟩ := sizedValue_of_represents hs hty hr
  have hval : valueAt t field d = v := by rw [valueAt, hit, Option.bind_some, hv, Option.getD_some]
  rw [hval]
  refine ⟨?_, ?_, hlt⟩
  · refine cellPayload_of_resolve (freshColumn_holds field n hw fun _ => hpos) hit ?_
    rw [payload_of_sized hs, hv]
    rfl
  · refine cellPayload_of_resolve (t := .size) (freshColumn_holds field n (by decide) nofun) hit ?_
    show Except.ok ((sizeValue e.iter).map (leBytes 4)) = _
    rw [hsize]
    rfl

/-- A run of a `size` column over the documents, the largest entry being `w`. -/
structure SizeLoad (field : Bytes) (docs : List Bson) (sizes : ColumnItem) (w : Nat) : Prop where
  run : ∃ s, monaryLoadQuery ⟨docs.length, [freshColumn field .size 0 docs.length]⟩ (.ofList docs false) =
    .ok s ∧ s.coldata.columns = [sizes]
  pos : 1 ≤ w
  le : ∀ i < docs.length, sizeAt sizes i ≤ w
  attained : ∃ i < docs.length, sizeAt sizes i = w

/-- A run of the documents into a fresh column of width `w` leaves every row unmasked, with the value of
its document in the first bytes of its cell, as many as `sizes` says. -/
def Lossless (t : MonaryType) (field : Bytes) (docs : List Bson) (sizes : ColumnItem) (w : Nat) : Prop :=
  ∃ s c, monaryLoadQuery ⟨docs.length, [freshColumn field t w docs.length]⟩ (.ofList docs false) = .ok s ∧
    s.coldata.columns = [c] ∧
    ∀ i d, docs[i]? = some d →
      c.masked i = false ∧ slice (c.storage.getD []) (i * w) (sizeAt sizes i) = valueAt t field d

/-- The offsets of strings and binaries are `int`s; a document that does not go to the first row is as
large as the column, or empty. -/
def RowsFit (t : MonaryType) (sizes : ColumnItem) (n w : Nat) : Prop :=
  (t = .string ∨ t = .binary → (n - 1) * w < 2 ^ 31) ∧
    (t = .bson → ∀ i < n, i ≠ 0 → sizeAt sizes i = 0 ∨ sizeAt sizes i = w ∧ i * w < 2 ^ 32)

/-- What the `size` column holds. -/
theorem sizeAt_eq {sizes : ColumnItem} (hkind : HoldsKind t field docs) (hs : t.sized = true)
    (h : SizeLoad field docs sizes w) :
    docs.length < 2 ^ 31 ∧ w < 2 ^ 32 ∧
      ∀ i d, docs[i]? = some d → sizeAt sizes i = (valueAt t field d).length := by
  have hc : (freshColumn field .size 0 docs.length).Holds .size docs.length :=
    freshColumn_holds field docs.length (by decide) nofun
  obtain ⟨s, hrun, hcols⟩ := h.run
  obtain ⟨hcols', hlen⟩ := load_single hc hrun
  obtain rfl : sizes = _ := List.singleton_inj.mp (hcols.symm.trans hcols')
  have hsize : ∀ i d, docs[i]? = some d →
      sizeAt ((freshColumn field .size 0 docs.length).putAll 0 docs) i = (valueAt t field d).length ∧
        (valueAt t field d).length < 2 ^ 32 := by
    intro i d hd
    obtain ⟨-, hp, hlt⟩ := cellPayload_freshColumn (n := docs.length) (w := 1) hkind hs
      (List.mem_of_getElem? hd) (by decide) (by decide)
    have hview := view_putAll hc (show 0 + docs.length ≤ docs.length by omega)
      (fun i d _ => fills_of_not_sized hc rfl (0 + i) d) hd
    rw [hp, Nat.zero_add, ColumnItem.view, Option.ite_none_left_eq_some] at hview
    rw [sizeAt, Option.some.inj hview.2, leNat_leBytes]
    exact ⟨Nat.mod_eq_of_lt hlt, hlt⟩
  refine ⟨hlen, ?_, fun i d hd => (hsize i d hd).1⟩
  obtain ⟨i, hi, hw⟩ := h.attained
  have := hsize i _ (List.getElem?_eq_getElem hi)
  omega

theorem storage_putAll {c : ColumnItem} {row : Nat} {val : Bson → Bytes}
    (h : ∀ d ∈ docs, cellPayload c d = some (val d)) :
    (c.putAll row docs).storage = c.storage.map (layOut c.place · row (docs.map val)) := by
  induction docs generalizing c row with
  | nil =>
    rw [ColumnItem.putAll, List.map_nil]
    cases c.storage <;> rfl
  | cons d docs ih =>
    have hput : c.put row (cellPayload c d) = c.put row (some (val d)) := by rw [h d (by simp)]
    have hplace : (c.put row (some (val d))).place = c.place := rfl
    rw [ColumnItem.putAll, hput, ih (c := c.put row (some (val d))) fun d' hd' => h d' (by simp [hd']),
      List.map_cons, hplace]
    show (c.storage.map (patch · (c.place row (val d).length) (val d))).map _ = _
    rw [Option.map_map]
    rfl

omit [CImpl] in
/-- A document that is not empty has a byte other than zero: its length comes first. -/
theorem exists_ne_zero_of_document {e : Element} {v : Bytes} (hv : sizedValue .bson e.iter = some v)
    (hne : v ≠ []) : ∃ x ∈ v, x ≠ 0 := by
  have hdoc : e.iter.bsonType = some .document := by
    have := (sizedValue_isSome e .bson).mp (by rw [hv]; rfl)
    simpa using this
  unfold sizedValue bsonIterDocument at hv
  dsimp only at hv
  rw [if_pos hdoc, Option.map_some, Option.some.injEq] at hv
  have hlen : leNat (slice e.iter.raw e.iter.d1 4) ≠ 0 := by
    intro h0
    apply hne
    rw [← hv, BsonIter.uint32At, h0, List.take_zero]
  obtain ⟨j, b, hj, hb, hb0⟩ := exists_ne_zero_of_leNat hlen
  rw [getElem?_slice, Option.ite_none_right_eq_some] at hb
  refine ⟨b, List.mem_of_getElem? (i := j) ?_, hb0⟩
  change List.take (leNat (slice e.iter.raw e.iter.d1 4)) _ = v at hv
  rw [← hv, List.getElem?_take, if_pos hj, BsonIter.ptr, List.getElem?_drop, hb.2]

omit [CImpl] in
/-- A document of the kind is clean in a row exactly when the offset of the row is an `int`, where the
loader computes one. -/
theorem clean_freshColumn_iff {d : Bson} (hkind : HoldsKind t field docs) (hs : t.sized = true)
    (hd : d ∈ docs) (i : Nat) :
    (freshColumn field t w n).Clean i d ↔ (t = .string ∨ t = .binary → i * w < 2 ^ 31) := by
  obtain ⟨it, ty, hit, hty, hr⟩ := hkind d hd
  have htype : MonaryType.ofCode (freshColumn field t w n).type = some t := MonaryType.ofCode_code t
  have hne : t ≠ .length := by
    rintro rfl
    cases hs
  constructor
  · intro h
    have h := h t it htype hit
    rintro (rfl | rfl)
    · exact h.string rfl (by rw [hty]; simpa [represents] using hr)
    · exact h.binary rfl (by rw [hty]; simpa [represents] using hr)
  · intro h t' it' ht' hit'
    obtain rfl : t = t' := Option.some.inj (htype.symm.trans ht')
    exact ⟨fun hl => absurd hl hne, fun hl => absurd hl hne, fun hl _ => h (Or.inl hl),
      fun hl _ => h (Or.inr hl)⟩

theorem lossless_iff_found {sizes : ColumnItem} (hkind : HoldsKind t field docs) (hs : t.sized = true)
    (h : SizeLoad field docs sizes w) :
    Lossless t field docs sizes w ↔
      (t = .string ∨ t = .binary → ∀ i < docs.length, i * w < 2 ^ 31) ∧
        Found w (layOut (place t w) (List.replicate (docs.length * w) 0) 0 (docs.map (valueAt t field)))
          (docs.map (valueAt t field)) := by
  obtain ⟨hlen, hw, hsizes⟩ := sizeAt_eq hkind hs h
  have hc := freshColumn_holds (t := t) field docs.length hw fun _ => h.pos
  have hpay : ∀ d ∈ docs, cellPayload (freshColumn field t w docs.length) d = some (valueAt t field d) := by
    intro d hd
    obtain ⟨i, hi, rfl⟩ := List.getElem_of_mem hd
    have hle := h.le i hi
    rw [hsizes i _ (List.getElem?_eq_getElem hi)] at hle
    rw [(cellPayload_freshColumn hkind hs hd hw h.pos).1, List.take_of_length_le hle]
  have hplace : (freshColumn field t w docs.length).place = place t w := by
    funext row len
    rw [ColumnItem.place, hc.type_eq]
    rfl
  have hstore : ((freshColumn field t w docs.length).putAll 0 docs).storage =
      some (layOut (place t w) (List.replicate (docs.length * w) 0) 0 (docs.map (valueAt t field))) := by
    rw [storage_putAll hpay, hplace]
    show some (layOut _ (List.replicate (docs.length * t.itemSize w) 0) _ _) = _
    rw [MonaryType.itemSize_of_sized hs]
  have hclean : (∀ i d, docs[i]? = some d → (freshColumn field t w docs.length).Clean i d) ↔
      (t = .string ∨ t = .binary → ∀ i < docs.length, i * w < 2 ^ 31) := by
    constructor
    · intro hcl ht i hi
      have hd := List.getElem?_eq_getElem hi
      exact (clean_freshColumn_iff hkind hs (List.mem_of_getElem? hd) i).mp (hcl i _ hd) ht
    · intro hlt i d hd
      exact (clean_freshColumn_iff hkind hs (List.mem_of_getElem? hd) i).mpr fun ht =>
        hlt ht i (List.getElem?_eq_some_iff.mp hd).1
  rw [← hclean]
  have hfound {c : ColumnItem} (hcol : c = (freshColumn field t w docs.length).putAll 0 docs) :
      (∀ i d, docs[i]? = some d → c.masked i = false ∧
        slice (c.storage.getD []) (i * w) (sizeAt sizes i) = valueAt t field d) ↔
      Found w (layOut (place t w) (List.replicate (docs.length * w) 0) 0 (docs.map (valueAt t field)))
        (docs.map (valueAt t field)) := by
    rw [hcol, hstore, Option.getD_some]
    constructor
    · intro hrow i v hv
      rw [List.getElem?_map] at hv
      obtain ⟨d, hd, rfl⟩ := Option.map_eq_some_iff.mp hv
      rw [← hsizes i d hd]
      exact (hrow i d hd).2
    · intro hf i d hd
      refine ⟨?_, ?_⟩
      · have hm := masked_putAll hc (show 0 + docs.length ≤ docs.length by omega) hd
        rw [Nat.zero_add, hpay d (List.mem_of_getElem? hd)] at hm
        exact hm
      · rw [hsizes i d hd]
        exact hf i _ (by rw [List.getElem?_map, hd]; rfl)
  constructor
  · rintro ⟨s, c, hrun, hcols, hrow⟩
    have hok := (load_single_ok_iff hc).mp ⟨s, hrun⟩
    have hcol := List.singleton_inj.mp (hcols.symm.trans (load_single hc hrun).1)
    exact ⟨hok.2, (hfound hcol).mp hrow⟩
  · rintro ⟨hcl, hf⟩
    obtain ⟨s, hrun⟩ := (load_single_ok_iff hc).mpr ⟨hlen, hcl⟩
    exact ⟨s, _, hrun, (load_single hc hrun).1, (hfound rfl).mpr hf⟩

/-- A value that is no document is put into its row; a document is, if it is as large as the column. -/
theorem placed_iff {sizes : ColumnItem} (hne : docs ≠ []) (hkind : HoldsKind t field docs)
    (hs : t.sized = true) (h : SizeLoad field docs sizes w) :
    (t = .string ∨ t = .binary → ∀ i < docs.length, i * w < 2 ^ 31) ∧
        (∀ i v, (docs.map (valueAt t field))[i]? = some v → v = [] ∨ place t w i v.length = i * w) ↔
      RowsFit t sizes docs.length w := by
  obtain ⟨hlen, hw, hsizes⟩ := sizeAt_eq hkind hs h
  have hpos : 0 < docs.length := List.length_pos_iff.mpr hne
  unfold RowsFit
  refine and_congr (imp_congr Iff.rfl ?_) ?_
  · constructor
    · intro hi
      exact hi _ (by omega)
    · intro hlast i hi
      have : i * w ≤ (docs.length - 1) * w := Nat.mul_le_mul_right w (by omega)
      omega
  · constructor
    · rintro hv rfl i hi h0
      have hd := List.getElem?_eq_getElem hi
      have hle := h.le i hi
      have hmul := hv i (valueAt .bson field docs[i]) (by rw [List.getElem?_map, hd]; rfl)
      rw [hsizes i _ hd] at hle ⊢
      rw [place, if_pos rfl] at hmul
      have hmod := Nat.mod_le (i * (valueAt .bson field docs[i]).length) (2 ^ 32)
      rcases hmul with hnil | hmul
      · exact Or.inl (List.length_eq_zero_iff.mpr hnil)
      · have hwl : (valueAt .bson field docs[i]).length = w := by
          by_contra hlt
          have := Nat.mul_lt_mul_of_pos_left (show (valueAt .bson field docs[i]).length < w by omega)
            (Nat.pos_of_ne_zero h0)
          omega
        rw [hwl] at hmul
        have := Nat.mod_lt (i * w) (Nat.two_pow_pos 32)
        exact Or.inr ⟨hwl, by omega⟩
    · intro hfit i v hv
      rw [List.getElem?_map] at hv
      obtain ⟨d, hd, rfl⟩ := Option.map_eq_some_iff.mp hv
      have hi := (List.getElem?_eq_some_iff.mp hd).1
      unfold place
      by_cases ht : t = .bson
      · rw [if_pos ht, ← hsizes i d hd]
        by_cases h0 : i = 0
        · exact Or.inr (by rw [h0, Nat.zero_mul, Nat.zero_mul, Nat.zero_mod])
        · rcases hfit ht i hi h0 with hz | ⟨hz, hlt⟩
          · rw [hsizes i d hd] at hz
            exact Or.inl (List.length_eq_zero_iff.mp hz)
          · exact Or.inr (by rw [hz, Nat.mod_eq_of_lt hlt])
      · rw [if_neg ht, MonaryType.itemSize_of_sized hs]
        exact Or.inr rfl

theorem found_iff_placed {sizes : ColumnItem} (hkind : HoldsKind t field docs) (hs : t.sized = true)
    (h : SizeLoad field docs sizes w) :
    Found w (layOut (place t w) (List.replicate (docs.length * w) 0) 0 (docs.map (valueAt t field)))
        (docs.map (valueAt t field)) ↔
      ∀ i v, (docs.map (valueAt t field))[i]? = some v → v = [] ∨ place t w i v.length = i * w := by
  obtain ⟨hlen, hw, hsizes⟩ := sizeAt_eq hkind hs h
  have hwidth : ∀ v ∈ docs.map (valueAt t field), v.length ≤ w := by
    intro v hv
    obtain ⟨d, hd, rfl⟩ := List.mem_map.mp hv
    obtain ⟨i, hi, rfl⟩ := List.getElem_of_mem hd
    rw [← hsizes i _ (List.getElem?_eq_getElem hi)]
    exact h.le i hi
  have hfit : Fitting (place t w) w (docs.map (valueAt t field)) := by
    refine ⟨hwidth, ?_⟩
    intro row v hv
    unfold place
    split
    · exact (Nat.mod_le _ _).trans (Nat.mul_le_mul_left row (hwidth v hv))
    · rw [MonaryType.itemSize_of_sized hs]
  refine found_layOut_iff hfit (by rw [List.length_map]) ?_
  intro i v hv hne hbad
  obtain ⟨d, hd, rfl⟩ := Option.map_eq_some_iff.mp ((List.getElem?_map ..).symm.trans hv)
  have ht : t = .bson := by
    by_contra ht
    rw [place, if_neg ht, MonaryType.itemSize_of_sized hs] at hbad
    exact hbad rfl
  subst ht
  obtain ⟨it, ty, hit, hty, hr⟩ := hkind d (List.mem_of_getElem? hd)
  obtain ⟨e, rfl⟩ := Element.ofFind hit
  obtain ⟨v, hv', -⟩ := sizedValue_of_represents hs hty hr
  have hval : valueAt .bson field d = v := by rw [valueAt, hit, Option.bind_some, hv', Option.getD_some]
  rw [hval] at hne ⊢
  exact exists_ne_zero_of_document hv' hne

theorem rowsFit_of_lossless {sizes : ColumnItem} (hne : docs ≠ []) (hkind : HoldsKind t field docs)
    (hs : t.sized = true) (h : SizeLoad field docs sizes w) (hl : Lossless t field docs sizes w) :
    RowsFit t sizes docs.length w := by
  rw [lossless_iff_found hkind hs h, found_iff_placed hkind hs h] at hl
  exact (placed_iff hne hkind hs h).mp hl

/-- Loading values into a column as wide as their largest size is lossless exactly when the rows fit. -/
theorem lossless_iff {sizes : ColumnItem} (hne : docs ≠ []) (hkind : HoldsKind t field docs)
    (hs : t.sized = true) (h : SizeLoad field docs sizes w) :
    Lossless t field docs sizes w ↔ RowsFit t sizes docs.length w := by
  refine ⟨rowsFit_of_lossless hne hkind hs h, ?_⟩
  rw [lossless_iff_found hkind hs h, found_iff_placed hkind hs h]
  exact (placed_iff hne hkind hs h).mpr

end RoundTrip

/-- `{"d": {"x": null}}`; the inner document has eight bytes. -/
def nullDocument : Bson := ⟨[16, 0, 0, 0, 3, 0x64, 0, 8, 0, 0, 0, 10, 0x78, 0, 0, 0], by decide⟩

theorem holdsKind_documents : HoldsKind .bson [0x64] [nullDocument, emptyDocument] := by
  intro d hd
  simp only [List.mem_cons, List.not_mem_nil, or_false] at hd
  rcases hd with rfl | rfl
  · exact ⟨_, .document, rfl, by decide, rfl⟩
  · exact ⟨_, .document, rfl, by decide, rfl⟩

/-- The sizes of the two documents, 8 and 5. -/
def documentSizes : ColumnItem :=
  { freshColumn [0x64] .size 0 2 with storage := some [8, 0, 0, 0, 5, 0, 0, 0], mask := some [0, 0] }

theorem sizeLoad_documents :
    @SizeLoad CImpl.x86 [0x64] [nullDocument, emptyDocument] documentSizes 8 := by
  let _ := CImpl.x86
  refine ⟨⟨_, rfl, rfl⟩, by decide, ?_, 0, by decide, by decide⟩
  decide

/-- The sizes of two documents of eight bytes. -/
def nullSizes : ColumnItem :=
  { freshColumn [0x64] .size 0 2 with storage := some [8, 0, 0, 0, 8, 0, 0, 0], mask := some [0, 0] }

/-- Documents of one size are all read back. -/
theorem lossless_nullDocuments :
    @Lossless CImpl.x86 .bson [0x64] [nullDocument, nullDocument] nullSizes 8 := by
  let _ := CImpl.x86
  refine (@lossless_iff CImpl.x86 _ _ _ _ _ (by decide) ?_ rfl ?_).mpr ⟨nofun, ?_⟩
  · intro d hd
    obtain rfl : d = nullDocument := by simpa using hd
    exact ⟨_, .document, rfl, by decide, rfl⟩
  · exact ⟨⟨_, rfl, rfl⟩, by decide, by decide, 0, by decide, by decide⟩
  · intro _ i hi h0
    obtain rfl : i = 1 := by
      have : i < 2 := hi
      omega
    exact Or.inr (by decide)

/-- Of two documents the second, which is shorter, is not read back. -/
theorem not_forall_lossless :
    ¬ ∀ (t : MonaryType) (field : Bytes) (docs : List Bson) (sizes : ColumnItem) (w : Nat), docs ≠ [] →
      HoldsKind t field docs → t.sized = true → @SizeLoad CImpl.x86 field docs sizes w →
      @Lossless CImpl.x86 t field docs sizes w := by
  intro h
  have hl := h .bson [0x64] [nullDocument, emptyDocument] documentSizes 8 (by decide) holdsKind_documents rfl
    sizeLoad_documents
  have hfit := @rowsFit_of_lossless CImpl.x86 _ _ _ _ _ (by decide) holdsKind_documents rfl
    sizeLoad_documents hl
  rcases hfit.2 rfl 1 (by decide) (by decide) with h | h
  · exact absurd h (by decide)
  · exact absurd h.1 (by decide)

end Monary
