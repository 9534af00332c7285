import Monary.Cmonary.Arrays

/-!
# The mask of a row

* `Represented` : the path of a column leads to an element of a type the column represents;
* `MaskLaw` : a load unmasks exactly the represented columns and counts the others;
* `monaryLoadItem_ok_iff_reaches`, `loadColumn_ok_iff` : the loads that return, in any row;
* `maskLaw_iff` : the law holds when the load returns and no `bool` column meets an element that is no
  boolean; `monary_load_bool_value` takes every element.
-/

namespace Monary
open ByteSeq CInt

section Mask
variable [CImpl] {cd : ColumnData} {rows row : Nat} {bson : Bson}

/-- The path leads to an element of a type the column represents. -/
def Represented (c : ColumnItem) (bson : Bson) : Prop :=
  ∃ t it ty, MonaryType.ofCode c.type = some t ∧ resolve c bson = some it ∧ it.bsonType = some ty ∧
    represents t ty = true

/-- The load of the document into the row returns the number of columns masked there, and masks those
without a value of their type. -/
def MaskLaw (cd : ColumnData) (row : Nat) (bson : Bson) : Prop :=
  ∃ (cd' : ColumnData) (masked : Int),
    monaryBsonToArrays (some cd) row (some bson) = .ok (some cd', masked) ∧
    List.Forall₂ (fun c c' => c'.masked row = false ↔ Represented c bson) cd.columns cd'.columns ∧
    masked = cd'.columns.countP (·.masked row)

/-- A load returns exactly when it reaches its row. -/
theorem monaryLoadItem_ok_iff_reaches (e : Element) {c : ColumnItem} {t : MonaryType} {n : Nat} (hc : c.Holds t n)
    (hn : n < 2 ^ 32) (hrow : row < n) :
    (∃ r, monaryLoadItem e.iter c (toInt32 row) = .ok r) ↔ Reaches t c.typeArg row e.iter := by
  by_cases htaken : Taken t e.iter
  · obtain ⟨src, hp⟩ := (taken_iff e t c.typeArg).mp htaken
    rcases hs : t.sized with _ | _
    · -- a column without a width
      have hreach : Reaches t c.typeArg row e.iter ↔ row < 2 ^ 31 := by
        refine ⟨fun h => h.near hs htaken, fun h => ⟨htaken.code, htaken.chars, ?_, ?_, fun _ _ => h⟩⟩ <;>
        · rintro rfl
          cases hs
      rw [hreach]
      constructor
      · rintro ⟨r, h⟩
        by_contra h31
        rw [monaryLoadItem_far hc hs (by omega) (hrow.trans hn) htaken] at h
        cases h
      · intro h31
        have hclean : Clean t c.typeArg row e.iter := by
          refine clean_of_payload hp ?_ ?_ <;>
          · rintro rfl
            cases hs
        rw [toInt32_natCast h31]
        exact (monaryLoadItem_ok_iff e hc hrow).mpr hclean
    · -- a column with a width, whose value goes to the offset that the loader computes
      have hw := hc.width_pos hs
      have hle := length_payload_le hp
      obtain ⟨s, hstorage, hlen⟩ := hc.storage_eq
      rw [MonaryType.itemSize_of_sized hs] at hle hlen
      have hcell := row_add_le (w := c.typeArg) hrow
      have hload : monaryLoadItem e.iter c (toInt32 row) = transfer t c (toInt32 row) (some src) := by
        rw [monaryLoadItem_eq e hc.type_eq hc.width_lt, hp]
        rfl
      have hprod (hd : destOffset t c.typeArg (toInt32 row) src.length = mulInt32 (toInt32 row) (toInt32 c.typeArg)) :
          (∃ r, monaryLoadItem e.iter c (toInt32 row) = .ok r) ↔
            0 ≤ toInt32 row * toInt32 c.typeArg ∧ toInt32 row * toInt32 c.typeArg < 2 ^ 31 := by
        rw [hload]
        constructor
        · rintro ⟨r, h⟩
          rcases hm : mulInt32 (toInt32 row) (toInt32 c.typeArg) with _ | off
          · rw [transfer_none (hd.trans hm)] at h
            cases h
          · rw [transfer_some (hd.trans hm), hstorage] at h
            obtain ⟨hoff, -, hlt⟩ := mulInt32_eq_some.mp hm
            obtain ⟨s', hs', -⟩ := bind_eq_ok (x := memcpyTo (some s) off src) (f := fun s => .ok (some s)) h
            rw [← hoff]
            exact ⟨(memcpyTo_eq_ok hs').1, by omega⟩
        · rintro ⟨h0, hlt⟩
          have hroom := toInt32_mul_le (hrow.trans hn) hc.width_lt
          rw [transfer_some (hd.trans (mulInt32_eq_some.mpr ⟨rfl, by omega, hlt⟩)), hstorage, memcpyTo, if_pos ⟨h0, by rw [hlen]; omega⟩]
          exact ⟨_, rfl⟩
      have hsome : (sizedValue t e.iter).isSome := by
        rw [payload_of_sized hs] at hp
        rw [← Option.isSome_map (f := (·.take c.typeArg)), Except.ok.inj hp]
        rfl
      have hty := (sizedValue_isSome e t).mp hsome
      cases t
      case string =>
        have hutf8 : e.iter.bsonType = some .utf8 := by simpa using hty
        rw [hprod rfl]
        refine ⟨fun h => ⟨?_, ?_, fun _ _ => h, ?_, ?_⟩, fun h => h.string rfl hutf8⟩ <;>
        · intro h'
          cases h'
      case binary =>
        have hbinary : e.iter.bsonType = some .binary := by simpa using hty
        rw [hprod rfl]
        refine ⟨fun h => ⟨?_, ?_, ?_, fun _ _ => h, ?_⟩, fun h => h.binary rfl hbinary⟩ <;>
        · intro h'
          cases h'
      case bson =>
        have hreach : Reaches .bson c.typeArg row e.iter := by
          refine ⟨?_, ?_, ?_, ?_, ?_⟩ <;>
          · intro h'
            cases h'
        refine ⟨fun _ => hreach, fun _ => ?_⟩
        have hplace : row * src.length % 2 ^ 32 ≤ row * c.typeArg :=
          (Nat.mod_le _ _).trans (Nat.mul_le_mul_left row hle)
        rw [hload, transfer_some rfl, hstorage]
        show ∃ r, (memcpyTo (some s) ((toUInt32 (toInt32 row * (src.length : Int)) : Nat) : Int) src).map some = .ok r
        rw [toUInt32_toInt32_mul, ← Nat.cast_mul, toUInt32_natCast, memcpyTo_ok (by omega)]
        exact ⟨_, rfl⟩
      all_goals cases hs
  · rw [monaryLoadItem_of_not_taken hc.type_eq hc.width_lt htaken]
    constructor
    · rintro ⟨p, hp⟩
      have hclean : Clean t c.typeArg 0 e.iter := clean_of_payload hp (by simp) (by simp)
      refine ⟨hclean.code, hclean.chars, ?_, ?_, fun _ h => absurd h htaken⟩
      · rintro rfl hty
        exact absurd ⟨Or.inr ⟨_, hty, rfl⟩, by simp, by simp⟩ htaken
      · rintro rfl hty
        exact absurd ⟨Or.inr ⟨_, hty, rfl⟩, by simp, by simp⟩ htaken
    · intro h
      have hclean : Clean t c.typeArg 0 e.iter := ⟨h.code, h.chars, by simp, by simp⟩
      exact exists_payload_of_clean hclean

theorem payload_of_reaches {t : MonaryType} {w : Nat} {it : BsonIter} (h : Reaches t w row it) :
    ∃ p, payload t w it = .ok p := by
  have hclean : Clean t w 0 it := ⟨h.code, h.chars, by simp, by simp⟩
  exact exists_payload_of_clean hclean

/-- A load of a column returns exactly when the element that its path leads to reaches the row. -/
theorem loadColumn_ok_iff {c : ColumnItem} {t : MonaryType} {n : Nat} (hc : c.Holds t n) (hn : n < 2 ^ 32)
    (hrow : row < n) :
    (∃ r, loadColumn row bson c = .ok r) ↔ ∀ it, resolve c bson = some it → Reaches t c.typeArg row it := by
  obtain ⟨m, hm, hml⟩ := hc.mask_eq
  have hmask (b : Bool) : ∃ mask, setMask c.mask row b = .ok mask := by
    rw [hm, setMask, memcpyTo_ok (by rw [List.length_singleton]; omega)]
    exact ⟨_, rfl⟩
  have hrun (loaded : Option Bytes) (b : Bool) : ∃ r, (do
      let mask ← setMask c.mask row b
      return ({ c with storage := loaded.orElse fun _ => c.storage, mask := mask }, b) : C (ColumnItem × Bool)) =
        .ok r := by
    obtain ⟨mask, hset⟩ := hmask b
    rw [hset]
    exact ⟨_, rfl⟩
  unfold loadColumn
  rw [if_neg hc.field_ne]
  rcases hit : resolve c bson with _ | it
  · refine ⟨fun _ it h => ?_, fun _ => hrun none false⟩
    cases h
  · obtain ⟨e, rfl⟩ := resolve_element hit
    have hreach := monaryLoadItem_ok_iff_reaches e hc hn hrow
    constructor
    · rintro ⟨r, h⟩ it hit'
      cases hit'
      obtain ⟨loaded, hl, -⟩ := bind_eq_ok (x := monaryLoadItem e.iter c (toInt32 row)) h
      exact hreach.mp ⟨loaded, hl⟩
    · intro h
      obtain ⟨loaded, hl⟩ := hreach.mpr (h _ rfl)
      dsimp only
      rw [hl]
      exact hrun loaded loaded.isSome

/-- What a load of a column that returns leaves in the mask. -/
theorem loadColumn_masked {c : ColumnItem} {t : MonaryType} {n : Nat} {r : ColumnItem × Bool} (hc : c.Holds t n)
    (hrow : row < n) (h : loadColumn row bson c = .ok r) :
    r.2 = (cellPayload c bson).isSome ∧ r.1.masked row = !r.2 := by
  obtain ⟨m, hm, hml⟩ := hc.mask_eq
  have hmask {b : Bool} {mask : Option Bytes} (h : setMask c.mask row b = .ok mask) :
      mask = some (patch m row [if b then 0 else 1]) := by
    rw [hm, setMask, memcpyTo_ok (by rw [List.length_singleton]; omega)] at h
    exact (Except.ok.inj h).symm
  have hmasked (b : Bool) (c' : ColumnItem) (hc' : c'.mask = some (patch m row [if b then 0 else 1])) :
      c'.masked row = !b := by
    rw [ColumnItem.masked, hc', Option.getD_some, List.getD_eq_getElem?_getD,
      getElem?_patch (by rw [List.length_singleton]; omega), if_pos (by simp), Nat.sub_self]
    cases b <;> rfl
  unfold loadColumn at h
  rw [if_neg hc.field_ne] at h
  rcases hit : resolve c bson with _ | it <;> rw [hit] at h
  · obtain ⟨mask, hset, h⟩ := bind_eq_ok (x := setMask c.mask row false) h
    cases h
    rw [cellPayload_of_resolve_none hit]
    exact ⟨rfl, hmasked false _ (hmask hset)⟩
  · obtain ⟨e, rfl⟩ := resolve_element hit
    obtain ⟨loaded, hload, h⟩ := bind_eq_ok (x := monaryLoadItem e.iter c (toInt32 row)) h
    obtain ⟨mask, hset, h⟩ := bind_eq_ok (x := setMask c.mask row loaded.isSome) h
    cases h
    refine ⟨?_, hmasked loaded.isSome _ (hmask hset)⟩
    rw [monaryLoadItem_eq e hc.type_eq hc.width_lt] at hload
    obtain ⟨p, hp, hload⟩ := bind_eq_ok hload
    rw [cellPayload_of_resolve hc hit hp]
    rcases p with _ | src
    · cases hload
      rfl
    · rw [transfer] at hload
      split at hload
      · cases hload
      · obtain ⟨s, -, hs⟩ := bind_eq_ok (x := memcpyTo c.storage _ src) (f := fun s => .ok (some s)) hload
        cases hs
        rfl

theorem isSome_cellPayload_iff {c : ColumnItem} {t : MonaryType} {n : Nat} (hc : c.Holds t n)
    (hreach : ∀ it, resolve c bson = some it → Reaches t c.typeArg row it) :
    (cellPayload c bson).isSome ↔
      Represented c bson ∨ t = .bool ∧ ∃ it, resolve c bson = some it := by
  rcases hit : resolve c bson with _ | it
  · rw [cellPayload_of_resolve_none hit]
    simp [Represented, hit]
  · obtain ⟨e, rfl⟩ := resolve_element hit
    obtain ⟨ty, hty⟩ := Option.ne_none_iff_exists'.mp e.accepted.known
    obtain ⟨p, hp⟩ := payload_of_reaches (hreach e.iter hit)
    rw [cellPayload_of_resolve hc hit hp, payload_isSome_iff e hty hp, or_comm]
    simp [Represented, hc.type_eq, hit, hty]

/-- Every element a column resolves to can be loaded into the row, and the elements of the `bool` columns are
booleans. -/
def MaskCondition (cd : ColumnData) (row : Nat) (bson : Bson) : Prop :=
  ∀ c ∈ cd.columns, ∀ t it, MonaryType.ofCode c.type = some t → resolve c bson = some it →
    Reaches t c.typeArg row it ∧ (t = .bool → it.bsonType = some .bool)

omit [CImpl] in
theorem mapM_ok_of_forall {α β : Type} {f : α → C β} {l : List α} (h : ∀ a ∈ l, ∃ b, f a = .ok b) :
    ∃ bs, l.mapM f = .ok bs := by
  induction l with
  | nil => exact ⟨[], rfl⟩
  | cons a l ih =>
    obtain ⟨b, hb⟩ := h a List.mem_cons_self
    obtain ⟨bs, hbs⟩ := ih fun a' ha' => h a' (List.mem_cons_of_mem _ ha')
    refine ⟨b :: bs, ?_⟩
    rw [List.mapM_cons, hb]
    show (do let bs ← l.mapM f; return b :: bs : C (List β)) = _
    rw [hbs]
    rfl

/-- The law, of the loads of the columns. -/
theorem maskLaw_iff_columns (hcd : cd.Holds rows) (hrow : row < cd.numRows) :
    MaskLaw cd row bson ↔ ∀ c ∈ cd.columns, ∃ r, loadColumn row bson c = .ok r ∧
      ((cellPayload c bson).isSome ↔ Represented c bson) := by
  have hle : ¬ row > cd.numRows := by omega
  have hmask {c : ColumnItem} (hc : c ∈ cd.columns) {r : ColumnItem × Bool} (hr : loadColumn row bson c = .ok r) :
      r.2 = (cellPayload c bson).isSome ∧ r.1.masked row = !r.2 := by
    obtain ⟨t, ht⟩ := hcd.columns c hc
    exact loadColumn_masked ht (hrow.trans_le hcd.le) hr
  unfold MaskLaw monaryBsonToArrays
  simp only [if_neg hle]
  constructor
  · rintro ⟨cd', masked, h, hall, -⟩ c hc
    obtain ⟨rs, hrs, h⟩ := bind_eq_ok h
    cases h
    have hall' := forall₂_of_mapM hrs
    obtain ⟨i, hi, rfl⟩ := List.mem_iff_getElem.mp hc
    have hi' : i < rs.length := by rwa [← hall'.length_eq]
    have hr := hall'.get hi hi'
    have hrep := hall.get hi (by rwa [List.length_map])
    obtain ⟨hsome, hmasked⟩ := hmask hc hr
    refine ⟨_, hr, ?_⟩
    simp only [List.get_eq_getElem, List.getElem_map] at hrep hmasked
    rw [← hrep, ← hsome, hmasked]
    cases rs[i].2 <;> simp
  · intro h
    obtain ⟨rs, hrs⟩ := mapM_ok_of_forall fun c hc => (h c hc).imp fun r hr => hr.1
    have hall := forall₂_of_mapM hrs
    refine ⟨⟨cd.numRows, rs.map (·.1)⟩, _, by rw [hrs]; rfl, ?_, ?_⟩
    · rw [List.forall₂_map_right_iff]
      refine List.forall₂_iff_get.mpr ⟨hall.length_eq, fun i hi hi' => ?_⟩
      have hc : cd.columns.get ⟨i, hi⟩ ∈ cd.columns := List.get_mem _ _
      obtain ⟨hsome, hmasked⟩ := hmask hc (hall.get hi hi')
      obtain ⟨r, -, hrep⟩ := h _ hc
      rw [← hrep, ← hsome, hmasked]
      cases (rs.get ⟨i, hi'⟩).2 <;> simp
    · rw [List.countP_map]
      congr 1
      apply List.countP_congr
      intro r hr
      obtain ⟨i, hi, rfl⟩ := List.mem_iff_getElem.mp hr
      have hi' : i < cd.columns.length := by rwa [hall.length_eq]
      obtain ⟨-, hmasked⟩ := hmask (List.get_mem _ ⟨i, hi'⟩) (hall.get hi' hi)
      rw [Function.comp_apply]
      exact (congrArg (· = true) hmasked).symm.to_iff

/-- The mask of a row is right exactly when every load of the row returns and no `bool` column resolves
to an element that is no boolean. -/
theorem maskLaw_iff (hcd : cd.Holds rows) (hrows : rows < 2 ^ 32) (hrow : row < cd.numRows) :
    MaskLaw cd row bson ↔ MaskCondition cd row bson := by
  rw [maskLaw_iff_columns hcd hrow]
  have hlt := hrow.trans_le hcd.le
  constructor
  · intro h c hc t it htype hit
    obtain ⟨t', ht⟩ := hcd.columns c hc
    obtain rfl := Option.some.inj (htype.symm.trans ht.type_eq)
    obtain ⟨r, hr, hrep⟩ := h c hc
    have hreach := (loadColumn_ok_iff ht hrows hlt).mp ⟨r, hr⟩
    refine ⟨hreach it hit, ?_⟩
    rintro rfl
    obtain ⟨t', it', ty, ht', hit', hty, hbool⟩ :=
      hrep.mp ((isSome_cellPayload_iff ht hreach).mpr (Or.inr ⟨rfl, it, hit⟩))
    obtain rfl : MonaryType.bool = t' := Option.some.inj (htype.symm.trans ht')
    obtain rfl : it = it' := Option.some.inj (hit.symm.trans hit')
    rw [hty]
    simpa [represents] using hbool
  · intro h c hc
    obtain ⟨t, ht⟩ := hcd.columns c hc
    have hreach : ∀ it, resolve c bson = some it → Reaches t c.typeArg row it :=
      fun it hit => (h c hc t it ht.type_eq hit).1
    obtain ⟨r, hr⟩ := (loadColumn_ok_iff ht hrows hlt).mpr hreach
    refine ⟨r, hr, ?_⟩
    rw [isSome_cellPayload_iff ht hreach]
    constructor
    · rintro (hrep | ⟨rfl, it, hit⟩)
      · exact hrep
      · exact ⟨.bool, it, .bool, ht.type_eq, hit, (h c hc .bool it ht.type_eq hit).2 rfl, rfl⟩
    · exact Or.inl

end Mask

/-- A `bool` column on `d` of one row. -/
def boolColumns : ColumnData := ⟨1, [⟨some [0x64], MonaryType.bool.code, 0, some [0], some [1]⟩]⟩

theorem boolColumns_holds : boolColumns.Holds 1 := by
  refine ⟨le_refl _, ?_⟩
  intro c hc
  obtain rfl := List.mem_singleton.mp hc
  exact ⟨.bool, by decide, by decide, by decide, by decide, ⟨_, rfl, by decide⟩, ⟨_, rfl, by decide⟩⟩

/-- `{"d": {}}` unmasks a `bool` column on `d`. -/
theorem not_forall_maskLaw :
    ¬ ∀ (cd : ColumnData) (rows row : Nat) (bson : Bson), cd.Holds rows → rows < 2 ^ 32 → row < cd.numRows →
      @MaskLaw CImpl.x86 cd row bson := by
  intro h
  let _ := CImpl.x86
  have hc := (maskLaw_iff boolColumns_holds (by decide) (by decide)).mp
    (h boolColumns 1 0 emptyDocument boolColumns_holds (by decide) (by decide))
  exact absurd ((hc _ (List.mem_singleton.mpr rfl) .bool _ (by decide) rfl).2 rfl) (by decide)

/-- `{"d": true}`. -/
def trueDocument : Bson := ⟨[9, 0, 0, 0, 8, 0x64, 0, 1, 0], by decide⟩

/-- A `bool` and an `int8` column on `d` of three rows. -/
def boolAndInt : ColumnData := ⟨3, [freshColumn [0x64] .bool 0 3, freshColumn [0x64] .int8 0 3]⟩

theorem boolAndInt_holds : boolAndInt.Holds 3 := by
  refine ⟨le_refl _, ?_⟩
  intro c hc
  rcases List.mem_cons.mp hc with rfl | hc
  · exact ⟨.bool, freshColumn_holds _ 3 (by decide) nofun⟩
  · obtain rfl := List.mem_singleton.mp hc
    exact ⟨.int8, freshColumn_holds _ 3 (by decide) nofun⟩

/-- In row 1 the document unmasks the first of these columns. -/
theorem maskLaw_trueDocument : @MaskLaw CImpl.x86 boolAndInt 1 trueDocument := by
  refine (@maskLaw_iff CImpl.x86 _ _ _ _ boolAndInt_holds (by decide) (by decide)).mpr ?_
  intro c hc t it ht hit
  rcases List.mem_cons.mp hc with rfl | hc
  · obtain rfl : MonaryType.bool = t := Option.some.inj ht
    refine ⟨⟨nofun, nofun, nofun, nofun, fun _ _ => by decide⟩, fun _ => ?_⟩
    cases hit
    decide
  · obtain rfl := List.mem_singleton.mp hc
    obtain rfl : MonaryType.int8 = t := Option.some.inj ht
    exact ⟨⟨nofun, nofun, nofun, nofun, fun _ _ => by decide⟩, nofun⟩

end Monary
