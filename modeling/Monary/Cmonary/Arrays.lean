import Monary.Cmonary.Cell

/-!
# One document into one row

* `monaryBsonToArrays` : `monary_bson_to_arrays`, with `loadColumn` the body of its loop;
* `ColumnItem.put`, `cellPayload` : what a row is after the load of a document, in terms of the bytes the
  document has for the column; `loadColumn_eq`, `monaryBsonToArrays_eq`;
* `ColumnData.Clean` : the documents a row can be loaded from, `monaryBsonToArrays_ok_iff`.
-/

namespace Monary
open ByteSeq CInt

/-! ## `monary_bson_to_arrays` -/

/-- The element the path of a column leads to. -/
def resolve (citem : ColumnItem) (bson : Bson) : Option BsonIter :=
  citem.field.bind fun field => bsonIterFindDescendant (bsonIterInit bson) field

/-- `if (citem->mask != NULL) citem->mask[row] = !success`. -/
def setMask (mask : Option Bytes) (row : Nat) (success : Bool) : C (Option Bytes) :=
  match mask with
  | some m => (memcpyTo (some m) row [if success then 0 else 1]).map some
  | none => return none

/-- The body of the loop over the columns: the column after it, and `success`. -/
def loadColumn [CImpl] (row : Nat) (bson : Bson) (citem : ColumnItem) : C (ColumnItem × Bool) := do
  if citem.field = none then .error .undefined
  let loaded ←
    match resolve citem bson with
    | some descendant => monaryLoadItem descendant citem (toInt32 row)
    | none => pure none
  let mask ← setMask citem.mask row loaded.isSome
  return ({ citem with storage := loaded.orElse fun _ => citem.storage, mask := mask }, loaded.isSome)

/-- `monary_bson_to_arrays`: the column data after it and the number of columns that were masked. -/
def monaryBsonToArrays [CImpl] (coldata : Option ColumnData) (row : Nat) (bsonData : Option Bson) :
    C (Option ColumnData × Int) :=
  match coldata, bsonData with
  | some coldata, some bson =>
    if row > coldata.numRows then return (some coldata, -1)
    else do
      let columns ← coldata.columns.mapM (loadColumn row bson)
      return (some { coldata with columns := columns.map (·.1) }, columns.countP (!·.2))
  | coldata, _ => return (coldata, -1)

/-! ## What a row is after a load -/

/-- The arrays of the columns hold `rows` rows, not fewer than `num_rows`. -/
structure ColumnData.Holds (cd : ColumnData) (rows : Nat) : Prop where
  le : cd.numRows ≤ rows
  columns : ∀ c ∈ cd.columns, ∃ t, c.Holds t rows

/-- The load of the document into row `row` of the column returns. -/
def ColumnItem.Clean (c : ColumnItem) (row : Nat) (bson : Bson) : Prop :=
  ∀ t it, MonaryType.ofCode c.type = some t → resolve c bson = some it →
    Monary.Clean t c.typeArg row it

def ColumnData.Clean (cd : ColumnData) (row : Nat) (bson : Bson) : Prop :=
  ∀ c ∈ cd.columns, c.Clean row bson

/-- The bytes a document has for a column, `none` if the row is to be masked. -/
def cellPayload [CImpl] (c : ColumnItem) (bson : Bson) : Option Bytes := do
  let t ← MonaryType.ofCode c.type
  let it ← resolve c bson
  (payload t c.typeArg it).toOption.join

/-- Where `len` bytes for row `row` are put. -/
def ColumnItem.place (c : ColumnItem) (row len : Nat) : Nat :=
  match MonaryType.ofCode c.type with
  | some t => Monary.place t c.typeArg row len
  | none => 0

/-- The column with a value, or none, in row `row`. -/
def ColumnItem.put (c : ColumnItem) (row : Nat) (src : Option Bytes) : ColumnItem :=
  { c with
    storage := src.elim c.storage fun src => c.storage.map (patch · (c.place row src.length) src)
    mask := c.mask.map (patch · row [if src.isSome then 0 else 1]) }

theorem resolve_element {c : ColumnItem} {bson : Bson} {it : BsonIter} (h : resolve c bson = some it) :
    ∃ e : Element, e.iter = it := by
  obtain ⟨field, -, hf⟩ := Option.bind_eq_some_iff.mp h
  exact Element.ofFind hf

theorem mask_put (c : ColumnItem) (row : Nat) (src : Option Bytes) {m : Bytes} (hm : c.mask = some m) :
    (c.put row src).mask = some (patch m row [if src.isSome then 0 else 1]) := by
  rw [ColumnItem.put, hm]
  rfl

theorem masked_put_self {c : ColumnItem} {t : MonaryType} {n row : Nat} (hc : c.Holds t n)
    (hrow : row < n) (src : Option Bytes) : (c.put row src).masked row = src.isNone := by
  obtain ⟨m, hm, hml⟩ := hc.mask_eq
  rw [ColumnItem.masked, mask_put c row src hm, Option.getD_some, List.getD_eq_getElem?_getD,
    getElem?_patch (by rw [List.length_singleton]; omega), if_pos (by simp), Nat.sub_self]
  cases src <;> rfl

theorem masked_put_of_ne {c : ColumnItem} {t : MonaryType} {n row : Nat} (hc : c.Holds t n)
    (hrow : row < n) (src : Option Bytes) {i : Nat} (hi : i ≠ row) : (c.put row src).masked i = c.masked i := by
  obtain ⟨m, hm, hml⟩ := hc.mask_eq
  rw [ColumnItem.masked, mask_put c row src hm, Option.getD_some, List.getD_eq_getElem?_getD,
    getElem?_patch (by rw [List.length_singleton]; omega),
    if_neg (by rw [List.length_singleton]; omega), ColumnItem.masked, hm, Option.getD_some,
    List.getD_eq_getElem?_getD]

section Put
variable [CImpl] {c : ColumnItem} {t : MonaryType} {n row : Nat} {bson : Bson}

theorem cellPayload_of_resolve {it : BsonIter} {p : Option Bytes} (hc : c.Holds t n)
    (hit : resolve c bson = some it) (hp : payload t c.typeArg it = .ok p) : cellPayload c bson = p := by
  simp only [cellPayload, hc.type_eq, hit, hp, Option.bind_eq_bind, Option.bind_some, Except.toOption,
    Option.join_some]

theorem cellPayload_of_resolve_none (hit : resolve c bson = none) : cellPayload c bson = none := by
  simp [cellPayload, hit]

/-- The load of a column, in terms of the bytes the document has for it. -/
theorem loadColumn_eq (hc : c.Holds t n) (hrow : row < n) (h31 : row < 2 ^ 31)
    (hclean : c.Clean row bson) :
    loadColumn row bson c = .ok (c.put row (cellPayload c bson), (cellPayload c bson).isSome) := by
  obtain ⟨m, hm, hml⟩ := hc.mask_eq
  obtain ⟨s, hs, hsl⟩ := hc.storage_eq
  have hmask (b : Bool) : setMask c.mask row b = .ok (c.mask.map (patch · row [if b then 0 else 1])) := by
    rw [hm, setMask, memcpyTo_ok (by rw [List.length_singleton]; omega)]
    rfl
  unfold loadColumn
  rw [if_neg hc.field_ne]
  rcases hit : resolve c bson with _ | it
  · rw [cellPayload_of_resolve_none hit]
    show (do let mask ← setMask c.mask row false; _) = _
    rw [hmask]
    rfl
  · obtain ⟨e, rfl⟩ := resolve_element hit
    obtain ⟨p, hp, hload⟩ := monaryLoadItem_of_clean hc hrow (hclean t e.iter hc.type_eq hit)
    rw [cellPayload_of_resolve hc hit hp]
    dsimp only
    rw [toInt32_natCast h31, hload]
    show (do let mask ← setMask c.mask row _; _) = _
    rw [hmask]
    rcases p with _ | src
    · rfl
    · simp only [ColumnItem.put, hs, ColumnItem.place, hc.type_eq]
      rfl

/-- A load of a column that returns is clean. -/
theorem clean_of_loadColumn {r : ColumnItem × Bool} (hc : c.Holds t n) (h31 : row < 2 ^ 31)
    (h : loadColumn row bson c = .ok r) : c.Clean row bson := by
  intro t' it ht' hit
  obtain ⟨e, rfl⟩ := resolve_element hit
  unfold loadColumn at h
  rw [if_neg hc.field_ne, hit, toInt32_natCast h31] at h
  obtain ⟨loaded, hl, -⟩ := bind_eq_ok (x := monaryLoadItem e.iter c row) h
  exact clean_of_monaryLoadItem ht' hc.width_lt hl

/-! ### The row that was loaded and the others -/

/-- The bytes a document has for a column are the payload of its type. -/
theorem cellPayload_known {src : Bytes} (h : cellPayload c bson = some src) :
    ∃ (t : MonaryType) (e : Element), MonaryType.ofCode c.type = some t ∧ resolve c bson = some e.iter ∧
      payload t c.typeArg e.iter = .ok (some src) := by
  unfold cellPayload at h
  obtain ⟨t, ht, h⟩ := Option.bind_eq_some_iff.mp h
  obtain ⟨it, hit, h⟩ := Option.bind_eq_some_iff.mp h
  obtain ⟨e, rfl⟩ := resolve_element hit
  refine ⟨t, e, ht, hit, ?_⟩
  rcases hp : payload t c.typeArg e.iter with f | p <;> rw [hp] at h
  · cases h
  · rw [show p = some src from h]

theorem cellPayload_eq_some {src : Bytes} (hc : c.Holds t n) (h : cellPayload c bson = some src) :
    ∃ e : Element, resolve c bson = some e.iter ∧ payload t c.typeArg e.iter = .ok (some src) := by
  obtain ⟨t', e, ht, hit, hp⟩ := cellPayload_known h
  rw [hc.type_eq] at ht
  cases ht
  exact ⟨e, hit, hp⟩

theorem place_cellPayload_le {src : Bytes} (hc : c.Holds t n) (hrow : row < n)
    (h : cellPayload c bson = some src) :
    c.place row src.length + src.length ≤ n * t.itemSize c.typeArg := by
  obtain ⟨e, -, hp⟩ := cellPayload_eq_some hc h
  rw [ColumnItem.place, hc.type_eq]
  exact place_add_le hrow (length_payload_le hp)

theorem holds_put (hc : c.Holds t n) (hrow : row < n) :
    (c.put row (cellPayload c bson)).Holds t n := by
  obtain ⟨s, hs, hsl⟩ := hc.storage_eq
  obtain ⟨m, hm, hml⟩ := hc.mask_eq
  refine ⟨hc.type_eq, hc.width_lt, hc.width_pos, hc.field_ne, ?_, ?_⟩
  · rcases hp : cellPayload c bson with _ | src
    · exact ⟨s, hs, hsl⟩
    · refine ⟨patch s (c.place row src.length) src, ?_, ?_⟩
      · rw [ColumnItem.put, hs]
        rfl
      · rw [length_patch (by rw [hsl]; exact place_cellPayload_le hc hrow hp)]
        exact hsl
  · exact ⟨_, mask_put c row _ hm, by rw [length_patch (by rw [List.length_singleton]; omega)]; exact hml⟩

end Put

/-! ## The whole row -/

theorem mapM_eq_ok_map {α β : Type} {f : α → C β} {g : α → β} {l : List α}
    (h : ∀ a ∈ l, f a = .ok (g a)) : l.mapM f = .ok (l.map g) := by
  induction l with
  | nil => rfl
  | cons a l ih =>
    rw [List.mapM_cons, h a (by simp), List.map_cons]
    show (do let bs ← l.mapM f; return g a :: bs : C (List β)) = _
    rw [ih fun b hb => h b (by simp [hb])]
    rfl

theorem forall₂_of_mapM {α β : Type} {f : α → C β} {l : List α} {bs : List β} (h : l.mapM f = .ok bs) :
    List.Forall₂ (fun a b => f a = .ok b) l bs := by
  induction l generalizing bs with
  | nil =>
    cases h
    exact List.Forall₂.nil
  | cons a l ih =>
    rw [List.mapM_cons] at h
    rcases ha : f a with e | b
    · rw [ha] at h
      cases h
    · rw [ha] at h
      obtain ⟨bs', hl, h⟩ := bind_eq_ok (x := l.mapM f) h
      cases h
      exact List.Forall₂.cons ha (ih hl)

theorem forall_ok_of_mapM {α β : Type} {f : α → C β} {l : List α} {bs : List β}
    (h : l.mapM f = .ok bs) : ∀ a ∈ l, ∃ b, f a = .ok b := by
  intro a ha
  obtain ⟨i, hi, rfl⟩ := List.mem_iff_getElem.mp ha
  have hall := forall₂_of_mapM h
  exact ⟨_, hall.get hi (by rw [← hall.length_eq]; exact hi)⟩

section Row
variable [CImpl] {cd : ColumnData} {rows row : Nat} {bson : Bson}

/-- The column data with a document in row `row`. -/
def ColumnData.put (cd : ColumnData) (row : Nat) (bson : Bson) : ColumnData :=
  { cd with columns := cd.columns.map fun c => c.put row (cellPayload c bson) }

theorem monaryBsonToArrays_eq (hcd : cd.Holds rows) (hrow : row < cd.numRows) (h31 : row < 2 ^ 31)
    (hclean : cd.Clean row bson) :
    monaryBsonToArrays (some cd) row (some bson) =
      .ok (some (cd.put row bson), (cd.columns.countP fun c => (cellPayload c bson).isNone : Nat)) := by
  have hmap : cd.columns.mapM (loadColumn row bson) =
      .ok (cd.columns.map fun c => (c.put row (cellPayload c bson), (cellPayload c bson).isSome)) := by
    apply mapM_eq_ok_map
    intro c hc
    obtain ⟨t, ht⟩ := hcd.columns c hc
    exact loadColumn_eq ht (hrow.trans_le hcd.le) h31 (hclean c hc)
  unfold monaryBsonToArrays
  dsimp only
  rw [if_neg (by omega), hmap]
  show Except.ok (_, _) = _
  rw [List.map_map, List.countP_map]
  simp only [Function.comp_def, Option.not_isSome]
  rfl

theorem ColumnData.Holds.put (hcd : cd.Holds rows) (hrow : row < cd.numRows) :
    (cd.put row bson).Holds rows := by
  refine ⟨hcd.le, ?_⟩
  intro c' hc'
  obtain ⟨c, hc, rfl⟩ := List.mem_map.mp hc'
  obtain ⟨t, ht⟩ := hcd.columns c hc
  exact ⟨t, holds_put ht (hrow.trans_le hcd.le)⟩

/-- A document is loaded into a row exactly when it is clean there for every column. -/
theorem monaryBsonToArrays_ok_iff (hcd : cd.Holds rows) (hrow : row < cd.numRows) (h31 : row < 2 ^ 31) :
    (∃ r, monaryBsonToArrays (some cd) row (some bson) = .ok r) ↔ cd.Clean row bson := by
  constructor
  · rintro ⟨r, h⟩ c hc
    unfold monaryBsonToArrays at h
    dsimp only at h
    rw [if_neg (by omega)] at h
    obtain ⟨bs, hm, -⟩ := bind_eq_ok h
    obtain ⟨r', hr'⟩ := forall_ok_of_mapM hm c hc
    obtain ⟨t, ht⟩ := hcd.columns c hc
    exact clean_of_loadColumn ht h31 hr'
  · intro h
    exact ⟨_, monaryBsonToArrays_eq hcd hrow h31 h⟩

end Row

end Monary
