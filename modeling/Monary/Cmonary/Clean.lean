import Monary.Cmonary.Transfer

/-!
# The loads that return

A load comes to no result when a `length` column meets a code value (a `NULL` is dereferenced) or a
string whose characters do not lead to its NUL, and when the `int` product of row and width overflows.

* `Clean` : none of this happens; `monaryLoadItem_ok_iff` : these are exactly the loads that return;
* `monaryLoadItem_of_clean` : what they leave in the storage, the payload at `place`;
* `Taken`, `Reaches` : the same for a row that is passed as an `int`; `monaryLoadItem_far`;
* `represents` : the element types a column type stands for, and `payload_isSome_iff` : the payload is
  there for these, and for every element when the column is `bool`.
-/

namespace Monary
open ByteSeq CInt

/-- The load of the element into row `row` of a column returns. -/
structure Clean (t : MonaryType) (typeArg row : Nat) (it : BsonIter) : Prop where
  code : t = .length → it.bsonType ≠ some .code
  chars : t = .length → it.bsonType = some .utf8 → CharsEnd (it.ptr it.d2)
  string : t = .string → it.bsonType = some .utf8 → row * typeArg < 2 ^ 31
  binary : t = .binary → it.bsonType = some .binary → row * typeArg < 2 ^ 31

/-! ## The character loop -/

theorem charLoop_of_charsEnd {p : Bytes} (h : CharsEnd p) {n : Nat} (hn : p.length < n) (k : Nat) :
    ∃ l, charLoop n p k = .ok l := by
  induction h generalizing n k with
  | nul p =>
    obtain ⟨n, rfl⟩ := Nat.exists_eq_succ_of_ne_zero (Nat.ne_zero_of_lt hn)
    exact ⟨k, by rw [charLoop, if_pos rfl]⟩
  | next c p hc hs _ ih =>
    obtain ⟨n, rfl⟩ := Nat.exists_eq_succ_of_ne_zero (Nat.ne_zero_of_lt hn)
    rw [charLoop, if_neg hc, if_neg hs]
    refine ih ?_ (k + 1)
    have := length_bsonUtf8NextChar (p := p) hs
    rw [List.length_cons] at hn
    omega

theorem charsEnd_of_charLoop {n : Nat} {p : Bytes} {k l : Nat} (h : charLoop n p k = .ok l) :
    CharsEnd p := by
  induction n generalizing p k with
  | zero => cases h
  | succ n ih =>
    rcases p with _ | ⟨c, p⟩
    · cases h
    · rw [charLoop] at h
      by_cases hc : c = 0
      · rw [hc]
        exact .nul p
      · rw [if_neg hc] at h
        by_cases hs : utf8Sequence c = 0
        · rw [if_pos hs] at h
          cases h
        · rw [if_neg hs] at h
          exact .next c p hc hs (ih h)

theorem lengthValue_ok_iff (it : BsonIter) :
    (∃ l, lengthValue it = .ok l) ↔
      it.bsonType ≠ some .code ∧ (it.bsonType = some .utf8 → CharsEnd (it.ptr it.d2)) := by
  unfold lengthValue
  by_cases hu : it.bsonType = some .utf8
  · rw [hu, bsonIterUtf8, if_pos hu]
    dsimp only
    constructor
    · rintro ⟨l, hl⟩
      refine ⟨by simp, fun _ => ?_⟩
      rcases hc : charLoop ((it.ptr it.d2).length + 1) (it.ptr it.d2) 0 with f | n
      · rw [hc] at hl
        cases hl
      · exact charsEnd_of_charLoop hc
    · rintro ⟨-, h⟩
      obtain ⟨n, hn⟩ := charLoop_of_charsEnd (h rfl) (Nat.lt_succ_self _) 0
      exact ⟨some n, by rw [hn]; rfl⟩
  · have hnone : (bsonIterUtf8 it).1 = none := by rw [bsonIterUtf8, if_neg hu]
    rw [hnone]
    generalize it.bsonType = ty at hu ⊢
    rcases ty with _ | ty
    · exact ⟨fun _ => ⟨by simp, fun h => absurd h hu⟩, fun _ => ⟨_, rfl⟩⟩
    · cases ty
      case utf8 => exact absurd rfl hu
      case code =>
        constructor
        · rintro ⟨l, hl⟩
          cases hl
        · rintro ⟨h, -⟩
          exact absurd rfl h
      all_goals exact ⟨fun _ => ⟨by simp, fun h => absurd h hu⟩, fun _ => ⟨_, rfl⟩⟩

theorem lengthValue_of_payload [CImpl] {it : BsonIter} {w : Nat} {p : Option Bytes}
    (h : payload .length w it = .ok p) : ∃ l, lengthValue it = .ok l := by
  simp only [payload] at h
  rcases hl : lengthValue it with f | l
  · rw [hl] at h
    cases h
  · exact ⟨l, rfl⟩

/-- A load that has a payload and a product that fits is clean. -/
theorem clean_of_payload [CImpl] {it : BsonIter} {t : MonaryType} {w row : Nat} {p : Option Bytes}
    (h : payload t w it = .ok p)
    (hs : t = .string → it.bsonType = some .utf8 → row * w < 2 ^ 31)
    (hb : t = .binary → it.bsonType = some .binary → row * w < 2 ^ 31) : Clean t w row it := by
  refine ⟨?_, ?_, hs, hb⟩
  · rintro rfl
    exact ((lengthValue_ok_iff it).mp (lengthValue_of_payload h)).1
  · rintro rfl
    exact ((lengthValue_ok_iff it).mp (lengthValue_of_payload h)).2

/-! ## The types an element is loaded from -/

theorem sizedValue_string {e : Element} (ht : e.iter.bsonType = some .utf8) :
    sizedValue .string e.iter = some (slice e.iter.raw e.iter.d2 (e.iter.uint32At e.iter.d1 - 1)) := by
  have hu := (e.accepted.utf8 e.small ht).1
  unfold sizedValue
  dsimp only
  rw [hu, Option.map_some, slice, BsonIter.ptr]

theorem sizedValue_isSome (e : Element) (t : MonaryType) :
    (sizedValue t e.iter).isSome ↔ (t = .string ∧ e.iter.bsonType = some .utf8) ∨
      (t = .binary ∧ e.iter.bsonType = some .binary) ∨ (t = .bson ∧ e.iter.bsonType = some .document) := by
  unfold sizedValue
  cases t
  case string => rw [Option.isSome_map, bsonIterUtf8_isSome]; simp
  case binary => rw [Option.isSome_map, bsonIterBinary_isSome]; simp
  case bson => rw [Option.isSome_map, bsonIterDocument_isSome]; simp
  all_goals simp

/-- The value of a document element is its bytes. -/
theorem sizedValue_document {e : Element} (ht : e.iter.bsonType = some .document) :
    ∃ v, sizedValue .bson e.iter = some v ∧ v.length = (bsonIterDocument e.iter).2 := by
  have h := (e.accepted.documentData (by simp [ht])).1
  refine ⟨(e.iter.ptr e.iter.d1).take (e.iter.uint32At e.iter.d1), ?_, ?_⟩
  · unfold sizedValue bsonIterDocument
    rw [if_pos ht]
    rfl
  · unfold bsonIterDocument
    rw [if_pos ht, List.length_take]
    exact Nat.min_eq_left h

/-- The element types whose values a column of a type holds. -/
def represents : MonaryType → BsonType → Bool
  | .objectid, ty => ty = .oid
  | .bool, ty => ty = .bool
  | .date, ty => ty = .dateTime
  | .timestamp, ty => ty = .timestamp
  | .string, ty => ty = .utf8
  | .binary, ty => ty = .binary
  | .bson, ty => ty = .document
  | .type, _ => true
  | .size, ty | .length, ty => ty ∈ [.utf8, .code, .binary, .document, .array]
  | _, ty => ty ∈ [.double, .int32, .int64]

/-- A load has something to copy for the elements the column represents, and for every element when the
column is `bool`. -/
theorem payload_isSome_iff [CImpl] (e : Element) {t : MonaryType} {w : Nat} {ty : BsonType}
    (hty : e.iter.bsonType = some ty) {p : Option Bytes} (h : payload t w e.iter = .ok p) :
    p.isSome ↔ t = .bool ∨ represents t ty = true := by
  have hok {q : Option Bytes} (h : (return q : C (Option Bytes)) = .ok p) : p = q :=
    (Except.ok.inj h).symm
  have hint {n : IntType} : (intPayload n e.iter).isSome ↔ ty ∈ [BsonType.double, .int32, .int64] := by
    unfold intPayload
    rw [hty]
    cases ty <;> simp
  have hfloat {n : FloatType} : (floatPayload n e.iter).isSome ↔ ty ∈ [BsonType.double, .int32, .int64] := by
    unfold floatPayload
    rw [hty]
    cases ty <;> simp
  have hsized := sizedValue_isSome e t
  cases t
  case string | binary | bson =>
    rw [hok h, Option.isSome_map, hsized, hty]
    cases ty <;> simp [represents]
  case objectid =>
    rw [hok h, Option.isSome_map, bsonIterOid, hty]
    cases ty <;> simp [represents]
  case bool => simp [hok h]
  case type => simp [hok h, represents]
  case date | timestamp =>
    rw [hok h, hty]
    cases ty <;> simp [represents]
  case size =>
    rw [hok h, Option.isSome_map, sizeValue, hty]
    cases ty <;> simp [represents]
  case length =>
    simp only [payload] at h
    rcases hl : lengthValue e.iter with f | l <;> rw [hl] at h
    · cases h
    · rw [← Except.ok.inj h, Option.isSome_map]
      unfold lengthValue bsonIterRecurse at hl
      rw [hty] at hl
      clear hsized
      cases ty
      case utf8 | code =>
        rcases hu : (bsonIterUtf8 e.iter).1 with _ | d <;> rw [hu] at hl
        · cases hl
        · rcases hc : charLoop (d.length + 1) d 0 with f | n <;> simp only [hc] at hl <;> cases hl
          simp [represents]
      all_goals cases hl; simp [represents]
  case float32 | float64 =>
    rw [hok h, hfloat]
    simp [represents]
  all_goals
    rw [hok h, hint]
    simp [represents]

/-! ## What a load leaves behind -/

/-- Where a payload of `len` bytes of row `row` is put. -/
def place (t : MonaryType) (typeArg row len : Nat) : Nat :=
  if t = .bson then row * len % 2 ^ 32 else row * t.itemSize typeArg

theorem place_add_le {t : MonaryType} {w row n len : Nat} (hrow : row < n) (hlen : len ≤ t.itemSize w) :
    place t w row len + len ≤ n * t.itemSize w := by
  have h1 : row * len ≤ row * t.itemSize w := Nat.mul_le_mul_left _ hlen
  have h2 := row_add_le (w := t.itemSize w) hrow
  have h3 : row * len % 2 ^ 32 ≤ row * len := Nat.mod_le _ _
  unfold place
  split <;> omega

theorem mulInt32_row {row w : Nat} (hw : w < 2 ^ 32) (h : row * w < 2 ^ 31) :
    mulInt32 row (toInt32 w) = some ((row * w : Nat) : Int) := by
  by_cases h31 : w < 2 ^ 31
  · rw [mulInt32_eq_some, toInt32_natCast h31]
    refine ⟨by push_cast; rfl, ?_⟩
    rw [← Nat.cast_mul]
    omega
  · have h0 : row = 0 := by
      by_contra hr
      have := Nat.le_mul_of_pos_left w (Nat.pos_of_ne_zero hr)
      omega
    rw [h0, mulInt32_eq_some]
    simp

/-- A product that does not overflow and is no negative offset is the product of row and width. -/
theorem mulInt32_row_eq_some {row w : Nat} {off : Int} (hw : w < 2 ^ 32)
    (h : mulInt32 row (toInt32 w) = some off) (h0 : 0 ≤ off) : row * w < 2 ^ 31 := by
  have hlt := (mulInt32_eq_some.mp h).2.2
  rw [(mulInt32_eq_some.mp h).1] at h0
  by_cases h31 : w < 2 ^ 31
  · rw [toInt32_natCast h31, ← Nat.cast_mul] at hlt
    omega
  · rw [toInt32_natCast_of_le (by omega) hw] at h0
    have hr : row = 0 := by
      by_contra hr
      have : (0 : Int) < row := by omega
      have := mul_neg_of_pos_of_neg this (show (w : Int) - 2 ^ 32 < 0 by omega)
      omega
    rw [hr, Nat.zero_mul]
    decide

theorem destOffset_of_clean [CImpl] {e : Element} {t : MonaryType} {w row : Nat} {src : Bytes}
    (hw : w < 2 ^ 32) (hc : Clean t w row e.iter) (hp : payload t w e.iter = .ok (some src)) :
    destOffset t w row src.length = some ((place t w row src.length : Nat) : Int) := by
  have hsome (hs : t.sized = true) : (sizedValue t e.iter).isSome := by
    rw [payload_of_sized hs] at hp
    rw [← Option.isSome_map (f := (·.take w)), Except.ok.inj hp]
    rfl
  cases t
  case string =>
    refine mulInt32_row hw (hc.string rfl ?_)
    simpa using (sizedValue_isSome e .string).mp (hsome rfl)
  case binary =>
    refine mulInt32_row hw (hc.binary rfl ?_)
    simpa using (sizedValue_isSome e .binary).mp (hsome rfl)
  case bson =>
    show some ((toUInt32 ((row : Int) * src.length) : Nat) : Int) = _
    rw [← Nat.cast_mul, toUInt32_natCast]
    rfl
  all_goals
    unfold destOffset place
    rw [if_neg (by simp)]
    push_cast
    rfl

theorem exists_payload_of_clean [CImpl] {it : BsonIter} {t : MonaryType} {w row : Nat}
    (h : Clean t w row it) : ∃ p, payload t w it = .ok p := by
  cases t
  case length =>
    obtain ⟨l, hl⟩ := (lengthValue_ok_iff it).mpr ⟨h.code rfl, h.chars rfl⟩
    exact ⟨l.map (leBytes 4), by simp only [payload, hl]; rfl⟩
  all_goals exact ⟨_, rfl⟩

/-- A clean load copies the payload, if there is one, to its place. -/
theorem monaryLoadItem_of_clean [CImpl] {e : Element} {c : ColumnItem} {t : MonaryType} {n row : Nat}
    (hc : c.Holds t n) (hrow : row < n) (h : Clean t c.typeArg row e.iter) :
    ∃ p, payload t c.typeArg e.iter = .ok p ∧
      monaryLoadItem e.iter c row = .ok (p.map fun src =>
        patch (c.storage.getD []) (place t c.typeArg row src.length) src) := by
  obtain ⟨p, hp⟩ := exists_payload_of_clean h
  refine ⟨p, hp, ?_⟩
  rw [monaryLoadItem_eq e hc.type_eq hc.width_lt, hp]
  rcases p with _ | src
  · rfl
  · obtain ⟨s, hs, hlen⟩ := hc.storage_eq
    have hplace := place_add_le (w := c.typeArg) hrow (length_payload_le hp)
    show transfer t c row (some src) = _
    rw [transfer, destOffset_of_clean hc.width_lt h hp]
    dsimp only
    rw [hs, memcpyTo_ok (by omega)]
    rfl

/-- A load that returns is clean. -/
theorem clean_of_monaryLoadItem [CImpl] {e : Element} {c : ColumnItem} {t : MonaryType} {row : Nat}
    {r : Option Bytes} (ht : MonaryType.ofCode c.type = some t) (hw : c.typeArg < 2 ^ 32)
    (h : monaryLoadItem e.iter c row = .ok r) : Clean t c.typeArg row e.iter := by
  rw [monaryLoadItem_eq e ht hw] at h
  rcases hp : payload t c.typeArg e.iter with f | p
  · rw [hp] at h
    cases h
  · -- a value that is copied went to an offset that exists and is not negative
    have hmul (hd : ∀ len, destOffset t c.typeArg row len = mulInt32 row (toInt32 c.typeArg))
        (hsome : p.isSome) : row * c.typeArg < 2 ^ 31 := by
      obtain ⟨src, rfl⟩ := Option.isSome_iff_exists.mp hsome
      rw [hp] at h
      change transfer t c row (some src) = _ at h
      rw [transfer, hd] at h
      rcases hm : mulInt32 row (toInt32 c.typeArg) with _ | off <;> rw [hm] at h
      · cases h
      · refine mulInt32_row_eq_some hw hm ?_
        dsimp only at h
        rcases hs : c.storage with _ | d <;> rw [hs] at h
        · cases h
        · rcases hcpy : memcpyTo (some d) off src with f | d' <;> rw [hcpy] at h
          · cases h
          · exact (memcpyTo_eq_ok hcpy).1
    refine clean_of_payload hp ?_ ?_
    · rintro rfl hty
      exact hmul (fun _ => rfl) ((payload_isSome_iff e hty hp).mpr (by decide))
    · rintro rfl hty
      exact hmul (fun _ => rfl) ((payload_isSome_iff e hty hp).mpr (by decide))

theorem monaryLoadItem_ok_iff [CImpl] (e : Element) {c : ColumnItem} {t : MonaryType} {n row : Nat}
    (hc : c.Holds t n) (hrow : row < n) :
    (∃ r, monaryLoadItem e.iter c row = .ok r) ↔ Clean t c.typeArg row e.iter := by
  constructor
  · rintro ⟨r, h⟩
    exact clean_of_monaryLoadItem hc.type_eq hc.width_lt h
  · intro h
    obtain ⟨p, -, hp⟩ := monaryLoadItem_of_clean hc hrow h
    exact ⟨_, hp⟩

/-- The storage after a load that returned 1. -/
theorem monaryLoadItem_eq_some [CImpl] {e : Element} {c : ColumnItem} {t : MonaryType} {n row : Nat}
    {s s' : Bytes} (hc : c.Holds t n) (hs : c.storage = some s) (hrow : row < n)
    (h : monaryLoadItem e.iter c row = .ok (some s')) :
    ∃ src, payload t c.typeArg e.iter = .ok (some src) ∧
      place t c.typeArg row src.length + src.length ≤ s.length ∧
      s' = patch s (place t c.typeArg row src.length) src := by
  obtain ⟨p, hp, hload⟩ :=
    monaryLoadItem_of_clean hc hrow (clean_of_monaryLoadItem hc.type_eq hc.width_lt h)
  rw [hload] at h
  obtain ⟨src, rfl, rfl⟩ := Option.map_eq_some_iff.mp (Except.ok.inj h)
  obtain ⟨s₀, hs₀, hlen⟩ := hc.storage_eq
  obtain rfl : s = s₀ := Option.some.inj (hs.symm.trans hs₀)
  refine ⟨src, hp, ?_, by rw [hs]; rfl⟩
  rw [hlen]
  exact place_add_le hrow (length_payload_le hp)

/-! ## Rows as `int`s

The row is an `int` to the loaders; one from `2^31` on is negative there. -/

/-- The column takes the element: it is of a type that the column represents, or the column is `bool`; and what a
`length` column counts has an end. -/
structure Taken (t : MonaryType) (it : BsonIter) : Prop where
  type : t = .bool ∨ ∃ ty, it.bsonType = some ty ∧ represents t ty = true
  code : t = .length → it.bsonType ≠ some .code
  chars : t = .length → it.bsonType = some .utf8 → CharsEnd (it.ptr it.d2)

/-- The load of the element into row `row`, which is passed as an `int`, returns. -/
structure Reaches (t : MonaryType) (typeArg row : Nat) (it : BsonIter) : Prop where
  code : t = .length → it.bsonType ≠ some .code
  chars : t = .length → it.bsonType = some .utf8 → CharsEnd (it.ptr it.d2)
  string : t = .string → it.bsonType = some .utf8 →
    0 ≤ toInt32 row * toInt32 typeArg ∧ toInt32 row * toInt32 typeArg < 2 ^ 31
  binary : t = .binary → it.bsonType = some .binary →
    0 ≤ toInt32 row * toInt32 typeArg ∧ toInt32 row * toInt32 typeArg < 2 ^ 31
  near : t.sized = false → Taken t it → row < 2 ^ 31

/-- The elements that a column takes are those with a payload. -/
theorem taken_iff [CImpl] (e : Element) (t : MonaryType) (w : Nat) :
    Taken t e.iter ↔ ∃ src, payload t w e.iter = .ok (some src) := by
  obtain ⟨ty, hty⟩ := Option.ne_none_iff_exists'.mp e.accepted.known
  constructor
  · intro h
    have hclean : Clean t w 0 e.iter := ⟨h.code, h.chars, by simp, by simp⟩
    obtain ⟨p, hp⟩ := exists_payload_of_clean hclean
    have hsome : p.isSome := by
      refine (payload_isSome_iff e hty hp).mpr (h.type.imp_right ?_)
      rintro ⟨ty', hty', hrep⟩
      obtain rfl := Option.some.inj (hty.symm.trans hty')
      exact hrep
    obtain ⟨src, rfl⟩ := Option.isSome_iff_exists.mp hsome
    exact ⟨src, hp⟩
  · rintro ⟨src, hp⟩
    have hclean : Clean t w 0 e.iter := clean_of_payload hp (by simp) (by simp)
    exact ⟨((payload_isSome_iff e hty hp).mp rfl).imp_right fun h => ⟨ty, hty, h⟩, hclean.code, hclean.chars⟩

/-- The offset of a column without a width. -/
theorem destOffset_of_not_sized {t : MonaryType} (hs : t.sized = false) (w : Nat) (idx : Int) (len : Nat) :
    destOffset t w idx len = some (idx * t.itemSize w) := by
  cases t <;> first | rfl | cases hs

/-- The value of a column without a width goes before the storage where its row is a negative `int`. -/
theorem monaryLoadItem_far [CImpl] {e : Element} {c : ColumnItem} {t : MonaryType} {n row : Nat} (hc : c.Holds t n)
    (hs : t.sized = false) (h31 : 2 ^ 31 ≤ row) (h32 : row < 2 ^ 32) (htaken : Taken t e.iter) :
    monaryLoadItem e.iter c (toInt32 row) = .error .undefined := by
  obtain ⟨src, hp⟩ := (taken_iff e t c.typeArg).mp htaken
  obtain ⟨s, hstorage, -⟩ := hc.storage_eq
  have hneg : (toInt32 row) * (t.itemSize c.typeArg : Int) < 0 := by
    rw [toInt32_natCast_of_le h31 h32]
    have hpos := MonaryType.itemSize_pos hc.width_pos
    exact mul_neg_of_neg_of_pos (by omega) (by omega)
  rw [monaryLoadItem_eq e hc.type_eq hc.width_lt, hp]
  show transfer t c (toInt32 row) (some src) = _
  rw [transfer, destOffset_of_not_sized hs]
  dsimp only
  rw [hstorage, memcpyTo, if_neg (by omega)]
  rfl

/-- An element that the column does not take leaves it as it is, in every row. -/
theorem monaryLoadItem_of_not_taken [CImpl] {e : Element} {c : ColumnItem} {t : MonaryType}
    (ht : MonaryType.ofCode c.type = some t) (hw : c.typeArg < 2 ^ 32) (htaken : ¬ Taken t e.iter) (idx : Int) :
    monaryLoadItem e.iter c idx = payload t c.typeArg e.iter := by
  rw [monaryLoadItem_eq e ht hw]
  rcases hp : payload t c.typeArg e.iter with f | (_ | src)
  · rfl
  · rfl
  · exact absurd ((taken_iff e t c.typeArg).mpr ⟨src, hp⟩) htaken

/-- The row of a column with a width is no negative `int` where the product of the two does not overflow. -/
theorem lt_of_mul_lt {t : MonaryType} {c : ColumnItem} {n row : Nat} (hc : c.Holds t n) (hs : t.sized = true)
    (hmul : t.sized = true → row * c.typeArg < 2 ^ 31) : row < 2 ^ 31 :=
  (Nat.le_mul_of_pos_right row (hc.width_pos hs)).trans_lt (hmul hs)

end Monary
