import Monary.Cmonary.Cell

/-!
# Values and their cells

* `OffsetExact`, `offsetExact_iff` : the loaders of strings and binaries copy the value to the product of row and
  width exactly when the product is an `int`;
* `IntExact`, `intExact_iff` : the cell of an integer column holds the value of a number exactly when
  the type of the column has it; the conversions in the loaders do not look at the range;
* `CellDecodes`, `cellRoundTrips_iff` : the cells of the columns that keep a value as it is.
-/

namespace Monary
open ByteSeq CInt Ieee754

/-! ## Offsets -/

namespace BsonIter
variable (it : BsonIter)

/-- The bytes of a string behind its length, without the NUL at its end. -/
def stringContent : Bytes := slice it.raw (it.d1 + 4) (it.uint32At it.d1 - 1)

/-- The bytes of a binary behind length and subtype, and behind the inner length of the deprecated subtype. -/
def binaryContent : Bytes :=
  if it.byte (it.d1 + 4) = binaryDeprecated then slice it.raw (it.d1 + 9) (it.uint32At it.d1 - 4)
  else slice it.raw (it.d1 + 5) (it.uint32At it.d1)

end BsonIter

theorem sizedValue_binary {e : Element} (ht : e.iter.bsonType = some .binary) :
    sizedValue .binary e.iter = some e.iter.binaryContent := by
  obtain ⟨h2, h3, -, hsub⟩ := e.accepted.binary ht
  have hlt := e.iter.uint32At_lt e.iter.d1
  unfold sizedValue bsonIterBinary BsonIter.binaryContent
  rw [if_pos ht, ← h2]
  dsimp only
  by_cases hd : e.iter.byte e.iter.d2 = binaryDeprecated
  · have hu : toUInt32 ((e.iter.uint32At e.iter.d1 : Int) - 4) = e.iter.uint32At e.iter.d1 - 4 := by
      have := hsub hd
      rw [toUInt32]
      omega
    rw [if_pos hd, if_pos hd, Option.map_some, hu, slice, BsonIter.ptr, List.drop_drop, h3]
  · rw [if_neg hd, if_neg hd, Option.map_some, slice, BsonIter.ptr, h3]

/-- Whatever the storage of `size` bytes holds, the load copies the first `w` bytes of the value to the offset, and
nothing else. -/
def OffsetExact (load : Bytes → C (Option Bytes)) (size off w : Nat) (value : Bytes) : Prop :=
  ∀ s : Bytes, s.length = size → load s = .ok (some (patch s off (value.take w)))

theorem mulInt32_row_iff {row w : Nat} (hw : w < 2 ^ 31) :
    mulInt32 row (toInt32 w) = some ((row * w : Nat) : Int) ↔ row * w < 2 ^ 31 := by
  refine ⟨fun h => ?_, mulInt32_row (by omega)⟩
  have := (mulInt32_eq_some.mp h).2.2
  rw [toInt32_natCast hw, ← Nat.cast_mul] at this
  omega

/-- The copy of a sized value. -/
theorem offsetExact_transfer {t : MonaryType} {c : ColumnItem} {n row : Nat} (value : Bytes)
    (ht : t = .string ∨ t = .binary) (hc : c.Holds t n) (hrow : row < n) (hw : c.typeArg < 2 ^ 31) :
    OffsetExact (fun s => transfer t { c with storage := some s } row (some (value.take c.typeArg)))
      (n * c.typeArg) (row * c.typeArg) c.typeArg value ↔ row * c.typeArg < 2 ^ 31 := by
  have hdest : destOffset t c.typeArg row (value.take c.typeArg).length = mulInt32 row (toInt32 c.typeArg) := by
    rcases ht with rfl | rfl <;> rfl
  constructor
  · intro h
    by_contra hge
    have hnone : mulInt32 row (toInt32 c.typeArg) = none := by
      unfold mulInt32
      rw [toInt32_natCast hw, ← Nat.cast_mul]
      exact if_neg (by omega)
    have hs := h (List.replicate (n * c.typeArg) 0) List.length_replicate
    dsimp only at hs
    rw [transfer_none (c := { c with storage := some _ }) (hdest.trans hnone)] at hs
    cases hs
  · intro hlt s hs
    have hb := row_add_le (w := c.typeArg) hrow
    have htake : (value.take c.typeArg).length ≤ c.typeArg := List.length_take_le _ _
    dsimp only
    rw [transfer_some (c := { c with storage := some s }) (hdest.trans ((mulInt32_row_iff hw).mpr hlt)),
      memcpyTo_ok (by omega)]
    rfl

theorem offsetExact_string {e : Element} {c : ColumnItem} {n row : Nat} (hc : c.Holds .string n)
    (hw : c.typeArg < 2 ^ 31) (hrow : row < n) (hty : e.iter.bsonType = some .utf8) :
    OffsetExact (fun s => monaryLoadStringValue e.iter { c with storage := some s } row) (n * c.typeArg)
      (row * c.typeArg) c.typeArg e.iter.stringContent ↔ row * c.typeArg < 2 ^ 31 := by
  rw [← offsetExact_transfer e.iter.stringContent (Or.inl rfl) hc hrow hw]
  have hload (s : Bytes) : monaryLoadStringValue e.iter { c with storage := some s } row =
      transfer .string { c with storage := some s } row (some (e.iter.stringContent.take c.typeArg)) := by
    rw [monaryLoadStringValue_eq (c := { c with storage := some s }) e.accepted e.small hc.width_lt, sizedValue_string hty,
      (e.accepted.string (by simp [hty])).1]
    rfl
  simp only [hload]

theorem offsetExact_binary {e : Element} {c : ColumnItem} {n row : Nat} (hc : c.Holds .binary n)
    (hw : c.typeArg < 2 ^ 31) (hrow : row < n) (hty : e.iter.bsonType = some .binary) :
    OffsetExact (fun s => monaryLoadBinaryValue e.iter { c with storage := some s } row) (n * c.typeArg)
      (row * c.typeArg) c.typeArg e.iter.binaryContent ↔ row * c.typeArg < 2 ^ 31 := by
  rw [← offsetExact_transfer e.iter.binaryContent (Or.inr rfl) hc hrow hw]
  have hload (s : Bytes) : monaryLoadBinaryValue e.iter { c with storage := some s } row =
      transfer .binary { c with storage := some s } row (some (e.iter.binaryContent.take c.typeArg)) := by
    rw [monaryLoadBinaryValue_eq (c := { c with storage := some s }) e.accepted hc.width_lt, sizedValue_binary hty]
    rfl
  simp only [hload]

/-- The loaders of strings and binaries copy the first `type_arg` bytes of a value to the product of row and `type_arg`
exactly where the product is an `int`. -/
theorem offsetExact_iff (e : Element) {c : ColumnItem} {t : MonaryType} {n row : Nat} (hc : c.Holds t n)
    (hn : n < 2 ^ 31) (hw : c.typeArg < 2 ^ 31) (hrow : row < n) :
    (t = .string → e.iter.bsonType = some .utf8 →
      (OffsetExact (fun s => monaryLoadStringValue e.iter { c with storage := some s } (toInt32 row)) (n * c.typeArg)
        (row * c.typeArg) c.typeArg e.iter.stringContent ↔ row * c.typeArg < 2 ^ 31)) ∧
    (t = .binary → e.iter.bsonType = some .binary →
      (OffsetExact (fun s => monaryLoadBinaryValue e.iter { c with storage := some s } (toInt32 row)) (n * c.typeArg)
        (row * c.typeArg) c.typeArg e.iter.binaryContent ↔ row * c.typeArg < 2 ^ 31)) := by
  rw [toInt32_natCast (hrow.trans hn)]
  refine ⟨?_, ?_⟩
  · rintro rfl hty
    exact offsetExact_string hc hw hrow hty
  · rintro rfl hty
    exact offsetExact_binary hc hw hrow hty

/-- `{"d": "a"}`. -/
def stringDocument : Bson := ⟨[14, 0, 0, 0, 2, 0x64, 0, 2, 0, 0, 0, 0x61, 0, 0], by decide⟩

/-- A column `string:n` on `d`. -/
def stringColumn (width rows : Nat) : ColumnItem := freshColumn [0x64] .string width rows

theorem stringColumn_holds {width : Nat} (hw : width < 2 ^ 32) (h0 : 0 < width) (rows : Nat) :
    (stringColumn width rows).Holds .string rows :=
  freshColumn_holds _ rows hw fun _ => h0

/-- Row 2 of a column whose strings have a gibibyte. -/
theorem not_forall_offsetExact :
    ¬ ∀ (e : Element) (c : ColumnItem) (n row : Nat), c.Holds .string n → n < 2 ^ 31 → 1 ≤ c.typeArg →
      c.typeArg < 2 ^ 31 → row < n → e.iter.bsonType = some .utf8 →
      OffsetExact (fun s => monaryLoadStringValue e.iter { c with storage := some s } (toInt32 row)) (n * c.typeArg)
        (row * c.typeArg) c.typeArg e.iter.stringContent := by
  intro h
  have hc := stringColumn_holds (by norm_num : 2 ^ 30 < 2 ^ 32) (by norm_num) 3
  have hty : (Element.find stringDocument [0x64] rfl).iter.bsonType = some .utf8 := by decide
  have hexact := h (.find stringDocument [0x64] rfl) _ _ 2 hc (by decide) (by decide) (by decide) (by decide) hty
  rw [toInt32_natCast (by decide)] at hexact
  have hlt := (offsetExact_string (e := .find stringDocument [0x64] rfl) hc (by decide) (show 2 < 3 by decide) hty).mp
    hexact
  exact absurd hlt (by decide)

/-- `"a"` goes to bytes 6 to 11 of a storage of two rows of six bytes. -/
theorem offsetExact_stringColumn :
    OffsetExact (fun s => monaryLoadStringValue (Element.find stringDocument [0x64] rfl).iter
      { stringColumn 6 2 with storage := some s } (toInt32 (1 : Nat))) 12 6 6 [0x61] :=
  ((offsetExact_iff (Element.find stringDocument [0x64] rfl)
    (stringColumn_holds (by decide : 6 < 2 ^ 32) (by decide) 2) (by decide) (by decide) (by decide)).1 rfl
      (by decide)).mpr (by decide)

/-! ## Integer columns -/

namespace IntType

/-- The number an array of the type shows for the bytes of a cell. -/
def decode (t : IntType) (bytes : Bytes) : Int :=
  if t.signed ∧ 2 ^ (8 * t.width - 1) ≤ leNat bytes then (leNat bytes : Int) - 2 ^ (8 * t.width)
  else leNat bytes

theorem two_pow_width {t : IntType} (hw : 0 < t.width) : 2 ^ (8 * t.width) = 2 * 2 ^ (8 * t.width - 1) := by
  rw [← pow_succ', show 8 * t.width - 1 + 1 = 8 * t.width by omega]

theorem pow_width (t : IntType) : 256 ^ t.width = 2 ^ (8 * t.width) := by
  rw [show 256 = 2 ^ 8 by norm_num, ← pow_mul]

theorem decode_mem {t : IntType} (hw : 0 < t.width) {bytes : Bytes} (hl : bytes.length = t.width) :
    t.min ≤ t.decode bytes ∧ t.decode bytes ≤ t.max := by
  have hlt := leNat_lt bytes
  rw [hl, pow_width, two_pow_width hw] at hlt
  have hcast : (2 : Int) ^ (8 * t.width) = 2 * ((2 ^ (8 * t.width - 1) : Nat) : Int) := by
    push_cast
    exact_mod_cast two_pow_width hw
  have hcast' : (2 : Int) ^ (8 * t.width - 1) = ((2 ^ (8 * t.width - 1) : Nat) : Int) := by push_cast; rfl
  unfold min max decode
  rw [hcast, hcast']
  by_cases hs : t.signed = true
  · simp only [hs, true_and, if_true]
    split <;> omega
  · simp only [hs, false_and, if_false, Bool.false_eq_true]
    omega

theorem decode_ofInt {t : IntType} (hw : 0 < t.width) {n : Int} (h : t.min ≤ n ∧ n ≤ t.max) :
    t.decode (t.ofInt n) = n := by
  have hcast : (2 : Int) ^ (8 * t.width) = 2 * ((2 ^ (8 * t.width - 1) : Nat) : Int) := by
    push_cast
    exact_mod_cast two_pow_width hw
  have hcast' : (2 : Int) ^ (8 * t.width - 1) = ((2 ^ (8 * t.width - 1) : Nat) : Int) := by push_cast; rfl
  have hpow : (256 : Int) ^ t.width = 2 * ((2 ^ (8 * t.width - 1) : Nat) : Int) := by
    rw [← hcast]
    exact_mod_cast pow_width t
  have hM : 0 < 2 ^ (8 * t.width - 1) := Nat.two_pow_pos _
  have hle : leNat (t.ofInt n) = (n % (2 * ((2 ^ (8 * t.width - 1) : Nat) : Int))).toNat := by
    rw [ofInt, leNat_leBytes, hpow, Nat.mod_eq_of_lt]
    have := Int.emod_lt_of_pos n (show 0 < 2 * ((2 ^ (8 * t.width - 1) : Nat) : Int) by omega)
    rw [pow_width, two_pow_width hw]
    omega
  unfold min max at h
  rw [hcast, hcast'] at h
  unfold decode
  rw [hle, hcast]
  generalize 2 ^ (8 * t.width - 1) = M at *
  by_cases hn : 0 ≤ n
  · have hmod : n % (2 * (M : Int)) = n := by
      refine Int.emod_eq_of_lt hn ?_
      by_cases hs : t.signed = true
      · simp only [hs, if_true] at h
        omega
      · simp only [hs] at h
        omega
    rw [hmod]
    by_cases hs : t.signed = true
    · simp only [hs, if_true] at h
      rw [if_neg (by omega)]
      omega
    · rw [if_neg (by simp [hs])]
      omega
  · have hs : t.signed = true := by
      by_contra hs
      simp only [hs, if_false] at h
      omega
    simp only [hs, if_true] at h
    have hmod : n % (2 * (M : Int)) = n + 2 * M := by
      rw [← Int.add_emod_right, Int.emod_eq_of_lt (by omega) (by omega)]
    rw [hmod, if_pos ⟨hs, by omega⟩]
    omega

end IntType

/-- The integer type of a column. -/
def MonaryType.intType : MonaryType → Option IntType
  | .int8 => some .int8
  | .int16 => some .int16
  | .int32 => some .int32
  | .int64 => some .int64
  | .uint8 => some .uint8
  | .uint16 => some .uint16
  | .uint32 => some .uint32
  | .uint64 => some .uint64
  | _ => none

/-- The value of a number, a double being truncated toward zero; a NaN and an infinity have none. -/
def BsonIter.integer (it : BsonIter) : Option Int :=
  match it.bsonType with
  | some .int32 => some (bsonIterInt32 it)
  | some .int64 => some (bsonIterInt64 it)
  | some .double => (binary64.decode (bsonIterDouble it)).trunc
  | _ => none

section Integers
variable [CImpl]

/-- The load returns 0, or the cell holds the value of the element. -/
def IntExact (it : BsonIter) (c : ColumnItem) (t : IntType) (row : Nat) : Prop :=
  monaryLoadItem it c (toInt32 row) = .ok none ∨ ∃ s' v, monaryLoadItem it c (toInt32 row) = .ok (some s') ∧
    it.integer = some v ∧ t.decode (slice s' (row * t.width) t.width) = v

theorem payload_intType {t : MonaryType} {k : IntType} (h : t.intType = some k) (w : Nat) (it : BsonIter) :
    payload t w it = .ok (intPayload k it) ∧ t.itemSize w = k.width ∧ 0 < k.width ∧ t ≠ .bson ∧ t.sized = false ∧
      t ≠ .length := by
  cases t <;> cases h <;> exact ⟨rfl, rfl, by decide, by simp, rfl, by simp⟩

/-- The load of a number into an integer column writes its conversion. -/
theorem monaryLoadItem_int {e : Element} {c : ColumnItem} {t : MonaryType} {k : IntType} {n row : Nat} {src : Bytes}
    (hc : c.Holds t n) (hrow : row < n) (hk : t.intType = some k) (hsrc : intPayload k e.iter = some src) :
    ∃ s', monaryLoadItem e.iter c row = .ok (some s') ∧ slice s' (row * k.width) k.width = src := by
  obtain ⟨hpay, hsize, -, hbson, hsized, hlength⟩ := payload_intType hk c.typeArg e.iter
  have hclean : Clean t c.typeArg row e.iter := by
    refine ⟨fun h => absurd h hlength, fun h => absurd h hlength, ?_, ?_⟩ <;>
    · rintro rfl
      cases hsized
  obtain ⟨p, hp, hload⟩ := monaryLoadItem_of_clean hc hrow hclean
  obtain rfl : p = some src := by
    rw [hpay, hsrc] at hp
    exact (Except.ok.inj hp).symm
  obtain ⟨s, hs, hlen⟩ := hc.storage_eq
  have hl := length_intPayload hsrc
  have hb := row_add_le (w := k.width) hrow
  rw [hsize] at hlen
  refine ⟨_, hload, ?_⟩
  have hplace : place t c.typeArg row src.length = row * k.width := by
    unfold place
    rw [if_neg hbson, hsize]
  have hself : slice (patch s (row * k.width) src) (row * k.width) src.length = src := slice_patch_self (by omega)
  dsimp only
  rw [hplace, hs, Option.getD_some]
  rwa [hl] at hself

omit [CImpl] in
theorem decode_ofInt_iff {k : IntType} (hw : 0 < k.width) (n : Int) :
    k.decode (k.ofInt n) = n ↔ k.min ≤ n ∧ n ≤ k.max := by
  refine ⟨fun h => ?_, IntType.decode_ofInt hw⟩
  have hmem := IntType.decode_mem hw (k.length_ofInt n)
  rwa [h] at hmem

/-- The conversion of a number that shows its value. -/
theorem intPayload_decode {e : Element} {k : IntType} (hw : 0 < k.width)
    (hnum : e.iter.bsonType ∈ [some BsonType.int32, some .int64, some .double]) :
    ∃ src, intPayload k e.iter = some src ∧ ((∃ v, e.iter.integer = some v ∧ k.decode src = v) ↔
      ∃ v, e.iter.integer = some v ∧ k.min ≤ v ∧ v ≤ k.max) := by
  have hexact (m : Int) : (∃ v, some m = some v ∧ k.decode (k.ofInt m) = v) ↔
      ∃ v, some m = some v ∧ k.min ≤ v ∧ v ≤ k.max := by
    constructor
    · rintro ⟨v, hv, hd⟩
      obtain rfl : m = v := Option.some.inj hv
      exact ⟨m, rfl, (decode_ofInt_iff hw m).mp hd⟩
    · rintro ⟨v, hv, hr⟩
      obtain rfl : m = v := Option.some.inj hv
      exact ⟨m, rfl, (decode_ofInt_iff hw m).mpr hr⟩
  unfold intPayload BsonIter.integer
  simp only [List.mem_cons, List.not_mem_nil, or_false] at hnum
  rcases hnum with hty | hty | hty
  · rw [hty]
    exact ⟨_, rfl, hexact _⟩
  · rw [hty]
    exact ⟨_, rfl, hexact _⟩
  · rw [hty]
    refine ⟨_, rfl, ?_⟩
    dsimp only
    unfold IntType.ofDouble
    rcases (binary64.decode (bsonIterDouble e.iter)).trunc with _ | m
    · simp
    · by_cases hm : k.min ≤ m ∧ m ≤ k.max
      · dsimp only
        rw [if_pos hm]
        exact hexact m
      · dsimp only
        rw [if_neg hm]
        constructor
        · rintro ⟨v, hv, hd⟩
          obtain rfl := Option.some.inj hv
          rw [← hd] at hm
          exact absurd (IntType.decode_mem hw (k.length_ofInt _)) hm
        · rintro ⟨v, hv, hr⟩
          obtain rfl := Option.some.inj hv
          exact absurd hr hm

theorem intExact_cell {it : BsonIter} {c : ColumnItem} {k : IntType} {row : Nat} {s' src : Bytes} (h31 : row < 2 ^ 31)
    (hload : monaryLoadItem it c row = .ok (some s')) (hcell : slice s' (row * k.width) k.width = src) :
    IntExact it c k row ↔ ∃ v, it.integer = some v ∧ k.decode src = v := by
  unfold IntExact
  rw [toInt32_natCast h31, hload]
  constructor
  · rintro (h | ⟨s₁, v, h, hv, hd⟩)
    · cases h
    · cases h
      rw [hcell] at hd
      exact ⟨v, hv, hd⟩
  · rintro ⟨v, hv, hd⟩
    refine Or.inr ⟨s', v, rfl, hv, ?_⟩
    rw [hcell]
    exact hd

/-- An integer column holds the value of a number exactly when its type has that value and the row is an `int`. -/
theorem intExact_iff {e : Element} {c : ColumnItem} {t : MonaryType} {k : IntType} {n row : Nat} (hc : c.Holds t n)
    (hn : n < 2 ^ 32) (hrow : row < n) (hk : t.intType = some k)
    (hnum : e.iter.bsonType ∈ [some BsonType.int32, some .int64, some .double]) :
    IntExact e.iter c k row ↔ row < 2 ^ 31 ∧ ∃ v, e.iter.integer = some v ∧ k.min ≤ v ∧ v ≤ k.max := by
  obtain ⟨hpay, -, hw, -, hsized, -⟩ := payload_intType hk c.typeArg e.iter
  obtain ⟨src, hsrc, hiff⟩ := intPayload_decode hw hnum
  by_cases h31 : row < 2 ^ 31
  · obtain ⟨s', hload, hcell⟩ := monaryLoadItem_int hc hrow hk hsrc
    rw [intExact_cell h31 hload hcell, hiff]
    exact ⟨fun h => ⟨h31, h⟩, fun h => h.2⟩
  · have htaken : Taken t e.iter := (taken_iff e t c.typeArg).mpr ⟨src, by rw [hpay, hsrc]⟩
    have hfar := monaryLoadItem_far hc hsized (by omega) (hrow.trans hn) htaken
    refine ⟨fun h => ?_, fun h => absurd h.1 h31⟩
    unfold IntExact at h
    rw [hfar] at h
    rcases h with h | ⟨s', v, h, -⟩ <;> cases h

end Integers

/-- `{"d": 300}`. -/
def largeDocument : Bson := ⟨[12, 0, 0, 0, 0x10, 0x64, 0, 0x2C, 1, 0, 0, 0], by decide⟩

/-- A column of one row on `d`. -/
def integerColumn (t : MonaryType) : ColumnItem := freshColumn [0x64] t 0 1

theorem integerColumn_holds {t : MonaryType} (ht : t.sized = false) : (integerColumn t).Holds t 1 := by
  refine freshColumn_holds _ 1 (by decide) ?_
  intro h
  rw [ht] at h
  cases h

/-- An `int8` column shows 44 for 300. -/
theorem not_forall_intExact :
    ¬ ∀ (e : Element) (c : ColumnItem) (t : MonaryType) (k : IntType) (n row : Nat), c.Holds t n → n < 2 ^ 32 →
      row < n → t.intType = some k → e.iter.bsonType ∈ [some BsonType.int32, some .int64, some .double] →
      @IntExact CImpl.x86 e.iter c k row := by
  intro h
  let _ := CImpl.x86
  have hbad := h (.find largeDocument [0x64] rfl) (integerColumn .int8) .int8 .int8 1 0 (integerColumn_holds rfl)
    (by decide) (by decide) rfl (by decide)
  have hint : (Element.find largeDocument [0x64] rfl).iter.integer = some 300 := by decide
  have hload : monaryLoadItem (Element.find largeDocument [0x64] rfl).iter (integerColumn .int8) (0 : Nat) =
      .ok (some [44]) := by decide
  obtain ⟨v, hv, hd⟩ := (intExact_cell (by decide) hload rfl).mp hbad
  rw [hint] at hv
  cases hv
  exact absurd hd (by decide)

/-- An `int16` column of three rows shows 300 in row 1. -/
theorem intExact_largeDocument :
    @IntExact CImpl.x86 (Element.find largeDocument [0x64] rfl).iter (freshColumn [0x64] .int16 0 3) .int16 1 :=
  (@intExact_iff CImpl.x86 _ _ .int16 _ _ _ (freshColumn_holds _ 3 (by decide) nofun) (by decide) (by decide) rfl
    (by decide)).mpr ⟨by decide, 300, by decide, by decide⟩

/-! ## Columns that keep values as they are -/

/-- The element types whose values a column keeps as they are. -/
def MonaryType.keeps : MonaryType → BsonType → Bool
  | .objectid, ty => ty = .oid
  | .date, ty => ty = .dateTime
  | .timestamp, ty => ty = .timestamp
  | .float64, ty => ty = .double
  | .string, ty => ty = .utf8
  | .binary, ty => ty = .binary
  | .type, _ => true
  | _, _ => false

/-- The first `w` bytes, and zeros up to `w`. -/
def padded (w : Nat) (bytes : Bytes) : Bytes := bytes.take w ++ List.replicate (w - bytes.length) 0

/-- The bytes of a cell are read as the value of the element. -/
def CellDecodes (t : MonaryType) (w : Nat) (it : BsonIter) (cell : Bytes) : Prop :=
  match t with
  | .objectid => cell = slice it.raw it.d1 12
  | .date => cell.length = 8 ∧ IntType.int64.decode cell = toInt64 (leNat (slice it.raw it.d1 8))
  | .timestamp => cell.length = 8 ∧ leNat (slice cell 0 4) = leNat (slice it.raw it.d1 8) / 2 ^ 32 ∧
      leNat (slice cell 4 4) = leNat (slice it.raw it.d1 8) % 2 ^ 32
  | .float64 => cell = slice it.raw it.d1 8
  | .string => cell = padded w it.stringContent
  | .binary => cell = padded w it.binaryContent
  | .type => ∃ ty, it.bsonType = some ty ∧ cell = [ty.toByte]
  | _ => False

theorem padded_of_length {w : Nat} {bytes : Bytes} (h : bytes.length = w) : padded w bytes = bytes := by
  rw [padded, h, Nat.sub_self, List.replicate_zero, List.append_nil, List.take_of_length_le (le_of_eq h)]

theorem padded_take (w : Nat) (bytes : Bytes) : padded w (bytes.take w) = padded w bytes := by
  rw [padded, padded, List.take_take, Nat.min_self, List.length_take]
  congr 2
  omega

/-- What is written into a zeroed cell is read back with zeros behind it. -/
theorem slice_patch_zeroed {N off w : Nat} {src : Bytes} (hN : off + w ≤ N) (hsrc : src.length ≤ w) :
    slice (patch (List.replicate N 0) off src) off w = padded w src := by
  apply List.ext_getElem?
  intro i
  rw [getElem?_slice, getElem?_patch (by rw [List.length_replicate]; omega), padded,
    List.take_of_length_le hsrc]
  by_cases hw : i < w
  · rw [if_pos hw]
    by_cases hi : i < src.length
    · rw [if_pos (by omega), List.getElem?_append_left hi]
      congr 1
      omega
    · rw [if_neg (by omega), List.getElem?_append_right (by omega), List.getElem?_replicate,
        List.getElem?_replicate, if_pos (by omega), if_pos (by omega)]
  · rw [if_neg hw, List.getElem?_append_right (by omega), List.getElem?_replicate, if_neg (by omega)]

theorem toInt64_mem (n : Int) : IntType.int64.min ≤ toInt64 n ∧ toInt64 n ≤ IntType.int64.max := by
  have h1 := Int.le_bmod (x := n) (m := 2 ^ 64) (by norm_num)
  have h2 := Int.bmod_lt (x := n) (m := 2 ^ 64) (by norm_num)
  have hmin : IntType.int64.min = -2 ^ 63 := rfl
  have hmax : IntType.int64.max = 2 ^ 63 - 1 := rfl
  rw [hmin, hmax]
  unfold toInt64
  omega

section Kept
variable [CImpl]

/-- What a column copies of a value that it keeps, read back with zeros behind it. -/
theorem payload_keeps {e : Element} {t : MonaryType} {w : Nat} {ty : BsonType} (hty : e.iter.bsonType = some ty)
    (hkeep : t.keeps ty = true) :
    ∃ src, payload t w e.iter = .ok (some src) ∧ CellDecodes t w e.iter (padded (t.itemSize w) src) := by
  have height (h : e.iter.bsonType ∈ [some .dateTime, some .double, some .int64, some .timestamp]) :
      (slice e.iter.raw e.iter.d1 8).length = 8 := e.accepted.length_slice (e.accepted.eight h)
  cases t
  case objectid =>
    obtain rfl : ty = .oid := by simpa [MonaryType.keeps] using hkeep
    refine ⟨slice e.iter.raw e.iter.d1 12, ?_, ?_⟩
    · show Except.ok ((bsonIterOid e.iter).map (·.take 12)) = _
      rw [bsonIterOid, if_pos hty]
      rfl
    · exact padded_of_length (e.accepted.length_slice (e.accepted.oid hty))
  case date =>
    obtain rfl : ty = .dateTime := by simpa [MonaryType.keeps] using hkeep
    refine ⟨IntType.int64.ofInt (bsonIterDateTime e.iter), ?_, ?_⟩
    · show Except.ok (if _ then _ else _) = _
      rw [if_pos hty]
    · have hlen : (IntType.int64.ofInt (bsonIterDateTime e.iter)).length = 8 := IntType.length_ofInt _ _
      show (padded 8 _).length = 8 ∧ _
      rw [show MonaryType.date.itemSize w = 8 from rfl, padded_of_length hlen, bsonIterDateTime, if_pos hty]
      exact ⟨IntType.length_ofInt _ _, IntType.decode_ofInt (by decide) (toInt64_mem _)⟩
  case timestamp =>
    obtain rfl : ty = .timestamp := by simpa [MonaryType.keeps] using hkeep
    have hlt := leNat_lt (slice e.iter.raw e.iter.d1 8)
    rw [height (by simp [hty])] at hlt
    refine ⟨leBytes 4 (leNat (slice e.iter.raw e.iter.d1 8) / 2 ^ 32) ++
      leBytes 4 (leNat (slice e.iter.raw e.iter.d1 8) % 2 ^ 32), ?_, ?_⟩
    · show Except.ok (if _ then _ else _) = _
      rw [if_pos hty, bsonIterTimestamp, if_pos hty]
    · rw [show MonaryType.timestamp.itemSize w = 8 from rfl, padded_of_length (by simp)]
      unfold CellDecodes
      dsimp only
      generalize leNat (slice e.iter.raw e.iter.d1 8) = m at hlt ⊢
      have hfirst : slice (leBytes 4 (m / 2 ^ 32) ++ leBytes 4 (m % 2 ^ 32)) 0 4 = leBytes 4 (m / 2 ^ 32) :=
        List.take_left' (length_leBytes _ _)
      have hsecond : slice (leBytes 4 (m / 2 ^ 32) ++ leBytes 4 (m % 2 ^ 32)) 4 4 = leBytes 4 (m % 2 ^ 32) := by
        rw [slice, List.drop_left' (length_leBytes _ _), List.take_of_length_le (le_of_eq (length_leBytes _ _))]
      refine ⟨by simp, ?_, ?_⟩
      · rw [hfirst, leNat_leBytes]
        omega
      · rw [hsecond, leNat_leBytes]
        omega
  case float64 =>
    obtain rfl : ty = .double := by simpa [MonaryType.keeps] using hkeep
    have hlen := height (by simp [hty])
    refine ⟨slice e.iter.raw e.iter.d1 8, ?_, ?_⟩
    · show Except.ok (floatPayload .double e.iter) = _
      unfold floatPayload
      rw [hty]
      show Except.ok (some (leBytes 8 (bsonIterDouble e.iter))) = _
      rw [bsonIterDouble, if_pos hty]
      have hround := leBytes_leNat (slice e.iter.raw e.iter.d1 8)
      rw [hlen] at hround
      rw [hround]
    · exact padded_of_length hlen
  case string =>
    obtain rfl : ty = .utf8 := by simpa [MonaryType.keeps] using hkeep
    refine ⟨e.iter.stringContent.take w, ?_, padded_take w _⟩
    rw [payload_of_sized rfl, sizedValue_string hty, (e.accepted.string (by simp [hty])).1]
    rfl
  case binary =>
    obtain rfl : ty = .binary := by simpa [MonaryType.keeps] using hkeep
    refine ⟨e.iter.binaryContent.take w, ?_, padded_take w _⟩
    rw [payload_of_sized rfl, sizedValue_binary hty]
    rfl
  case type =>
    refine ⟨[e.iter.typeByte], rfl, ty, hty, ?_⟩
    rw [BsonType.toByte_ofByte hty]
    exact padded_of_length rfl
  all_goals cases hkeep

/-- The load of the element returns 1, and the cell of the row decodes to its value. -/
def CellRoundTrips (e : Element) (c : ColumnItem) (t : MonaryType) (row : Nat) : Prop :=
  ∃ s', monaryLoadItem e.iter c (toInt32 row) = .ok (some s') ∧
    CellDecodes t c.typeArg e.iter (slice s' (row * t.itemSize c.typeArg) (t.itemSize c.typeArg))

/-- On zeroed storage, the cell of a column that keeps values decodes to the value of the element exactly where the row
is an `int`. -/
theorem cellRoundTrips_iff (e : Element) {c : ColumnItem} {t : MonaryType} {n row : Nat} {ty : BsonType}
    (hc : c.Holds t n) (hzero : c.storage = some (List.replicate (n * t.itemSize c.typeArg) 0)) (hn : n < 2 ^ 32)
    (hrow : row < n) (hmul : row * c.typeArg < 2 ^ 31) (hty : e.iter.bsonType = some ty) (hkeep : t.keeps ty = true) :
    CellRoundTrips e c t row ↔ row < 2 ^ 31 := by
  have hlength : t ≠ .length := by
    rintro rfl
    cases hkeep
  have hbson : t ≠ .bson := by
    rintro rfl
    cases hkeep
  obtain ⟨src, hsrc, hdec⟩ := payload_keeps (w := c.typeArg) hty hkeep
  constructor
  · rintro ⟨s', hload, -⟩
    by_contra h31
    rcases hs : t.sized with _ | _
    · rw [monaryLoadItem_far hc hs (by omega) (hrow.trans hn) ((taken_iff e t c.typeArg).mpr ⟨src, hsrc⟩)] at hload
      cases hload
    · exact h31 (lt_of_mul_lt hc hs fun _ => hmul)
  · intro h31
    obtain ⟨p, hp, hload⟩ := monaryLoadItem_of_clean (e := e) hc hrow
      ⟨fun h => absurd h hlength, fun h => absurd h hlength, fun _ _ => hmul, fun _ _ => hmul⟩
    obtain rfl : p = some src := Except.ok.inj (hp.symm.trans hsrc)
    have hplace : place t c.typeArg row src.length = row * t.itemSize c.typeArg := by
      unfold place
      exact if_neg hbson
    refine ⟨_, by rw [toInt32_natCast h31]; exact hload, ?_⟩
    dsimp only
    rw [hplace, hzero, Option.getD_some, slice_patch_zeroed (row_add_le hrow) (length_payload_le hp)]
    exact hdec

end Kept

/-- `{"d": Date(-1000)}`, milliseconds before 1970. -/
def dateDocument : Bson :=
  ⟨[16, 0, 0, 0, 9, 0x64, 0, 0x18, 0xFC, 0xFF, 0xFF, 0xFF, 0xFF, 0xFF, 0xFF, 0], by decide⟩

/-- Row `2^31` of a `date` column is a negative `int`. -/
theorem not_forall_cellRoundTrips :
    ¬ ∀ (e : Element) (c : ColumnItem) (t : MonaryType) (n row : Nat) (ty : BsonType), c.Holds t n →
      c.storage = some (List.replicate (n * t.itemSize c.typeArg) 0) → n < 2 ^ 32 → row < n →
      row * c.typeArg < 2 ^ 31 → e.iter.bsonType = some ty → t.keeps ty = true → @CellRoundTrips CImpl.x86 e c t row := by
  intro h
  let _ := CImpl.x86
  have hc : (freshColumn [0x64] .date 0 (2 ^ 31 + 1)).Holds .date (2 ^ 31 + 1) := freshColumn_holds _ _ (by decide) nofun
  have hty : (Element.find dateDocument [0x64] rfl).iter.bsonType = some .dateTime := by decide
  obtain ⟨s', hload, -⟩ := h (.find dateDocument [0x64] rfl) _ .date _ (2 ^ 31) .dateTime hc rfl (by norm_num) (by norm_num)
    (by show 2 ^ 31 * 0 < _; norm_num) hty rfl
  have htaken : Taken .date (Element.find dateDocument [0x64] rfl).iter :=
    ⟨Or.inr ⟨.dateTime, hty, rfl⟩, nofun, nofun⟩
  rw [monaryLoadItem_far hc rfl (le_refl _) (by norm_num) htaken] at hload
  cases hload

/-- Row 1 of a `date` column of three rows. -/
theorem cellRoundTrips_dateDocument :
    @CellRoundTrips CImpl.x86 (.find dateDocument [0x64] rfl) (freshColumn [0x64] .date 0 3) .date 1 :=
  (@cellRoundTrips_iff CImpl.x86 _ _ .date 3 1 .dateTime (freshColumn_holds _ 3 (by decide) nofun) rfl (by decide)
    (by decide) (by decide) (by decide) rfl).mpr (by decide)

end Monary
