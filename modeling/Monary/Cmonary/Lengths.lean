import Monary.Bson.Layout
import Monary.Cmonary.Chars
import Monary.Cmonary.Values

/-!
# Sizes and lengths

* `LoadsCount` : a load that writes a number into the cell of its row;
* `lengthCells` : a `length` column counts the code points of valid text, the elements of a well-formed document or
  array, and the bytes of a binary;
* `MeasuredAlike`, `measuredAlike_iff` : a code value is measured like the string of its content only in a `size`
  column, and only when the content is empty; `bson_iter_utf8` has nothing for it.
-/

namespace Monary
open ByteSeq CInt

/-- The load returns 1, and the cell of the row holds the number. -/
def LoadsCount (load : C (Option Bytes)) (row k : Nat) : Prop :=
  ∃ s, load = .ok (some s) ∧ leNat (slice s (row * 4) 4) = k

theorem LoadsCount.unique {load : C (Option Bytes)} {row k l : Nat} (hk : LoadsCount load row k)
    (hl : LoadsCount load row l) : k = l := by
  obtain ⟨s, hs, rfl⟩ := hk
  obtain ⟨s', hs', rfl⟩ := hl
  cases hs.symm.trans hs'
  rfl

/-! ## The two loaders -/

section Loaders
variable {c : ColumnItem} {t : MonaryType} {n row k : Nat}

/-- A number that is copied is in the cell. -/
theorem loadsCount_transfer (ht : t = .size ∨ t = .length) (hc : c.Holds t n) (hrow : row < n) (hk : k < 2 ^ 32) :
    LoadsCount (transfer t c row (some (leBytes 4 k))) row k := by
  obtain ⟨s, hs, hlen⟩ := hc.storage_eq
  have hsize : t.itemSize c.typeArg = 4 := by rcases ht with rfl | rfl <;> rfl
  have hdest : destOffset t c.typeArg row (leBytes 4 k).length = some ((row * 4 : Nat) : Int) := by
    rcases ht with rfl | rfl <;> rfl
  have hcell := row_add_le (w := 4) hrow
  have hb : row * 4 + (leBytes 4 k).length ≤ s.length := by
    rw [length_leBytes, hlen, hsize]
    exact hcell
  refine ⟨patch s (row * 4) (leBytes 4 k), ?_, ?_⟩
  · unfold transfer
    dsimp only
    rw [hdest]
    dsimp only
    rw [hs, memcpyTo_ok hb]
    rfl
  · have hself := slice_patch_self hb
    rw [length_leBytes] at hself
    rw [hself, leNat_leBytes]
    exact Nat.mod_eq_of_lt hk

theorem loadsCount_size {it : BsonIter} (hc : c.Holds .size n) (hrow : row < n) (hk : k < 2 ^ 32)
    (hv : sizeValue it = some k) : LoadsCount (monaryLoadSizeValue it c row) row k := by
  rw [monaryLoadSizeValue_eq, hv]
  exact loadsCount_transfer (Or.inl rfl) hc hrow hk

theorem loadsCount_length {it : BsonIter} (hc : c.Holds .length n) (hrow : row < n) (hk : k < 2 ^ 32)
    (hv : lengthValue it = .ok (some k)) : LoadsCount (monaryLoadLengthValue it c row) row k := by
  rw [monaryLoadLengthValue_eq, hv]
  exact loadsCount_transfer (Or.inr rfl) hc hrow hk

end Loaders

/-! ## What is counted -/

/-- The loop counts the characters of valid text in which there is no NUL. -/
theorem charLoop_utf8Content {text : List Char} (h0 : '\x00' ∉ text) (p : Bytes) {n : Nat} (k : Nat)
    (hn : (utf8Content text).length < n) : charLoop n (utf8Content text ++ 0 :: p) k = .ok (k + text.length) := by
  induction text generalizing n k with
  | nil =>
    obtain ⟨n, rfl⟩ := Nat.exists_eq_succ_of_ne_zero (Nat.ne_zero_of_lt hn)
    simp [utf8Content, charLoop]
  | cons c text ih =>
    rw [List.mem_cons, not_or] at h0
    obtain ⟨b, rest, hc, hseq, hb, -⟩ := utf8EncodeChar_lead c
    have hnext := bsonUtf8NextChar_char c (utf8Content text ++ 0 :: p)
    obtain ⟨n, rfl⟩ := Nat.exists_eq_succ_of_ne_zero (Nat.ne_zero_of_lt hn)
    rw [utf8Content_cons] at hn ⊢
    rw [List.append_assoc]
    rw [hc, List.length_append, List.length_cons] at hn
    rw [hc, List.cons_append] at hnext ⊢
    have hpos := c.utf8Size_pos
    rw [charLoop, if_neg fun h => h0.1 (hb h).symm, if_neg (by omega), hnext, ih h0.2 _ (by omega), List.length_cons]
    congr 1
    omega

section Counts
variable {e : Element} {text : List Char}

/-- The bytes from a string on. -/
theorem ptr_string (hty : e.iter.bsonType = some .utf8) :
    ∃ p, e.iter.ptr e.iter.d2 = e.iter.stringContent ++ 0 :: p := by
  obtain ⟨hd, hpos, hend, hnul⟩ := e.accepted.string (by simp [hty])
  have hlt := e.accepted.next_lt
  have hf := e.accepted.fits
  unfold BsonIter.Fits at hf
  have hin : e.iter.d2 + (e.iter.uint32At e.iter.d1 - 1) < e.iter.raw.length := by omega
  unfold BsonIter.byte at hnul
  rw [List.getD_eq_getElem _ _ hin] at hnul
  refine ⟨e.iter.raw.drop (e.iter.d2 + (e.iter.uint32At e.iter.d1 - 1) + 1), ?_⟩
  unfold BsonIter.ptr BsonIter.stringContent slice
  rw [← hd]
  conv_lhs => rw [← List.take_append_drop (e.iter.uint32At e.iter.d1 - 1) (e.iter.raw.drop e.iter.d2)]
  rw [List.drop_drop, List.drop_eq_getElem_cons hin, hnul]

/-- The bytes of a string, its NUL left out. -/
theorem length_stringContent (hty : e.iter.bsonType ∈ [some .code, some .symbol, some .utf8]) :
    e.iter.stringContent.length = e.iter.uint32At e.iter.d1 - 1 := by
  obtain ⟨hd, hpos, hend, -⟩ := e.accepted.string hty
  have hlt := e.accepted.next_lt
  have hf := e.accepted.fits
  unfold BsonIter.Fits at hf
  exact length_slice (by omega)

theorem sizeValue_string (hty : e.iter.bsonType = some .utf8) : sizeValue e.iter = some e.iter.stringContent.length := by
  unfold sizeValue
  rw [hty, (e.accepted.utf8 e.small hty).1, length_stringContent (by simp [hty])]

theorem lengthValue_string (hty : e.iter.bsonType = some .utf8) (h0 : '\x00' ∉ text)
    (htext : e.iter.stringContent = utf8Content text) : lengthValue e.iter = .ok (some text.length) := by
  obtain ⟨p, hp⟩ := ptr_string hty
  have hcount := charLoop_utf8Content h0 p 0 (n := (e.iter.ptr e.iter.d2).length + 1) (by
    rw [hp, htext, List.length_append]
    omega)
  rw [Nat.zero_add] at hcount
  unfold lengthValue
  rw [hty, (e.accepted.utf8 e.small hty).1]
  dsimp only
  rw [hp, htext] at hcount ⊢
  rw [hcount]
  rfl

/-- A content is shorter than the document it is in. -/
theorem length_stringContent_lt (hty : e.iter.bsonType ∈ [some .code, some .symbol, some .utf8]) :
    e.iter.stringContent.length < 2 ^ 31 := by
  obtain ⟨hd, hpos, hend, -⟩ := e.accepted.string hty
  have hlt := e.accepted.next_lt
  have hs := e.small
  rw [length_stringContent hty]
  omega

theorem length_le_flatMap (fields : List Field) : fields.length ≤ (fields.flatMap Field.bytes).length := by
  induction fields with
  | nil => exact le_refl _
  | cons f fields ih =>
    rw [List.flatMap_cons, List.length_append, List.length_cons]
    have hpos : 0 < f.bytes.length := Nat.succ_pos _
    omega

/-- The iterator over the content of a document or an array. -/
theorem recurse_content (hty : e.iter.bsonType ∈ [some .document, some .array]) :
    bsonIterRecurse e.iter = some ⟨e.iter.ptr e.iter.d1, e.iter.uint32At e.iter.d1, 0, 0, 0, 0, 0, 0, 0, 4⟩ := by
  unfold bsonIterRecurse bsonIterDocument bsonIterArray
  simp only [List.mem_cons, List.not_mem_nil, or_false] at hty
  rcases hty with hty | hty <;> simp [hty]

theorem lengthValue_document {fields : List Field} (hty : e.iter.bsonType ∈ [some .document, some .array])
    (hname : ∀ f ∈ fields, 0 ∉ f.name) (hvalue : ∀ f ∈ fields, Layout f.type f.value)
    (hbytes : e.iter.value = documentBytes fields) :
    lengthValue e.iter = .ok (some fields.length) ∧ fields.length < 2 ^ 31 := by
  have htypes : e.iter.bsonType ∈ [some .array, some .document] := by
    simp only [List.mem_cons, List.not_mem_nil, or_false] at hty ⊢
    exact hty.symm
  obtain ⟨-, hend⟩ := e.accepted.document htypes
  have hlt := e.accepted.next_lt
  have hs := e.small
  have hlen := e.accepted.length_value
  rw [hbytes, length_documentBytes] at hlen
  have hlies : Lies e.iter.raw e.iter.d1 (documentBytes fields) := by
    unfold Lies
    rw [length_documentBytes, hlen]
    exact hbytes
  have hcontent := (Lies.append (Lies.append hlies).2).1
  rw [length_leBytes] at hcontent
  have hchild : Lies (e.iter.ptr e.iter.d1) 4 (fields.flatMap Field.bytes) := by
    unfold Lies slice at hcontent ⊢
    rw [BsonIter.ptr, List.drop_drop]
    exact hcontent
  have hle := length_le_flatMap fields
  have hcount : (bsonIterElements ⟨e.iter.ptr e.iter.d1, e.iter.uint32At e.iter.d1, 0, 0, 0, 0, 0, 0, 0, 4⟩).length =
      fields.length :=
    length_bsonIterElements hname hvalue hchild (le_refl 4) (by dsimp only; omega) (by dsimp only; omega)
  refine ⟨?_, by omega⟩
  unfold lengthValue
  rw [recurse_content hty, Option.map_some, hcount]
  simp only [List.mem_cons, List.not_mem_nil, or_false] at hty
  rcases hty with hty | hty <;> rw [hty]

theorem measures_binary (hty : e.iter.bsonType = some .binary) :
    lengthValue e.iter = .ok (some (bsonIterBinary e.iter).2) ∧ sizeValue e.iter = some (bsonIterBinary e.iter).2 := by
  unfold lengthValue sizeValue
  rw [hty]
  exact ⟨rfl, rfl⟩

end Counts

/-- A `length` column on well-formed values: it counts the code points of valid text without a NUL, the elements of
a document or an array, and of a binary what a `size` column counts; a text is not longer than its size, and as long
exactly when it is ASCII. -/
theorem lengthCells (e : Element) {c c' : ColumnItem} {n row : Nat} (hc : c.Holds .length n) (hc' : c'.Holds .size n)
    (hrow : row < n) (h31 : row < 2 ^ 31) :
    (∀ text, e.iter.bsonType = some .utf8 → '\x00' ∉ text → e.iter.stringContent = utf8Content text →
      LoadsCount (monaryLoadLengthValue e.iter c (toInt32 row)) row text.length) ∧
    (∀ fields, e.iter.bsonType ∈ [some .document, some .array] → e.iter.value = documentBytes fields →
      (∀ f ∈ fields, 0 ∉ f.name) → (∀ f ∈ fields, Layout f.type f.value) →
        LoadsCount (monaryLoadLengthValue e.iter c (toInt32 row)) row fields.length) ∧
    (e.iter.bsonType = some .binary → ∃ k, LoadsCount (monaryLoadLengthValue e.iter c (toInt32 row)) row k ∧
      LoadsCount (monaryLoadSizeValue e.iter c' (toInt32 row)) row k) ∧
    (∀ text, e.iter.bsonType = some .utf8 → '\x00' ∉ text → e.iter.stringContent = utf8Content text →
      ∃ length size, LoadsCount (monaryLoadLengthValue e.iter c (toInt32 row)) row length ∧
        LoadsCount (monaryLoadSizeValue e.iter c' (toInt32 row)) row size ∧ length ≤ size ∧
        (length = size ↔ ∀ b ∈ e.iter.stringContent, b < 128)) := by
  rw [toInt32_natCast h31]
  have htext (text : List Char) (hty : e.iter.bsonType = some .utf8) (h0 : '\x00' ∉ text)
      (hcontent : e.iter.stringContent = utf8Content text) :
      LoadsCount (monaryLoadLengthValue e.iter c row) row text.length := by
    have hlt := length_stringContent_lt (e := e) (by simp [hty])
    have hle := (length_utf8Content text).1
    rw [hcontent] at hlt
    exact loadsCount_length hc hrow (by omega) (lengthValue_string hty h0 hcontent)
  refine ⟨htext, ?_, ?_, ?_⟩
  · intro fields hty hbytes hname hvalue
    obtain ⟨hv, hlt⟩ := lengthValue_document hty hname hvalue hbytes
    exact loadsCount_length hc hrow (by omega) hv
  · intro hty
    obtain ⟨hl, hs⟩ := measures_binary hty
    exact ⟨_, loadsCount_length hc hrow (bsonIterBinary_lt _) hl, loadsCount_size hc' hrow (bsonIterBinary_lt _) hs⟩
  · intro text hty h0 hcontent
    have hlt := length_stringContent_lt (e := e) (by simp [hty])
    obtain ⟨hle, hiff⟩ := length_utf8Content text
    refine ⟨_, _, htext text hty h0 hcontent, loadsCount_size hc' hrow (by omega) (sizeValue_string hty), ?_, ?_⟩
    · rw [hcontent]
      exact hle
    · rw [hcontent]
      exact hiff

/-- A `size` column of one row on `d`. -/
def sizeColumn : ColumnItem := freshColumn [0x64] .size 0 1

theorem sizeColumn_holds : sizeColumn.Holds .size 1 := freshColumn_holds _ 1 (by decide) nofun

/-- `"é"` has one code point, in row 1 of three. -/
theorem lengthCells_accentDocument :
    LoadsCount (monaryLoadLengthValue (Element.find accentDocument [0x64] rfl).iter (freshColumn [0x64] .length 0 3)
      (toInt32 (1 : Nat))) 1 1 :=
  (lengthCells (Element.find accentDocument [0x64] rfl) (freshColumn_holds _ 3 (by decide) nofun)
    (freshColumn_holds [0x64] 3 (by decide) nofun : (freshColumn [0x64] .size 0 3).Holds .size 3) (by decide)
    (by decide)).1 ['é'] (by decide) (by decide) (by decide)

/-! ## Code values -/

section Code
variable [CImpl]

/-- The code value is loaded as the string is, and the cell holds the bytes, or the code points, of the text. -/
def MeasuredAlike (t : MonaryType) (e e' : Element) (c : ColumnItem) (row : Nat) (text : List Char) : Prop :=
  monaryLoadItem e.iter c (toInt32 row) = monaryLoadItem e'.iter c (toInt32 row) ∧
    LoadsCount (monaryLoadItem e.iter c (toInt32 row)) row
      (if t = .size then (utf8Content text).length else text.length)

theorem monaryLoadItem_size {c : ColumnItem} {n : Nat} (hc : c.Holds .size n) (it : BsonIter) (idx : Int) :
    monaryLoadItem it c idx = monaryLoadSizeValue it c idx := by
  unfold monaryLoadItem
  rw [hc.type_eq]

theorem monaryLoadItem_length {c : ColumnItem} {n : Nat} (hc : c.Holds .length n) (it : BsonIter) (idx : Int) :
    monaryLoadItem it c idx = monaryLoadLengthValue it c idx := by
  unfold monaryLoadItem
  rw [hc.type_eq]

omit [CImpl] in
/-- `bson_iter_utf8` has nothing for a code value. -/
theorem measures_code {it : BsonIter} (hty : it.bsonType = some .code) :
    sizeValue it = some 0 ∧ lengthValue it = .error .undefined := by
  have hnone : bsonIterUtf8 it = (none, 0) := by
    unfold bsonIterUtf8
    rw [hty]
    exact if_neg (by decide)
  unfold sizeValue lengthValue
  rw [hty]
  dsimp only
  rw [hnone]
  exact ⟨rfl, rfl⟩

/-- A code value is measured like the string exactly when the column counts bytes, the content has none and the row is an
`int`. -/
theorem measuredAlike_iff {e e' : Element} {c : ColumnItem} {t : MonaryType} {n row : Nat} {text : List Char}
    (ht : t = .size ∨ t = .length) (hc : c.Holds t n) (hn : n < 2 ^ 32) (hrow : row < n)
    (hcode : e.iter.bsonType = some .code) (hstring : e'.iter.bsonType = some .utf8) (h0 : '\x00' ∉ text)
    (htext : e.iter.stringContent = utf8Content text) (htext' : e'.iter.stringContent = utf8Content text) :
    MeasuredAlike t e e' c row text ↔ t = .size ∧ text = [] ∧ row < 2 ^ 31 := by
  obtain ⟨hsize, hlength⟩ := measures_code hcode
  unfold MeasuredAlike
  rcases ht with rfl | rfl
  · by_cases h31 : row < 2 ^ 31
    · rw [toInt32_natCast h31, monaryLoadItem_size hc, monaryLoadItem_size hc, if_pos rfl]
      have hzero := loadsCount_size hc hrow (by decide) hsize
      constructor
      · rintro ⟨-, hcount⟩
        have hlen := hcount.unique hzero
        have hle := (length_utf8Content text).1
        exact ⟨rfl, List.eq_nil_of_length_eq_zero (by omega), h31⟩
      · rintro ⟨-, rfl, -⟩
        refine ⟨?_, hzero⟩
        rw [monaryLoadSizeValue_eq, monaryLoadSizeValue_eq, hsize, sizeValue_string hstring, htext']
        rfl
    · have htaken : Taken .size e.iter := ⟨Or.inr ⟨.code, hcode, rfl⟩, nofun, nofun⟩
      rw [monaryLoadItem_far hc rfl (by omega) (hrow.trans hn) htaken]
      constructor
      · rintro ⟨-, s, hs, -⟩
        cases hs
      · rintro ⟨-, -, h⟩
        exact absurd h h31
  · rw [monaryLoadItem_length hc, monaryLoadItem_length hc, monaryLoadLengthValue_eq, hlength]
    constructor
    · rintro ⟨-, s, hs, -⟩
      cases hs
    · rintro ⟨h, -⟩
      cases h

end Code

/-- `{"d": Code("a")}`, `{"d": "a"}`, `{"d": Code("")}` and `{"d": ""}`. -/
def codeDocument : Bson := ⟨[14, 0, 0, 0, 0x0D, 0x64, 0, 2, 0, 0, 0, 0x61, 0, 0], by decide⟩
def emptyCodeDocument : Bson := ⟨[13, 0, 0, 0, 0x0D, 0x64, 0, 1, 0, 0, 0, 0, 0], by decide⟩
def emptyStringDocument : Bson := ⟨[13, 0, 0, 0, 2, 0x64, 0, 1, 0, 0, 0, 0, 0], by decide⟩

/-- A `size` column shows 0 for `Code("a")`. -/
theorem not_forall_measuredAlike :
    ¬ ∀ (e e' : Element) (c : ColumnItem) (t : MonaryType) (n row : Nat) (text : List Char), t = .size ∨ t = .length →
      c.Holds t n → n < 2 ^ 32 → row < n → e.iter.bsonType = some .code → e'.iter.bsonType = some .utf8 →
      '\x00' ∉ text → e.iter.stringContent = utf8Content text → e'.iter.stringContent = utf8Content text →
      @MeasuredAlike CImpl.x86 t e e' c row text := by
  intro h
  let _ := CImpl.x86
  obtain ⟨-, s, hs, hcell⟩ := h (.find codeDocument [0x64] rfl) (.find stringDocument [0x64] rfl) sizeColumn .size 1 0 ['a']
    (Or.inl rfl) sizeColumn_holds (by decide) (by decide) (by decide) (by decide) (by decide) (by decide) (by decide)
  have hload : monaryLoadItem (Element.find codeDocument [0x64] rfl).iter sizeColumn (toInt32 (0 : Nat)) =
      .ok (some [0, 0, 0, 0]) := by decide
  cases hs.symm.trans hload
  exact absurd hcell (by decide)

/-- An empty code value has the size of the empty string, in row 1 of three. -/
theorem measuredAlike_emptyCode :
    @MeasuredAlike CImpl.x86 .size (.find emptyCodeDocument [0x64] rfl) (.find emptyStringDocument [0x64] rfl)
      (freshColumn [0x64] .size 0 3) 1 [] :=
  (@measuredAlike_iff CImpl.x86 _ _ _ .size 3 1 [] (Or.inl rfl) (freshColumn_holds _ 3 (by decide) nofun) (by decide)
    (by decide) (by decide) (by decide) (by decide) (by decide) (by decide)).mpr ⟨rfl, rfl, by decide⟩

end Monary
