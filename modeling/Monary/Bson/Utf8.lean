import Monary.Bson.Find

/-!
# Stepping over UTF-8 characters

`bson_utf8_next_char` jumps by the length its lead byte announces, without looking at the bytes in
between: `utf8Sequence` is that length, zero for a byte that starts no sequence. `CharsEnd p` says that
jumping on from `p` comes to a NUL inside the memory `p` points into.

* `utf8Content` : the UTF-8 encoding of a list of code points; `bsonUtf8NextChar_char` : a jump goes from one
  character to the next, `CharsEnd.of_utf8Content` : so the jumps come to the NUL behind the text, or to one in it.
-/

namespace Monary

/-- The sequence length of `_bson_utf8_get_sequence`. -/
def utf8Sequence (c : UInt8) : Nat :=
  if c &&& 0x80 = 0 then 1
  else if c &&& 0xE0 = 0xC0 then 2
  else if c &&& 0xF0 = 0xE0 then 3
  else if c &&& 0xF8 = 0xF0 then 4
  else if c &&& 0xFC = 0xF8 then 5
  else if c &&& 0xFE = 0xFC then 6
  else 0

/-- `bson_utf8_next_char`. -/
def bsonUtf8NextChar : Bytes → Bytes
  | [] => []
  | c :: p => (c :: p).drop (utf8Sequence c)

/-- The jumps from `p` come to a NUL, before the end of the memory and before a byte that starts no
sequence. -/
inductive CharsEnd : Bytes → Prop where
  | nul (p : Bytes) : CharsEnd (0 :: p)
  | next (c : UInt8) (p : Bytes) (hc : c ≠ 0) (hn : utf8Sequence c ≠ 0)
      (h : CharsEnd (bsonUtf8NextChar (c :: p))) : CharsEnd (c :: p)

theorem length_bsonUtf8NextChar {c : UInt8} {p : Bytes} (hn : utf8Sequence c ≠ 0) :
    (bsonUtf8NextChar (c :: p)).length ≤ p.length := by
  rw [bsonUtf8NextChar, List.length_drop, List.length_cons]
  omega

/-! ## Valid text -/

/-- The UTF-8 encoding of code points. -/
def utf8Content (text : List Char) : Bytes := text.flatMap String.utf8EncodeChar

theorem utf8Content_cons (c : Char) (text : List Char) :
    utf8Content (c :: text) = String.utf8EncodeChar c ++ utf8Content text := List.flatMap_cons

theorem utf8Sequence_one (x : UInt8) : x < 128 → utf8Sequence x = 1 := by
  revert x
  decide +kernel

theorem utf8Sequence_two (x : UInt8) : utf8Sequence (x &&& 0x1f ||| 0xc0) = 2 ∧ 128 ≤ (x &&& 0x1f ||| 0xc0) := by
  revert x
  decide +kernel

theorem utf8Sequence_three (x : UInt8) : utf8Sequence (x &&& 0x0f ||| 0xe0) = 3 ∧ 128 ≤ (x &&& 0x0f ||| 0xe0) := by
  revert x
  decide +kernel

theorem utf8Sequence_four (x : UInt8) : utf8Sequence (x &&& 0x07 ||| 0xf0) = 4 ∧ 128 ≤ (x &&& 0x07 ||| 0xf0) := by
  revert x
  decide +kernel

theorem toUInt8_val {c : Char} (h : c.val ≤ 127) : c.val.toUInt8 < 128 ∧ c.val.toUInt8.toNat = c.toNat := by
  rw [UInt32.le_iff_toNat_le] at h
  have h127 : (127 : UInt32).toNat = 127 := rfl
  have hval : c.val.toUInt8.toNat = c.toNat := by
    rw [UInt32.toNat_toUInt8]
    exact Nat.mod_eq_of_lt (by omega)
  refine ⟨?_, hval⟩
  rw [UInt8.lt_iff_toNat_lt, hval]
  exact Nat.lt_succ_of_le h

/-- A byte that starts a sequence of more than one byte. -/
theorem lead_of_le {b : UInt8} {c : Char} {k : Nat} (hc : c.utf8Size = k) (hk : k ≠ 1) (h : utf8Sequence b = k ∧ 128 ≤ b) :
    utf8Sequence b = c.utf8Size ∧ (b = 0 → c = '\x00') ∧ (b < 128 ↔ c.utf8Size = 1) := by
  refine ⟨h.1.trans hc.symm, ?_, ?_⟩
  · rintro rfl
    exact absurd h.2 (by decide)
  · rw [hc]
    exact ⟨fun hlt => absurd hlt (UInt8.not_lt.mpr h.2), fun h1 => absurd h1 hk⟩

/-- The first byte of a character announces its length. -/
theorem utf8EncodeChar_lead (c : Char) :
    ∃ b rest, String.utf8EncodeChar c = b :: rest ∧ utf8Sequence b = c.utf8Size ∧ (b = 0 → c = '\x00') ∧
      (b < 128 ↔ c.utf8Size = 1) := by
  rcases c.utf8Size_eq with h | h | h | h
  · obtain ⟨hlt, hval⟩ := toUInt8_val (Char.utf8Size_eq_one_iff.mp h)
    refine ⟨_, _, String.utf8EncodeChar_eq_singleton h, ?_, ?_, ?_⟩
    · rw [h]
      exact utf8Sequence_one _ hlt
    · intro h0
      rw [h0] at hval
      exact Char.toNat_inj.mp hval.symm
    · exact ⟨fun _ => h, fun _ => hlt⟩
  · exact ⟨_, _, String.utf8EncodeChar_eq_cons_cons h, lead_of_le h (by decide) (utf8Sequence_two _)⟩
  · exact ⟨_, _, String.utf8EncodeChar_eq_cons_cons_cons h, lead_of_le h (by decide) (utf8Sequence_three _)⟩
  · exact ⟨_, _, String.utf8EncodeChar_eq_cons_cons_cons_cons h, lead_of_le h (by decide) (utf8Sequence_four _)⟩

/-- A jump from a character goes to what is behind it. -/
theorem bsonUtf8NextChar_char (c : Char) (p : Bytes) : bsonUtf8NextChar (String.utf8EncodeChar c ++ p) = p := by
  obtain ⟨b, rest, hc, hseq, -⟩ := utf8EncodeChar_lead c
  have hlen := String.length_utf8EncodeChar c
  rw [hc] at hlen ⊢
  rw [List.cons_append, bsonUtf8NextChar, ← List.cons_append, hseq, ← hlen]
  exact List.drop_left' rfl

/-- Valid text ends at the NUL behind it, or at one in it. -/
theorem CharsEnd.of_utf8Content (text : List Char) (p : Bytes) : CharsEnd (utf8Content text ++ 0 :: p) := by
  induction text with
  | nil => exact .nul p
  | cons c text ih =>
    obtain ⟨b, rest, hc, hseq, -⟩ := utf8EncodeChar_lead c
    have hnext := bsonUtf8NextChar_char c (utf8Content text ++ 0 :: p)
    rw [utf8Content_cons, List.append_assoc]
    rw [hc, List.cons_append] at hnext ⊢
    by_cases h0 : b = 0
    · rw [h0]
      exact .nul _
    · refine .next b _ h0 ?_ ?_
      · rw [hseq]
        exact Nat.pos_iff_ne_zero.mp c.utf8Size_pos
      · rw [hnext]
        exact ih

/-- A text has no more code points than bytes, and as many exactly when the bytes are ASCII. -/
theorem length_utf8Content (text : List Char) :
    text.length ≤ (utf8Content text).length ∧
      (text.length = (utf8Content text).length ↔ ∀ b ∈ utf8Content text, b < 128) := by
  induction text with
  | nil => simp [utf8Content]
  | cons c text ih =>
    obtain ⟨b, rest, hc, -, -, hb⟩ := utf8EncodeChar_lead c
    obtain ⟨hle, hiff⟩ := ih
    have hpos := c.utf8Size_pos
    have hlen := String.length_utf8EncodeChar c
    rw [utf8Content_cons, List.length_append, hlen, List.length_cons]
    refine ⟨by omega, ?_⟩
    constructor
    · intro heq x hx
      have h1 : c.utf8Size = 1 := by omega
      rw [h1, hc, List.length_cons] at hlen
      obtain rfl := List.eq_nil_of_length_eq_zero (Nat.succ.inj hlen)
      rw [hc, List.singleton_append] at hx
      rcases List.mem_cons.mp hx with rfl | hx
      · exact hb.mpr h1
      · exact hiff.mp (by omega) x hx
    · intro hall
      have h1 : c.utf8Size = 1 := hb.mp (hall b (by simp [hc]))
      have := hiff.mpr fun x hx => hall x (by simp [hx])
      omega

end Monary
