import Monary.Lib.ByteSeq

/-!
# The BSON iterator of libbson

`bson_iter_t` walks the elements of one document. `raw` models the pointer of that name by the bytes
from it to the end of the memory object it points into, so that `raw + n` is `raw.drop n` and a child
iterator still sees what follows its own document; `len` is the length the iterator respects.

* `bsonIterNext` : `bson_iter_next`, with every check it makes; `none` is its `mark_invalid`;
* `BsonIter.Accepted`, `bsonIterNext_accepted` : an accepted element lies inside the document, with its
  field offsets where the accessors expect them.

Offsets are `uint32_t` in the source. A document has fewer than `2^31` bytes (`Bson.small`) and every
offset that is formed is below that plus `32`, so that natural numbers do not differ from them.
-/

namespace Monary
open ByteSeq

abbrev Bytes := List UInt8

/-- `bson_t` as the driver hands it out: its length header is a positive `int32_t`. -/
structure Bson where
  data : Bytes
  small : data.length < 2 ^ 31

/-- `bson_type_t`. -/
inductive BsonType where
  | eod | double | utf8 | document | array | binary | undefined | oid | bool | dateTime | null
  | regex | dbpointer | code | symbol | codewscope | int32 | timestamp | int64 | maxkey | minkey
  deriving DecidableEq, Repr

def BsonType.toByte : BsonType → UInt8
  | .eod => 0x00 | .double => 0x01 | .utf8 => 0x02 | .document => 0x03 | .array => 0x04
  | .binary => 0x05 | .undefined => 0x06 | .oid => 0x07 | .bool => 0x08 | .dateTime => 0x09
  | .null => 0x0A | .regex => 0x0B | .dbpointer => 0x0C | .code => 0x0D | .symbol => 0x0E
  | .codewscope => 0x0F | .int32 => 0x10 | .timestamp => 0x11 | .int64 => 0x12
  | .maxkey => 0x7F | .minkey => 0xFF

def BsonType.all : List BsonType :=
  [.eod, .double, .utf8, .document, .array, .binary, .undefined, .oid, .bool, .dateTime, .null,
    .regex, .dbpointer, .code, .symbol, .codewscope, .int32, .timestamp, .int64, .maxkey, .minkey]

/-- The type a byte names, if it names one. -/
def BsonType.ofByte (b : UInt8) : Option BsonType := BsonType.all.find? (fun t => t.toByte == b)

theorem BsonType.ofByte_toByte (t : BsonType) : BsonType.ofByte t.toByte = some t := by
  cases t <;> decide

theorem BsonType.toByte_ofByte {b : UInt8} {t : BsonType} (h : BsonType.ofByte b = some t) :
    t.toByte = b := by
  have := List.find?_some h
  exact eq_of_beq this

/-- `BSON_SUBTYPE_BINARY_DEPRECATED`. -/
def binaryDeprecated : UInt8 := 0x02

structure BsonIter where
  raw : Bytes
  len : Nat
  off : Nat
  type : Nat
  key : Nat
  d1 : Nat
  d2 : Nat
  d3 : Nat
  d4 : Nat
  nextOff : Nat
  deriving DecidableEq, Repr

namespace BsonIter
variable (it : BsonIter)

def byte (o : Nat) : UInt8 := it.raw.getD o 0

/-- `memcpy (&l, raw + o, 4)` and `BSON_UINT32_FROM_LE`. -/
def uint32At (o : Nat) : Nat := leNat (slice it.raw o 4)

/-- `ITER_TYPE`, as a number. -/
def typeByte : UInt8 := it.byte it.type

/-- `ITER_TYPE`, if it is one of the types of the specification. -/
def bsonType : Option BsonType := BsonType.ofByte it.typeByte

end BsonIter

/-- `bson_iter_init`; a document too short to be one leaves a zeroed iterator. -/
def bsonIterInit (b : Bson) : BsonIter :=
  if b.data.length < 5 then ⟨[], 0, 0, 0, 0, 0, 0, 0, 0, 0⟩
  else ⟨b.data, b.data.length, 0, 0, 0, 0, 0, 0, 0, 4⟩

/-- `for (; o < len; o++) if (!data [o])`, `n` being `len - o`: the position of the first NUL. -/
def scanNul (raw : Bytes) (o : Nat) : Nat → Option Nat
  | 0 => none
  | n + 1 => if raw.getD o 0 = 0 then some o else scanNul raw (o + 1) n

/-! ### The cases of the `switch` of `bson_iter_next`

Each takes the iterator with `d1` set to `o`, the start of the value, and gives it back with the other
field offsets and `nextOff` set, or `none` for `goto mark_invalid`. -/

/-- `BSON_TYPE_CODE`, `BSON_TYPE_SYMBOL`, `BSON_TYPE_UTF8`. -/
def fillString (it : BsonIter) (o : Nat) : Option BsonIter :=
  if o + 4 ≥ it.len then none
  else
    let l := it.uint32At it.d1
    if l > it.len - (o + 4) then none
    -- the string length includes the NUL byte
    else if l = 0 ∨ o + 4 + l ≥ it.len then none
    else if it.byte (o + 4 + (l - 1)) ≠ 0 then none
    else some { it with d2 := o + 4, nextOff := o + 4 + l }

/-- `BSON_TYPE_BINARY`. -/
def fillBinary (it : BsonIter) (o : Nat) : Option BsonIter :=
  if o ≥ it.len - 4 then none
  else
    let l := it.uint32At it.d1
    if l ≥ it.len - o then none
    else if it.byte (o + 4) = binaryDeprecated ∧ l < 4 then none
    else some { it with d2 := o + 4, d3 := o + 5, nextOff := o + 5 + l }

/-- `BSON_TYPE_ARRAY`, `BSON_TYPE_DOCUMENT`. -/
def fillDocument (it : BsonIter) (o : Nat) : Option BsonIter :=
  if o ≥ it.len - 4 then none
  else
    let l := it.uint32At it.d1
    if l > it.len ∨ l > it.len - o then none
    else some { it with nextOff := o + l }

/-- `BSON_TYPE_REGEX`. -/
def fillRegex (it : BsonIter) (o : Nat) : Option BsonIter :=
  match scanNul it.raw o (it.len - o) with
  | none => none
  | some eor =>
    match scanNul it.raw (eor + 1) (it.len - (eor + 1)) with
    | none => none
    | some eoo => some { it with d2 := eor + 1, nextOff := eoo + 1 }

/-- `BSON_TYPE_DBPOINTER`. -/
def fillDbpointer (it : BsonIter) (o : Nat) : Option BsonIter :=
  if o ≥ it.len - 4 then none
  else
    let l := it.uint32At it.d1
    if l > it.len ∨ l > it.len - o then none
    else some { it with d2 := o + 4, d3 := o + 4 + l, nextOff := o + 4 + l + 12 }

/-- `BSON_TYPE_CODEWSCOPE`. -/
def fillCodewscope (it : BsonIter) (o : Nat) : Option BsonIter :=
  if it.len < 19 ∨ o ≥ it.len - 14 then none
  else
    let total := it.uint32At it.d1
    if total < 14 ∨ total ≥ it.len - o then none
    else if o + total ≥ it.len then none
    else
      let l := it.uint32At (o + 4)
      if l ≥ it.len - o - 4 - 4 then none
      else if o + 4 + 4 + l + 4 ≥ o + total then none
      else if o + 4 + 4 + l + it.uint32At (o + 4 + 4 + l) ≠ o + total then none
      else some { it with d2 := o + 4, d3 := o + 8, d4 := o + 4 + 4 + l, nextOff := o + total }

/-- `fill_data_fields`: the `switch` on the type of the element whose value starts at `o`. -/
def fillDataFields (it : BsonIter) (o : Nat) : Option BsonIter :=
  match it.bsonType with
  | some .dateTime | some .double | some .int64 | some .timestamp => some { it with nextOff := o + 8 }
  | some .code | some .symbol | some .utf8 => fillString it o
  | some .binary => fillBinary it o
  | some .array | some .document => fillDocument it o
  | some .oid => some { it with nextOff := o + 12 }
  | some .bool => some { it with nextOff := o + 1 }
  | some .regex => fillRegex it o
  | some .dbpointer => fillDbpointer it o
  | some .codewscope => fillCodewscope it o
  | some .int32 => some { it with nextOff := o + 4 }
  | some .maxkey | some .minkey | some .null | some .undefined =>
    some { it with d1 := 2 ^ 32 - 1, nextOff := o }
  | some .eod | none => none

/-- `bson_iter_next`: the next element, or `none` where the source marks the iterator invalid. -/
def bsonIterNext (it : BsonIter) : Option BsonIter :=
  let off := it.nextOff
  match scanNul it.raw (off + 1) (it.len - (off + 1)) with
  | none => none
  | some nul =>
    let o := nul + 1
    let it := { it with off := off, type := off, key := off + 1, d1 := o, d2 := 0, d3 := 0, d4 := 0 }
    match fillDataFields it o with
    | none => none
    | some it => if it.nextOff ≥ it.len then none else some it

/-! ## What an accepted element is -/

/-- The document of an iterator lies in its memory object. -/
def BsonIter.Fits (it : BsonIter) : Prop := it.len ≤ it.raw.length

theorem bsonIterInit_fits (b : Bson) : (bsonIterInit b).Fits := by
  unfold bsonIterInit BsonIter.Fits
  split <;> simp

theorem scanNul_lt {raw : Bytes} {n o p : Nat} (h : scanNul raw o n = some p) :
    o ≤ p ∧ p < o + n ∧ raw.getD p 0 = 0 := by
  induction n generalizing o with
  | zero => cases h
  | succ n ih =>
    rw [scanNul] at h
    split at h
    · next h0 =>
      cases h
      exact ⟨le_refl _, by omega, h0⟩
    · obtain ⟨h1, h2, h3⟩ := ih h
      exact ⟨by omega, by omega, h3⟩

theorem fillString_eq {it it' : BsonIter} {o : Nat} (h : fillString it o = some it') :
    it' = { it with d2 := o + 4, nextOff := o + 4 + it.uint32At it.d1 } ∧ 0 < it.uint32At it.d1 ∧
      it.byte (o + 4 + (it.uint32At it.d1 - 1)) = 0 := by
  simp only [fillString, Option.ite_none_left_eq_some, Option.some.injEq, not_or, not_not] at h
  obtain ⟨-, -, ⟨h0, -⟩, hnul, rfl⟩ := h
  exact ⟨rfl, Nat.pos_of_ne_zero h0, hnul⟩

theorem fillBinary_eq {it it' : BsonIter} {o : Nat} (h : fillBinary it o = some it') :
    it' = { it with d2 := o + 4, d3 := o + 5, nextOff := o + 5 + it.uint32At it.d1 } ∧
      (it.byte (o + 4) = binaryDeprecated → 4 ≤ it.uint32At it.d1) := by
  simp only [fillBinary, Option.ite_none_left_eq_some, Option.some.injEq, not_and, not_lt] at h
  obtain ⟨-, -, hsub, rfl⟩ := h
  exact ⟨rfl, hsub⟩

theorem fillDocument_eq {it it' : BsonIter} {o : Nat} (h : fillDocument it o = some it') :
    it' = { it with nextOff := o + it.uint32At it.d1 } ∧ o + 4 < it.len := by
  simp only [fillDocument, Option.ite_none_left_eq_some, Option.some.injEq, not_le, ge_iff_le] at h
  obtain ⟨ho, -, rfl⟩ := h
  exact ⟨rfl, by omega⟩

theorem fillRegex_eq {it it' : BsonIter} {o : Nat} (h : fillRegex it o = some it') :
    ∃ d2 n, it' = { it with d2 := d2, nextOff := n } ∧ o ≤ n := by
  unfold fillRegex at h
  split at h
  · cases h
  · next eor heor =>
    split at h
    · cases h
    · next eoo heoo =>
      cases h
      exact ⟨eor + 1, eoo + 1, rfl, by have := scanNul_lt heor; have := scanNul_lt heoo; omega⟩

theorem fillDbpointer_eq {it it' : BsonIter} {o : Nat} (h : fillDbpointer it o = some it') :
    ∃ d3 n, it' = { it with d2 := o + 4, d3 := d3, nextOff := n } ∧ o ≤ n := by
  simp only [fillDbpointer, Option.ite_none_left_eq_some, Option.some.injEq] at h
  obtain ⟨-, -, rfl⟩ := h
  exact ⟨_, _, rfl, by omega⟩

theorem fillCodewscope_eq {it it' : BsonIter} {o : Nat} (h : fillCodewscope it o = some it') :
    ∃ d4 n, it' = { it with d2 := o + 4, d3 := o + 8, d4 := d4, nextOff := n } ∧ o ≤ n := by
  simp only [fillCodewscope, Option.ite_none_left_eq_some, Option.some.injEq] at h
  obtain ⟨-, -, -, -, -, -, rfl⟩ := h
  exact ⟨_, _, rfl, by omega⟩

/-- The `switch` writes field offsets only, and the next element starts behind `o`. -/
theorem fillDataFields_eq {it it' : BsonIter} {o : Nat} (h : fillDataFields it o = some it') :
    ∃ d1 d2 d3 d4 n, it' = { it with d1 := d1, d2 := d2, d3 := d3, d4 := d4, nextOff := n } ∧
      o ≤ n := by
  unfold fillDataFields at h
  split at h
  all_goals
    first
    | cases h; done
    | cases h; exact ⟨_, _, _, _, _, rfl, by omega⟩
    | obtain ⟨rfl, -⟩ := fillString_eq h; exact ⟨_, _, _, _, _, rfl, by omega⟩
    | obtain ⟨rfl, -⟩ := fillBinary_eq h; exact ⟨_, _, _, _, _, rfl, by omega⟩
    | obtain ⟨rfl, -⟩ := fillDocument_eq h; exact ⟨_, _, _, _, _, rfl, by omega⟩
    | obtain ⟨_, _, rfl, ho⟩ := fillRegex_eq h; exact ⟨_, _, _, _, _, rfl, ho⟩
    | obtain ⟨_, _, rfl, ho⟩ := fillDbpointer_eq h; exact ⟨_, _, _, _, _, rfl, ho⟩
    | obtain ⟨_, _, rfl, ho⟩ := fillCodewscope_eq h; exact ⟨_, _, _, _, _, rfl, ho⟩

/-- `bson_iter_next` entering the element whose value starts at `o`, before the `switch`. -/
def BsonIter.enter (it : BsonIter) (o : Nat) : BsonIter :=
  { it with off := it.nextOff, type := it.nextOff, key := it.nextOff + 1, d1 := o, d2 := 0, d3 := 0,
            d4 := 0 }

theorem bsonIterNext_eq_some {it it' : BsonIter} :
    bsonIterNext it = some it' ↔
      ∃ nul, scanNul it.raw (it.nextOff + 1) (it.len - (it.nextOff + 1)) = some nul ∧
        fillDataFields (it.enter (nul + 1)) (nul + 1) = some it' ∧ it'.nextOff < it.len := by
  unfold bsonIterNext
  constructor
  · intro h
    dsimp only at h
    split at h
    · cases h
    · next nul hnul =>
      refine ⟨nul, hnul, ?_⟩
      split at h
      · cases h
      · next it₁ hfill =>
        obtain ⟨_, _, _, _, n, rfl, -⟩ := fillDataFields_eq hfill
        split at h
        · cases h
        · next hlt =>
          cases h
          exact ⟨hfill, by simpa using hlt⟩
  · rintro ⟨nul, hnul, hfill, hlt⟩
    have hlen : it'.len = it.len := by
      obtain ⟨_, _, _, _, n, rfl, -⟩ := fillDataFields_eq hfill
      rfl
    rw [BsonIter.enter] at hfill
    dsimp only
    rw [hnul]
    dsimp only
    rw [hfill]
    dsimp only
    rw [if_neg (by omega)]

/-- An element `bson_iter_next` accepted: it lies inside the document, the value starts behind the
key, and the field offsets of the types that have some are where the accessors expect them. -/
structure BsonIter.Accepted (it : BsonIter) : Prop where
  fits : it.Fits
  off_lt : it.off < it.nextOff
  next_lt : it.nextOff < it.len
  eight : it.bsonType ∈ [some .dateTime, some .double, some .int64, some .timestamp] →
    it.d1 + 8 = it.nextOff
  four : it.bsonType = some .int32 → it.d1 + 4 = it.nextOff
  oid : it.bsonType = some .oid → it.d1 + 12 = it.nextOff
  bool : it.bsonType = some .bool → it.d1 + 1 = it.nextOff
  string : it.bsonType ∈ [some .code, some .symbol, some .utf8] →
    it.d2 = it.d1 + 4 ∧ 0 < it.uint32At it.d1 ∧ it.d2 + it.uint32At it.d1 = it.nextOff ∧
      it.byte (it.d2 + (it.uint32At it.d1 - 1)) = 0
  binary : it.bsonType = some .binary →
    it.d2 = it.d1 + 4 ∧ it.d3 = it.d1 + 5 ∧ it.d3 + it.uint32At it.d1 = it.nextOff ∧
      (it.byte it.d2 = binaryDeprecated → 4 ≤ it.uint32At it.d1)
  document : it.bsonType ∈ [some .array, some .document] →
    it.d1 + 4 < it.len ∧ it.d1 + it.uint32At it.d1 = it.nextOff
  known : it.bsonType ≠ none

theorem bsonIterNext_accepted {it it' : BsonIter} (hf : it.Fits) (h : bsonIterNext it = some it') :
    it'.Accepted ∧ it'.raw = it.raw ∧ it'.len = it.len ∧ it.nextOff < it'.nextOff := by
  obtain ⟨nul, hnul, hfill, hlt⟩ := bsonIterNext_eq_some.mp h
  have ho := scanNul_lt hnul
  generalize hit : it.enter (nul + 1) = it₁ at hfill
  have hd : it₁.d1 = nul + 1 := by rw [← hit]; rfl
  have hoff : it₁.off = it.nextOff := by rw [← hit]; rfl
  have hraw : it₁.raw = it.raw := by rw [← hit]; rfl
  have hlen : it₁.len = it.len := by rw [← hit]; rfl
  obtain ⟨_, _, _, _, n, heq, hn⟩ := fillDataFields_eq hfill
  have hty : it'.bsonType = it₁.bsonType := by rw [heq]; rfl
  have hlen' : it'.len = it.len := by rw [heq]; exact hlen
  have hraw' : it'.raw = it.raw := by rw [heq]; exact hraw
  have hoff' : it'.off = it.nextOff := by rw [heq]; exact hoff
  have hnext : nul + 1 ≤ it'.nextOff := by rw [heq]; exact hn
  unfold fillDataFields at hfill
  refine ⟨⟨?_, ?_, ?_, ?_, ?_, ?_, ?_, ?_, ?_, ?_, ?_⟩, hraw', hlen', by omega⟩
  · rw [BsonIter.Fits, hraw', hlen']; exact hf
  · omega
  · omega
  · intro ht
    rw [hty] at ht
    simp only [List.mem_cons, List.not_mem_nil, or_false] at ht
    rcases ht with ht | ht | ht | ht <;> rw [ht] at hfill <;> cases hfill <;> simp [hd]
  · intro ht
    rw [← hty, ht] at hfill
    cases hfill
    simp [hd]
  · intro ht
    rw [← hty, ht] at hfill
    cases hfill
    simp [hd]
  · intro ht
    rw [← hty, ht] at hfill
    cases hfill
    simp [hd]
  · intro ht
    have hs : fillString it₁ (nul + 1) = some it' := by
      rw [hty] at ht
      simp only [List.mem_cons, List.not_mem_nil, or_false] at ht
      rcases ht with ht | ht | ht <;> rw [ht] at hfill <;> exact hfill
    obtain ⟨rfl, hpos, hzero⟩ := fillString_eq hs
    rw [hd] at hpos hzero
    simp only [hd]
    exact ⟨trivial, hpos, rfl, hzero⟩
  · intro ht
    have hs : fillBinary it₁ (nul + 1) = some it' := by rw [← hty, ht] at hfill; exact hfill
    obtain ⟨rfl, hsub⟩ := fillBinary_eq hs
    rw [hd] at hsub
    simp only [hd]
    exact ⟨trivial, trivial, rfl, hsub⟩
  · intro ht
    have hs : fillDocument it₁ (nul + 1) = some it' := by
      rw [hty] at ht
      simp only [List.mem_cons, List.not_mem_nil, or_false] at ht
      rcases ht with ht | ht <;> rw [ht] at hfill <;> exact hfill
    obtain ⟨rfl, hlt4⟩ := fillDocument_eq hs
    simp only [hd]
    exact ⟨hlt4, rfl⟩
  · intro ht
    rw [← hty, ht] at hfill
    cases hfill

end Monary
