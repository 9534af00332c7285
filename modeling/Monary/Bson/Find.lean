import Monary.Bson.Iter
import Monary.Lib.CInt

/-!
# Finding an element and reading its value

* `bsonIterElements` : the positions of a `while (bson_iter_next (iter))` loop; it needs no more turns
  than the document has bytes (`bsonIterElements_eq`);
* `bsonIterFindWithLen`, `bsonIterFindDescendant` : the dotted-path search, which ends at an accepted
  element (`bsonIterFindDescendant_accepted`), an `Element`;
* `bsonIterUtf8`, `bsonIterBinary`, `bsonIterDocument`, ... : the accessors. A pointer result is the
  bytes from it to the end of the memory object, `none` is `NULL`.
-/

namespace Monary
open ByteSeq CInt

/-! ## Walking a document -/

/-- At most `n` turns of `while (bson_iter_next (iter))`: the positions it stops at. -/
def bsonIterWalk : Nat → BsonIter → List BsonIter
  | 0, _ => []
  | n + 1, it =>
    match bsonIterNext it with
    | none => []
    | some it' => it' :: bsonIterWalk n it'

/-- The positions of `while (bson_iter_next (iter))`; each turn moves at least one byte on. -/
def bsonIterElements (it : BsonIter) : List BsonIter := bsonIterWalk it.len it

theorem bsonIterNext_lt {it it' : BsonIter} (h : bsonIterNext it = some it') :
    it'.len = it.len ∧ it.nextOff < it'.nextOff ∧ it'.nextOff < it.len := by
  obtain ⟨nul, hnul, hfill, hlt⟩ := bsonIterNext_eq_some.mp h
  obtain ⟨_, _, _, _, n, rfl, hn⟩ := fillDataFields_eq hfill
  have := scanNul_lt hnul
  exact ⟨rfl, by dsimp only; omega, hlt⟩

theorem bsonIterNext_none_of_le {it : BsonIter} (h : it.len ≤ it.nextOff) :
    bsonIterNext it = none := by
  cases hn : bsonIterNext it with
  | none => rfl
  | some it' => exact absurd (bsonIterNext_lt hn) (by omega)

/-- With as many turns as there are bytes left, the number of turns no longer matters. -/
theorem bsonIterWalk_stable {n m : Nat} {it : BsonIter} (hn : it.len - it.nextOff ≤ n)
    (hm : it.len - it.nextOff ≤ m) : bsonIterWalk n it = bsonIterWalk m it := by
  induction n generalizing it m with
  | zero =>
    cases m with
    | zero => rfl
    | succ m => rw [bsonIterWalk, bsonIterWalk, bsonIterNext_none_of_le (by omega)]
  | succ n ih =>
    cases m with
    | zero => rw [bsonIterWalk, bsonIterWalk, bsonIterNext_none_of_le (by omega)]
    | succ m =>
      rw [bsonIterWalk, bsonIterWalk]
      cases hx : bsonIterNext it with
      | none => rfl
      | some it' =>
        have := bsonIterNext_lt hx
        dsimp only
        rw [ih (m := m) (by omega) (by omega)]

/-- The loop, one turn unrolled. -/
theorem bsonIterElements_eq (it : BsonIter) :
    bsonIterElements it =
      match bsonIterNext it with
      | none => []
      | some it' => it' :: bsonIterElements it' := by
  unfold bsonIterElements
  rw [bsonIterWalk_stable (m := it.len + 1) (by omega) (by omega), bsonIterWalk]
  cases hx : bsonIterNext it with
  | none => rfl
  | some it' =>
    have := bsonIterNext_lt hx
    dsimp only
    rw [bsonIterWalk_stable (m := it'.len) (by omega) (by omega)]

theorem bsonIterWalk_accepted {n : Nat} {it e : BsonIter} (hf : it.Fits) (he : e ∈ bsonIterWalk n it) :
    e.Accepted ∧ e.raw = it.raw ∧ e.len = it.len := by
  induction n generalizing it with
  | zero => cases he
  | succ n ih =>
    rw [bsonIterWalk] at he
    split at he
    · cases he
    · next it' hx =>
      obtain ⟨hacc, hraw, hlen, -⟩ := bsonIterNext_accepted hf hx
      rcases List.mem_cons.mp he with rfl | he
      · exact ⟨hacc, hraw, hlen⟩
      · obtain ⟨h1, h2, h3⟩ := ih hacc.fits he
        exact ⟨h1, h2.trans hraw, h3.trans hlen⟩

/-! ## Accessors -/

namespace BsonIter
variable (it : BsonIter)

def ptr (o : Nat) : Bytes := it.raw.drop o

/-- `bson_iter_utf8_len_unsafe`. -/
def utf8LenUnsafe : Nat := (max 0 (toInt32 (it.uint32At it.d1) - 1)).toNat

end BsonIter

/-- `bson_iter_key`, up to its NUL. -/
def bsonIterKey (it : BsonIter) : Bytes := (it.ptr it.key).takeWhile (· != 0)

def bsonIterUtf8 (it : BsonIter) : Option Bytes × Nat :=
  if it.bsonType = some .utf8 then (some (it.ptr it.d2), it.utf8LenUnsafe) else (none, 0)

/-- `bson_iter_binary` called with a `binary` location: the inner length prefix of the deprecated
subtype is skipped. -/
def bsonIterBinary (it : BsonIter) : Option Bytes × Nat :=
  if it.bsonType = some .binary then
    let binaryLen := it.uint32At it.d1
    let binary := it.ptr it.d3
    if it.byte it.d2 = binaryDeprecated then (some (binary.drop 4), toUInt32 (binaryLen - 4))
    else (some binary, binaryLen)
  else (none, 0)

def bsonIterDocument (it : BsonIter) : Option Bytes × Nat :=
  if it.bsonType = some .document then (some (it.ptr it.d1), it.uint32At it.d1) else (none, 0)

def bsonIterArray (it : BsonIter) : Option Bytes × Nat :=
  if it.bsonType = some .array then (some (it.ptr it.d1), it.uint32At it.d1) else (none, 0)

def bsonIterOid (it : BsonIter) : Option Bytes :=
  if it.bsonType = some .oid then some (it.ptr it.d1) else none

def bsonIterBool (it : BsonIter) : Bool :=
  if it.bsonType = some .bool then it.byte it.d1 != 0 else false

/-- `bson_iter_double`, as the bit pattern of the double. -/
def bsonIterDouble (it : BsonIter) : Nat :=
  if it.bsonType = some .double then leNat (slice it.raw it.d1 8) else 0

def bsonIterInt32 (it : BsonIter) : Int :=
  if it.bsonType = some .int32 then toInt32 (it.uint32At it.d1) else 0

def bsonIterInt64 (it : BsonIter) : Int :=
  if it.bsonType = some .int64 then toInt64 (leNat (slice it.raw it.d1 8)) else 0

def bsonIterDateTime (it : BsonIter) : Int :=
  if it.bsonType = some .dateTime then toInt64 (leNat (slice it.raw it.d1 8)) else 0

/-- `bson_iter_timestamp`: the seconds and the increment. -/
def bsonIterTimestamp (it : BsonIter) : Nat × Nat :=
  if it.bsonType = some .timestamp then
    let encoded := leNat (slice it.raw it.d1 8)
    (encoded / 2 ^ 32, encoded % 2 ^ 32)
  else (0, 0)

/-- `bson_iter_recurse`. -/
def bsonIterRecurse (it : BsonIter) : Option BsonIter :=
  let child (data : Option Bytes × Nat) : BsonIter :=
    ⟨data.1.getD [], data.2, 0, 0, 0, 0, 0, 0, 0, 4⟩
  if it.bsonType = some .document then some (child (bsonIterDocument it))
  else if it.bsonType = some .array then some (child (bsonIterArray it))
  else none

/-! ### What the accessors give on an accepted element -/

theorem bsonIterUtf8_isSome (it : BsonIter) :
    (bsonIterUtf8 it).1.isSome ↔ it.bsonType = some .utf8 := by
  unfold bsonIterUtf8
  by_cases h : it.bsonType = some .utf8
  · rw [if_pos h]
    exact ⟨fun _ => h, fun _ => rfl⟩
  · rw [if_neg h]
    exact ⟨fun hs => absurd hs Bool.false_ne_true, fun ht => absurd ht h⟩

theorem bsonIterBinary_isSome (it : BsonIter) :
    (bsonIterBinary it).1.isSome ↔ it.bsonType = some .binary := by
  unfold bsonIterBinary
  by_cases h : it.bsonType = some .binary
  · rw [if_pos h]
    refine ⟨fun _ => h, fun _ => ?_⟩
    dsimp only
    split <;> rfl
  · rw [if_neg h]
    exact ⟨fun hs => absurd hs Bool.false_ne_true, fun ht => absurd ht h⟩

theorem bsonIterDocument_isSome (it : BsonIter) :
    (bsonIterDocument it).1.isSome ↔ it.bsonType = some .document := by
  unfold bsonIterDocument
  by_cases h : it.bsonType = some .document
  · rw [if_pos h]
    exact ⟨fun _ => h, fun _ => rfl⟩
  · rw [if_neg h]
    exact ⟨fun hs => absurd hs Bool.false_ne_true, fun ht => absurd ht h⟩

theorem BsonIter.uint32At_lt (it : BsonIter) (o : Nat) : it.uint32At o < 2 ^ 32 := by
  have h := leNat_lt (slice it.raw o 4)
  have hl : (slice it.raw o 4).length ≤ 4 := by rw [slice, List.length_take]; omega
  calc it.uint32At o < 256 ^ (slice it.raw o 4).length := h
    _ ≤ 256 ^ 4 := Nat.pow_le_pow_right (by decide) hl
    _ = 2 ^ 32 := by norm_num

/-- The content of a string element, its NUL left out, lies in the memory object. -/
theorem BsonIter.Accepted.utf8 {it : BsonIter} (h : it.Accepted) (hs : it.len < 2 ^ 31)
    (ht : it.bsonType = some .utf8) :
    bsonIterUtf8 it = (some (it.ptr it.d2), it.uint32At it.d1 - 1) ∧
      it.d2 + it.uint32At it.d1 < it.raw.length := by
  obtain ⟨h1, h2, h3, -⟩ := h.string (by simp [ht])
  have h4 := h.next_lt
  have h5 := h.fits
  rw [Fits] at h5
  refine ⟨?_, by omega⟩
  rw [bsonIterUtf8, if_pos ht, utf8LenUnsafe, toInt32_natCast (by omega)]
  congr 1
  omega

/-- The data of a binary element lies in the memory object. -/
theorem BsonIter.Accepted.binaryData {it : BsonIter} (h : it.Accepted) (ht : it.bsonType = some .binary) :
    ∃ p, (bsonIterBinary it).1 = some p ∧ (bsonIterBinary it).2 ≤ p.length := by
  obtain ⟨h1, h2, h3, h4⟩ := h.binary ht
  have h5 := h.next_lt
  have h6 := h.fits
  have h7 := it.uint32At_lt it.d1
  rw [Fits] at h6
  rw [bsonIterBinary, if_pos ht]
  dsimp only
  split
  · next hsub =>
    refine ⟨_, rfl, ?_⟩
    have hl := h4 hsub
    have hu : toUInt32 ((it.uint32At it.d1 : Int) - 4) = it.uint32At it.d1 - 4 := by
      rw [toUInt32]
      omega
    rw [hu, List.length_drop, ptr, List.length_drop]
    omega
  · refine ⟨_, rfl, ?_⟩
    rw [ptr, List.length_drop]
    omega

theorem bsonIterBinary_lt (it : BsonIter) : (bsonIterBinary it).2 < 2 ^ 32 := by
  unfold bsonIterBinary
  split
  · dsimp only
    split
    · exact toUInt32_lt _
    · exact it.uint32At_lt _
  · exact Nat.two_pow_pos 32

theorem BsonIter.Accepted.documentData {it : BsonIter} (h : it.Accepted)
    (ht : it.bsonType ∈ [some .array, some .document]) :
    it.uint32At it.d1 ≤ (it.ptr it.d1).length ∧ it.uint32At it.d1 < it.len := by
  obtain ⟨h1, h2⟩ := h.document ht
  have h3 := h.next_lt
  have h4 := h.fits
  rw [Fits] at h4
  rw [ptr, List.length_drop]
  omega

theorem BsonIter.Accepted.length_slice {it : BsonIter} (h : it.Accepted) {n : Nat}
    (hn : it.d1 + n = it.nextOff) : (slice it.raw it.d1 n).length = n := by
  have h1 := h.next_lt
  have h2 := h.fits
  rw [Fits] at h2
  exact ByteSeq.length_slice (by omega)

theorem bsonIterRecurse_fits {it child : BsonIter} (h : it.Accepted)
    (hr : bsonIterRecurse it = some child) : child.Fits ∧ child.len < it.len := by
  rw [bsonIterRecurse] at hr
  split at hr
  · next ht =>
    cases hr
    have := h.documentData (by simp [ht])
    simp only [bsonIterDocument, if_pos ht, BsonIter.Fits, Option.getD_some]
    exact this
  · split at hr
    · next ht =>
      cases hr
      have := h.documentData (by simp [ht])
      simp only [bsonIterArray, if_pos ht, BsonIter.Fits, Option.getD_some]
      exact this
    · cases hr

/-! ## Finding -/

/-- `_bson_iter_find_with_len`: the first element from here on whose key is `key`, which is not empty. -/
def bsonIterFindWithLen (it : BsonIter) (key : Bytes) : Option BsonIter :=
  if key = [] then none else (bsonIterElements it).find? (fun e => bsonIterKey e == key)

def dotByte : UInt8 := 0x2E

/-- The parts of a dotted name between the places `strchr (dotkey, '.')` finds. -/
def dotPath : Bytes → List Bytes
  | [] => [[]]
  | c :: cs =>
    if c = dotByte then [] :: dotPath cs
    else
      match dotPath cs with
      | [] => [[c]]
      | sub :: rest => (c :: sub) :: rest

/-- `bson_iter_find_descendant` over the parts of its dotted name. -/
def bsonIterFindPath : BsonIter → List Bytes → Option BsonIter
  | _, [] => none
  | it, [sub] => bsonIterFindWithLen it sub
  | it, sub :: rest =>
    match bsonIterFindWithLen it sub with
    | none => none
    | some e =>
      if e.bsonType = some .document ∨ e.bsonType = some .array then
        match bsonIterRecurse e with
        | some tmp => bsonIterFindPath tmp rest
        | none => none
      else none

def bsonIterFindDescendant (it : BsonIter) (dotkey : Bytes) : Option BsonIter :=
  bsonIterFindPath it (dotPath dotkey)

theorem bsonIterFindWithLen_accepted {it e : BsonIter} {key : Bytes} (hf : it.Fits)
    (h : bsonIterFindWithLen it key = some e) : e.Accepted ∧ e.len = it.len := by
  rw [bsonIterFindWithLen] at h
  split at h
  · cases h
  · obtain ⟨h1, -, h3⟩ := bsonIterWalk_accepted hf (List.mem_of_find?_eq_some h)
    exact ⟨h1, h3⟩

theorem bsonIterFindPath_accepted {path : List Bytes} {it e : BsonIter} (hf : it.Fits)
    (h : bsonIterFindPath it path = some e) : e.Accepted ∧ e.len ≤ it.len := by
  induction path generalizing it with
  | nil => cases h
  | cons sub rest ih =>
    cases rest with
    | nil =>
      obtain ⟨h1, h2⟩ := bsonIterFindWithLen_accepted hf h
      exact ⟨h1, le_of_eq h2⟩
    | cons r rs =>
      rw [bsonIterFindPath] at h
      · split at h
        · cases h
        · next x hx =>
          obtain ⟨hacc, hlen⟩ := bsonIterFindWithLen_accepted hf hx
          split at h
          · split at h
            · next tmp htmp =>
              obtain ⟨h1, h2⟩ := bsonIterRecurse_fits hacc htmp
              obtain ⟨h3, h4⟩ := ih h1 h
              exact ⟨h3, by omega⟩
            · cases h
          · cases h
      · simp

/-- What the path search finds was accepted by `bson_iter_next`. -/
theorem bsonIterFindDescendant_accepted {b : Bson} {key : Bytes} {e : BsonIter}
    (h : bsonIterFindDescendant (bsonIterInit b) key = some e) : e.Accepted ∧ e.len < 2 ^ 31 := by
  obtain ⟨h1, h2⟩ := bsonIterFindPath_accepted (bsonIterInit_fits b) h
  have h3 : (bsonIterInit b).len ≤ b.data.length := by
    unfold bsonIterInit
    split <;> simp
  exact ⟨h1, by have := b.small; omega⟩

/-- An element of a document of the driver: what the loaders are called on. -/
structure Element where
  iter : BsonIter
  accepted : iter.Accepted
  small : iter.len < 2 ^ 31

theorem Element.ofFind {b : Bson} {key : Bytes} {it : BsonIter}
    (h : bsonIterFindDescendant (bsonIterInit b) key = some it) : ∃ e : Element, e.iter = it :=
  ⟨⟨it, (bsonIterFindDescendant_accepted h).1, (bsonIterFindDescendant_accepted h).2⟩, rfl⟩

/-- The element a path leads to. -/
def Element.find (b : Bson) (key : Bytes)
    (h : (bsonIterFindDescendant (bsonIterInit b) key).isSome = true) : Element where
  iter := (bsonIterFindDescendant (bsonIterInit b) key).get h
  accepted := (bsonIterFindDescendant_accepted (Option.some_get h).symm).1
  small := (bsonIterFindDescendant_accepted (Option.some_get h).symm).2

end Monary
