import Monary.Bson.Moved

/-!
# Well-formed values

* `Field`, `documentBytes` : an element, and a document of elements;
* `Layout` : the bytes of a value of each type;
* `bsonIterNext_field` : `bson_iter_next` comes to every well-formed element, and `length_bsonIterElements` : so it
  comes to as many elements as a document has.
-/

namespace Monary
open ByteSeq

/-- An element: its type, its name and the bytes of its value. -/
structure Field where
  type : BsonType
  name : Bytes
  value : Bytes

def Field.bytes (f : Field) : Bytes := f.type.toByte :: (f.name ++ 0 :: f.value)

/-- A document: its length, its elements and a NUL. -/
def documentBytes (fields : List Field) : Bytes :=
  leBytes 4 ((fields.flatMap Field.bytes).length + 5) ++ (fields.flatMap Field.bytes ++ [0])

/-- A string: its length with the NUL, its content and the NUL. -/
def stringBytes (content : Bytes) : Bytes := leBytes 4 (content.length + 1) ++ (content ++ [0])

/-- The bytes of a value of a type. -/
inductive Layout : BsonType → Bytes → Prop where
  | eight {type value} (ht : type ∈ [BsonType.double, .dateTime, .timestamp, .int64]) (hv : value.length = 8) :
      Layout type value
  | four {value} (hv : value.length = 4) : Layout .int32 value
  | one {value} (hv : value.length = 1) : Layout .bool value
  | twelve {value} (hv : value.length = 12) : Layout .oid value
  | empty {type} (ht : type ∈ [BsonType.undefined, .null, .minkey, .maxkey]) : Layout type []
  | string {type} (ht : type ∈ [BsonType.utf8, .code, .symbol]) (content : Bytes) : Layout type (stringBytes content)
  | binary (subtype : UInt8) (data : Bytes) (hold : subtype = binaryDeprecated → 4 ≤ data.length) :
      Layout .binary (leBytes 4 data.length ++ subtype :: data)
  | regex (pattern options : Bytes) (hp : 0 ∉ pattern) (ho : 0 ∉ options) :
      Layout .regex (pattern ++ 0 :: (options ++ [0]))
  | dbpointer (content id : Bytes) (hid : id.length = 12) : Layout .dbpointer (stringBytes content ++ id)
  | codewscope (content : Bytes) (fields : List Field) (hn : ∀ f ∈ fields, 0 ∉ f.name)
      (hv : ∀ f ∈ fields, Layout f.type f.value) :
      Layout .codewscope (leBytes 4 (4 + (stringBytes content).length + (documentBytes fields).length) ++
        (stringBytes content ++ documentBytes fields))
  | document {type} (ht : type ∈ [BsonType.document, .array]) (fields : List Field) (hn : ∀ f ∈ fields, 0 ∉ f.name)
      (hv : ∀ f ∈ fields, Layout f.type f.value) : Layout type (documentBytes fields)

@[simp] theorem length_documentBytes (fields : List Field) :
    (documentBytes fields).length = (fields.flatMap Field.bytes).length + 5 := by
  unfold documentBytes
  simp only [List.length_append, length_leBytes, List.length_singleton]
  omega

@[simp] theorem length_stringBytes (content : Bytes) : (stringBytes content).length = content.length + 5 := by
  unfold stringBytes
  simp only [List.length_append, length_leBytes, List.length_singleton]
  omega

/-! ## Bytes at a place -/

/-- The bytes are in the memory at `o`. -/
def Lies (raw : Bytes) (o : Nat) (bytes : Bytes) : Prop := slice raw o bytes.length = bytes

section Lies
variable {raw : Bytes} {o : Nat}

theorem Lies.append {a b : Bytes} (h : Lies raw o (a ++ b)) : Lies raw o a ∧ Lies raw (o + a.length) b := by
  unfold Lies at h ⊢
  rw [List.length_append] at h
  have hsplit : slice raw o (a.length + b.length) = slice raw o a.length ++ slice raw (o + a.length) b.length := by
    unfold slice
    rw [List.take_add, List.drop_drop]
  rw [hsplit] at h
  have hle : (slice raw (o + a.length) b.length).length ≤ b.length := by
    unfold slice
    exact List.length_take_le _ _
  have hle' : (slice raw o a.length).length ≤ a.length := by
    unfold slice
    exact List.length_take_le _ _
  have hlen := congrArg List.length h
  rw [List.length_append, List.length_append] at hlen
  exact List.append_inj h (by omega)

theorem Lies.byte {b : UInt8} {bytes : Bytes} (h : Lies raw o (b :: bytes)) : raw.getD o 0 = b := by
  have hget := congrArg (·[0]?) h
  simp only [getElem?_slice, List.length_cons, Nat.zero_lt_succ, if_true, Nat.add_zero, List.getElem?_cons_zero] at hget
  rw [List.getD_eq_getElem?_getD, hget]
  rfl

theorem Lies.tail {b : UInt8} {bytes : Bytes} (h : Lies raw o (b :: bytes)) : Lies raw (o + 1) bytes :=
  (Lies.append (a := [b]) h).2

theorem Lies.leNat {n w : Nat} (h : Lies raw o (leBytes w n)) (hn : n < 256 ^ w) : leNat (slice raw o w) = n := by
  unfold Lies at h
  rw [length_leBytes] at h
  rw [h, leNat_leBytes, Nat.mod_eq_of_lt hn]

/-- The NUL behind a name is found. -/
theorem Lies.scanNul {name rest : Bytes} {n : Nat} (h : Lies raw o (name ++ 0 :: rest)) (hname : 0 ∉ name)
    (hn : name.length < n) : scanNul raw o n = some (o + name.length) := by
  induction name generalizing o n with
  | nil =>
    obtain ⟨n, rfl⟩ := Nat.exists_eq_succ_of_ne_zero (Nat.ne_zero_of_lt hn)
    rw [Monary.scanNul, if_pos h.byte]
    rfl
  | cons b name ih =>
    obtain ⟨n, rfl⟩ := Nat.exists_eq_succ_of_ne_zero (Nat.ne_zero_of_lt hn)
    rw [List.mem_cons, not_or] at hname
    have hlies : Lies raw o (b :: (name ++ 0 :: rest)) := h
    have hb : raw.getD o 0 = b := hlies.byte
    rw [Monary.scanNul, hb, if_neg (Ne.symm hname.1), ih (Lies.tail h) hname.2 (Nat.lt_of_succ_lt_succ hn),
      List.length_cons, Nat.add_assoc, Nat.add_comm 1]

end Lies

/-! ## The switch -/

section Fill
variable {it : BsonIter} {o : Nat}

/-- The length at the start of a string. -/
theorem lies_stringBytes {raw content : Bytes} (h : Lies raw o (stringBytes content)) (hlen : content.length + 1 < 2 ^ 32) :
    leNat (slice raw o 4) = content.length + 1 ∧ raw.getD (o + 4 + content.length) 0 = 0 := by
  obtain ⟨hl, hrest⟩ := Lies.append h
  rw [length_leBytes] at hrest
  exact ⟨hl.leNat (by omega), (Lies.append hrest).2.byte⟩

theorem lies_self (bytes : Bytes) : Lies bytes 0 bytes := by
  rw [Lies, slice, List.drop_zero, List.take_length]

theorem lies_documentBytes {raw : Bytes} {fields : List Field} (h : Lies raw o (documentBytes fields))
    (hlen : (fields.flatMap Field.bytes).length + 5 < 2 ^ 32) :
    leNat (slice raw o 4) = (fields.flatMap Field.bytes).length + 5 :=
  (Lies.append h).1.leNat (by omega)

/-- A document begins with its size. -/
theorem head_documentBytes {fields : List Field} (h : (documentBytes fields).length < 2 ^ 32) :
    leNat (slice (documentBytes fields) 0 4) = (documentBytes fields).length := by
  rw [length_documentBytes] at h ⊢
  exact lies_documentBytes (lies_self _) h

theorem last_documentBytes (fields : List Field) :
    (documentBytes fields)[(documentBytes fields).length - 1]? = some 0 := by
  rw [← List.getLast?_eq_getElem?, documentBytes, ← List.append_assoc, List.getLast?_concat]

theorem fillString_layout {content : Bytes} (hd : it.d1 = o) (h : Lies it.raw o (stringBytes content))
    (hroom : o + (content.length + 5) < it.len) (hlen : it.len < 2 ^ 31) :
    ∃ e, fillString it o = some e ∧ e.nextOff = o + (content.length + 5) := by
  obtain ⟨hl, hnul⟩ := lies_stringBytes h (by omega)
  have hu : it.uint32At it.d1 = content.length + 1 := by rw [hd]; exact hl
  have hbyte : it.byte (o + 4 + (content.length + 1 - 1)) = 0 := hnul
  unfold fillString
  dsimp only
  rw [hu, if_neg (by omega), if_neg (by omega), if_neg (by omega), if_neg (not_not.mpr hbyte)]
  exact ⟨_, rfl, by dsimp only; omega⟩

theorem fillBinary_layout {subtype : UInt8} {data : Bytes} (hold : subtype = binaryDeprecated → 4 ≤ data.length)
    (hd : it.d1 = o) (h : Lies it.raw o (leBytes 4 data.length ++ subtype :: data))
    (hroom : o + (data.length + 5) < it.len) (hlen : it.len < 2 ^ 31) :
    ∃ e, fillBinary it o = some e ∧ e.nextOff = o + (data.length + 5) := by
  obtain ⟨hl, hrest⟩ := Lies.append h
  rw [length_leBytes] at hrest
  have hu : it.uint32At it.d1 = data.length := by rw [hd]; exact hl.leNat (by omega)
  have hsub : it.byte (o + 4) = subtype := hrest.byte
  unfold fillBinary
  dsimp only
  rw [hu, hsub, if_neg (by omega), if_neg (by omega), if_neg (by
    rintro ⟨heq, hlt⟩
    have := hold heq
    omega)]
  exact ⟨_, rfl, by dsimp only; omega⟩

theorem fillDocument_layout {fields : List Field} (hd : it.d1 = o) (h : Lies it.raw o (documentBytes fields))
    (hroom : o + ((fields.flatMap Field.bytes).length + 5) < it.len) (hlen : it.len < 2 ^ 31) :
    ∃ e, fillDocument it o = some e ∧ e.nextOff = o + ((fields.flatMap Field.bytes).length + 5) := by
  have hu : it.uint32At it.d1 = (fields.flatMap Field.bytes).length + 5 := by
    rw [hd]
    exact lies_documentBytes h (by omega)
  unfold fillDocument
  dsimp only
  rw [hu, if_neg (by omega), if_neg (by omega)]
  exact ⟨_, rfl, rfl⟩

theorem fillRegex_layout {pattern options : Bytes} (hp : 0 ∉ pattern) (ho : 0 ∉ options)
    (h : Lies it.raw o (pattern ++ 0 :: (options ++ [0])))
    (hroom : o + (pattern.length + (options.length + 2)) < it.len) :
    ∃ e, fillRegex it o = some e ∧ e.nextOff = o + (pattern.length + (options.length + 2)) := by
  have hopt := (Lies.append h).2.tail
  have h1 := h.scanNul hp (show pattern.length < it.len - o by omega)
  have h2 := hopt.scanNul ho (show options.length < it.len - (o + pattern.length + 1) by omega)
  unfold fillRegex
  rw [h1]
  dsimp only
  rw [h2]
  exact ⟨_, rfl, by dsimp only; omega⟩

theorem fillDbpointer_layout {content id : Bytes} (hd : it.d1 = o)
    (h : Lies it.raw o (stringBytes content ++ id)) (hroom : o + (content.length + 17) < it.len) (hlen : it.len < 2 ^ 31) :
    ∃ e, fillDbpointer it o = some e ∧ e.nextOff = o + (content.length + 17) := by
  have hu : it.uint32At it.d1 = content.length + 1 := by
    rw [hd]
    exact (lies_stringBytes (Lies.append h).1 (by omega)).1
  unfold fillDbpointer
  dsimp only
  rw [hu, if_neg (by omega), if_neg (by omega)]
  exact ⟨_, rfl, by dsimp only; omega⟩

theorem fillCodewscope_layout {content : Bytes} {fields : List Field} {total : Nat} (hd : it.d1 = o)
    (htotal : total = 4 + (content.length + 5) + ((fields.flatMap Field.bytes).length + 5))
    (h : Lies it.raw o (leBytes 4 total ++ (stringBytes content ++ documentBytes fields))) (ho : 5 ≤ o)
    (hroom : o + total < it.len) (hlen : it.len < 2 ^ 31) :
    ∃ e, fillCodewscope it o = some e ∧ e.nextOff = o + total := by
  obtain ⟨hl, hrest⟩ := Lies.append h
  rw [length_leBytes] at hrest
  obtain ⟨hcontent, hscope⟩ := Lies.append hrest
  rw [length_stringBytes] at hscope
  have hu : it.uint32At it.d1 = total := by rw [hd]; exact hl.leNat (by omega)
  have hs : it.uint32At (o + 4) = content.length + 1 := (lies_stringBytes hcontent (by omega)).1
  have hf : it.uint32At (o + 4 + 4 + (content.length + 1)) = (fields.flatMap Field.bytes).length + 5 := by
    rw [show o + 4 + 4 + (content.length + 1) = o + 4 + (content.length + 5) by omega]
    exact lies_documentBytes hscope (by omega)
  unfold fillCodewscope
  dsimp only
  rw [hu, hs, hf, if_neg (by omega), if_neg (by omega), if_neg (by omega), if_neg (by omega), if_neg (by omega),
    if_neg (by omega)]
  exact ⟨_, rfl, rfl⟩

/-- The switch goes to the end of a well-formed value. -/
theorem fillDataFields_layout {type : BsonType} {value : Bytes} (h : Layout type value) (hty : it.bsonType = some type)
    (hd : it.d1 = o) (hlies : Lies it.raw o value) (ho : 5 ≤ o) (hroom : o + value.length < it.len)
    (hlen : it.len < 2 ^ 31) : ∃ e, fillDataFields it o = some e ∧ e.nextOff = o + value.length := by
  unfold fillDataFields
  rw [hty]
  cases h with
  | eight ht hv =>
    simp only [List.mem_cons, List.not_mem_nil, or_false] at ht
    rcases ht with rfl | rfl | rfl | rfl <;> exact ⟨_, rfl, by rw [hv]⟩
  | four hv => exact ⟨_, rfl, by rw [hv]⟩
  | one hv => exact ⟨_, rfl, by rw [hv]⟩
  | twelve hv => exact ⟨_, rfl, by rw [hv]⟩
  | empty ht =>
    simp only [List.mem_cons, List.not_mem_nil, or_false] at ht
    rcases ht with rfl | rfl | rfl | rfl <;> exact ⟨_, rfl, rfl⟩
  | string ht content =>
    rw [length_stringBytes] at hroom ⊢
    have hfill := fillString_layout hd hlies hroom hlen
    simp only [List.mem_cons, List.not_mem_nil, or_false] at ht
    rcases ht with rfl | rfl | rfl <;> exact hfill
  | binary subtype data hold =>
    have hvalue : (leBytes 4 data.length ++ subtype :: data).length = data.length + 5 := by
      simp only [List.length_append, length_leBytes, List.length_cons]
      omega
    rw [hvalue] at hroom ⊢
    exact fillBinary_layout hold hd hlies hroom hlen
  | regex pattern options hp hopt =>
    have hvalue : (pattern ++ 0 :: (options ++ [0])).length = pattern.length + (options.length + 2) := by
      simp only [List.length_append, List.length_cons, List.length_nil]
    rw [hvalue] at hroom ⊢
    exact fillRegex_layout hp hopt hlies hroom
  | dbpointer content id hid =>
    have hvalue : (stringBytes content ++ id).length = content.length + 17 := by
      rw [List.length_append, length_stringBytes, hid]
    rw [hvalue] at hroom ⊢
    exact fillDbpointer_layout hd hlies hroom hlen
  | codewscope content fields hn hv =>
    rw [length_stringBytes, length_documentBytes] at hlies hroom ⊢
    have hvalue : (leBytes 4 (4 + (content.length + 5) + ((fields.flatMap Field.bytes).length + 5)) ++
        (stringBytes content ++ documentBytes fields)).length =
          4 + (content.length + 5) + ((fields.flatMap Field.bytes).length + 5) := by
      rw [List.length_append, length_leBytes, List.length_append, length_stringBytes, length_documentBytes]
      omega
    rw [hvalue] at hroom ⊢
    exact fillCodewscope_layout hd rfl hlies ho hroom hlen
  | document ht fields hn hv =>
    rw [length_documentBytes] at hroom ⊢
    have hfill := fillDocument_layout hd hlies hroom hlen
    simp only [List.mem_cons, List.not_mem_nil, or_false] at ht
    rcases ht with rfl | rfl <;> exact hfill

end Fill

/-! ## Elements -/

/-- `bson_iter_next` at a well-formed element. -/
theorem bsonIterNext_field {it : BsonIter} {f : Field} (hname : 0 ∉ f.name) (hvalue : Layout f.type f.value)
    (hlies : Lies it.raw it.nextOff f.bytes) (hoff : 4 ≤ it.nextOff) (hroom : it.nextOff + f.bytes.length < it.len)
    (hlen : it.len < 2 ^ 31) : ∃ e, bsonIterNext it = some e ∧ e.raw = it.raw ∧ e.len = it.len ∧
      e.nextOff = it.nextOff + f.bytes.length := by
  have hbytes : f.bytes.length = f.name.length + f.value.length + 2 := by
    unfold Field.bytes
    simp only [List.length_cons, List.length_append]
    omega
  have hrest : Lies it.raw (it.nextOff + 1) (f.name ++ 0 :: f.value) := hlies.tail
  have hscan := hrest.scanNul hname (show f.name.length < it.len - (it.nextOff + 1) by omega)
  have htype : (it.enter (it.nextOff + 1 + f.name.length + 1)).bsonType = some f.type := by
    have hbyte : it.byte it.nextOff = f.type.toByte := Lies.byte hlies
    show BsonType.ofByte (it.byte it.nextOff) = some f.type
    rw [hbyte, BsonType.ofByte_toByte]
  obtain ⟨e, he, hnext⟩ := fillDataFields_layout (o := it.nextOff + 1 + f.name.length + 1) hvalue htype rfl
    (Lies.tail (Lies.append hrest).2) (by omega) (show _ < it.len by omega) hlen
  have hend : e.nextOff = it.nextOff + f.bytes.length := by omega
  refine ⟨e, bsonIterNext_eq_some.mpr ⟨_, hscan, he, by omega⟩, ?_, ?_, hend⟩
  · obtain ⟨_, _, _, _, _, rfl, -⟩ := fillDataFields_eq he
    rfl
  · obtain ⟨_, _, _, _, _, rfl, -⟩ := fillDataFields_eq he
    rfl

/-- The iterator comes to every element that is left. -/
theorem length_bsonIterElements {fields : List Field} {it : BsonIter} (hname : ∀ f ∈ fields, 0 ∉ f.name)
    (hvalue : ∀ f ∈ fields, Layout f.type f.value) (hlies : Lies it.raw it.nextOff (fields.flatMap Field.bytes))
    (hoff : 4 ≤ it.nextOff) (hend : it.nextOff + (fields.flatMap Field.bytes).length + 1 = it.len)
    (hlen : it.len < 2 ^ 31) : (bsonIterElements it).length = fields.length := by
  induction fields generalizing it with
  | nil =>
    have hnone : bsonIterNext it = none := by
      unfold bsonIterNext
      dsimp only
      rw [show it.len - (it.nextOff + 1) = 0 by simp at hend; omega, scanNul]
    rw [bsonIterElements_eq, hnone]
    rfl
  | cons f fields ih =>
    rw [List.flatMap_cons] at hlies hend
    rw [List.length_append] at hend
    obtain ⟨hfirst, hrest⟩ := Lies.append hlies
    obtain ⟨e, he, hraw, helen, hnext⟩ := bsonIterNext_field (hname f (by simp)) (hvalue f (by simp)) hfirst hoff
      (by omega) hlen
    rw [bsonIterElements_eq, he]
    dsimp only
    rw [List.length_cons, List.length_cons, ih (fun g hg => hname g (by simp [hg])) (fun g hg => hvalue g (by simp [hg]))]
    · rw [hraw, hnext]
      exact hrest
    · omega
    · omega
    · omega

end Monary
