import Monary.Bson.Append

/-!
# What a writer holds

* `Enclosing` : a document that a subdocument was begun in; `Written w frames fields` : the innermost document of the
  buffer is complete and has `fields`, the others stand around it as far as they were written, and behind it
  there is room for the NUL of every one of them;
* `bsonGrow_spec` : growing keeps all that; `bsonAppendPairs_spec`, `bsonAppendBsonBegin_spec`,
  `bsonAppendBsonEnd_spec` : an append adds a field or leaves the writer as it is, and no write is outside of the
  buffer.
-/

namespace Monary
open ByteSeq

/-! ## Buffers in parts -/

section Parts
variable {a x y b : Bytes}

theorem patch_middle (h : x.length = y.length) : patch (a ++ (x ++ b)) a.length y = a ++ (y ++ b) := by
  unfold patch
  rw [List.take_left, ← h, ← List.length_append, ← List.append_assoc a x, List.drop_left]

/-- A write over a part of the buffer. -/
theorem writeAt_middle (h : x.length = y.length) : writeAt (a ++ (x ++ b)) a.length y = .ok (a ++ (y ++ b)) := by
  rw [writeAt, if_pos, patch_middle h]
  simp only [List.length_append]
  omega

theorem copyPairs_middle {pairs : List Bytes} (h : x.length = pairs.flatten.length) :
    copyPairs (a ++ (x ++ b)) a.length pairs =
      .ok (a ++ (pairs.flatten ++ b), a.length + pairs.flatten.length) := by
  induction pairs generalizing a x with
  | nil =>
    obtain rfl := List.length_eq_zero_iff.mp h
    rfl
  | cons data pairs ih =>
    rw [List.flatten_cons, List.length_append] at h
    have hx : x.take data.length ++ x.drop data.length = x := List.take_append_drop _ _
    have htake : (x.take data.length).length = data.length := by rw [List.length_take]; omega
    have hdrop : (x.drop data.length).length = pairs.flatten.length := by rw [List.length_drop]; omega
    have hwrite : writeAt (a ++ (x ++ b)) a.length data = .ok ((a ++ data) ++ (x.drop data.length ++ b)) := by
      rw [← hx, List.append_assoc, writeAt_middle htake, hx, List.append_assoc]
    rw [copyPairs, hwrite]
    simp only [Except.bind, bind]
    rw [← List.length_append, ih hdrop]
    simp [Nat.add_assoc]

end Parts

/-! ## Growing -/

theorem le_smear (ns : List Nat) (v : Nat) : v ≤ smear ns v := by
  induction ns generalizing v with
  | nil => exact le_refl v
  | cons n ns ih => exact Nat.left_le_or.trans (ih _)

theorem smear_lt {v k : Nat} (ns : List Nat) (h : v < 2 ^ k) : smear ns v < 2 ^ k := by
  induction ns generalizing v with
  | nil => exact h
  | cons n ns ih => exact ih (Nat.or_lt_two_pow h ((Nat.shiftRight_le v n).trans_lt h))

theorem le_bsonNextPowerOfTwo (v : Nat) : v ≤ bsonNextPowerOfTwo v := by
  have := le_smear [1, 2, 4, 8, 16, 32] (v - 1)
  rw [bsonNextPowerOfTwo]
  omega

theorem bsonNextPowerOfTwo_le {v k : Nat} (h : v ≤ 2 ^ k) : bsonNextPowerOfTwo v ≤ 2 ^ k := by
  have hpos := Nat.two_pow_pos k
  exact smear_lt _ (show v - 1 < 2 ^ k by omega)

/-! ## What is in the buffer -/

/-- A document that a subdocument was begun in: the length that its header had then, its fields, and the type and
the name of the subdocument. -/
structure Enclosing where
  header : Bytes
  fields : List Field
  type : BsonType
  name : Bytes

/-- What stands in the buffer up to the subdocument. -/
def Enclosing.bytes (f : Enclosing) : Bytes := f.header ++ (f.fields.flatMap Field.bytes ++ f.type.toByte :: (f.name ++ [0]))

/-- The length of the document with an empty subdocument. -/
def Enclosing.len (f : Enclosing) : Nat := (f.fields.flatMap Field.bytes).length + f.name.length + 12

/-- The nearest frame comes first in the list, and last in the buffer. -/
def framesBytes : List Enclosing → Bytes
  | [] => []
  | f :: fs => framesBytes fs ++ f.bytes

def framesDocs : List Enclosing → List BsonOpen
  | [] => []
  | f :: fs => ⟨(framesBytes fs).length, f.len⟩ :: framesDocs fs

@[simp] theorem length_framesDocs (fs : List Enclosing) : (framesDocs fs).length = fs.length := by
  induction fs with
  | nil => rfl
  | cons f fs ih => simp [framesDocs, ih]

structure Written (w : BsonWriter) (frames : List Enclosing) (fields : List Field) : Prop where
  doc : w.doc = ⟨(framesBytes frames).length, (documentBytes fields).length⟩
  parents : w.parents = framesDocs frames
  headers : ∀ f ∈ frames, f.header.length = 4
  buf : ∃ slack, w.buf = framesBytes frames ++ (documentBytes fields ++ slack) ∧ frames.length ≤ slack.length
  inl : w.inl = true → frames = [] ∧ w.buf.length = 120
  size : w.buf.length ≤ bsonMaxSize

variable {junk : Nat → UInt8} {w : BsonWriter} {frames : List Enclosing} {fields : List Field} {size : Nat}

theorem length_enlarge (junk : Nat → UInt8) {bs : Bytes} {n : Nat} (h : bs.length ≤ n) : (enlarge junk bs n).length = n := by
  simp [enlarge]
  omega

/-- An enlarged buffer holds what the buffer held. -/
theorem Written.enlarge (h : Written w frames fields) {bs : Bytes} {n : Nat} {b : Bool} (hb : b = false)
    (hbs : bs = framesBytes frames ++ documentBytes fields ∨ bs = w.buf) (hn : bs.length ≤ n)
    (hroom : (framesBytes frames).length + (documentBytes fields).length + frames.length ≤ n) (hmax : n ≤ bsonMaxSize) :
    Written { w with buf := enlarge junk bs n, inl := b } frames fields where
  doc := h.doc
  parents := h.parents
  headers := h.headers
  buf := by
    obtain ⟨slack, hw, -⟩ := h.buf
    have hlen := length_enlarge junk hn
    obtain ⟨t, ht⟩ : ∃ t, Monary.enlarge junk bs n = bs ++ t := ⟨_, rfl⟩
    rw [ht] at hlen ⊢
    rw [List.length_append] at hlen
    rcases hbs with rfl | rfl
    · refine ⟨t, by rw [List.append_assoc], ?_⟩
      rw [List.length_append] at hlen
      omega
    · refine ⟨slack ++ t, by rw [hw]; simp only [List.append_assoc], ?_⟩
      rw [hw] at hlen
      simp only [List.length_append] at hlen ⊢
      omega
  inl := by simp [hb]
  size := by rwa [length_enlarge junk hn]

/-- What growing did when it reports success: there is room for `size` further bytes and for the ends of the
parents. -/
theorem bsonGrow_spec (h : Written w frames fields) (hgrow : (bsonGrow junk w size).1 = true) :
    Written (bsonGrow junk w size).2 frames fields ∧
      w.doc.offset + w.doc.len + size + frames.length ≤ (bsonGrow junk w size).2.buf.length := by
  have hdoc := h.doc
  have hparents : w.parents.length = frames.length := by rw [h.parents, length_framesDocs]
  obtain ⟨slack, hbuf, hslack⟩ := h.buf
  unfold bsonGrow at hgrow ⊢
  cases hinl : w.inl with
  | true =>
    obtain ⟨rfl, hlen⟩ := h.inl hinl
    simp only [hinl, if_true, bsonImplInlineGrow] at hgrow ⊢
    have hoff : w.doc.offset = 0 := by rw [hdoc]; rfl
    have hdlen : w.doc.len = (documentBytes fields).length := by rw [hdoc]
    rw [framesBytes, List.nil_append] at hbuf
    simp only [hoff, hdlen] at hgrow ⊢
    by_cases hfits : (documentBytes fields).length + size ≤ 120
    · rw [if_pos hfits]
      exact ⟨h, by simpa [hlen] using hfits⟩
    · rw [if_neg hfits] at hgrow ⊢
      by_cases hmax : bsonNextPowerOfTwo ((documentBytes fields).length + size) ≤ bsonMaxSize
      · rw [if_pos hmax]
        have hle := le_bsonNextPowerOfTwo ((documentBytes fields).length + size)
        have htake : w.buf.take (documentBytes fields).length = documentBytes fields := by
          rw [hbuf, List.take_left]
        rw [htake]
        have hroom : (documentBytes fields).length ≤ bsonNextPowerOfTwo ((documentBytes fields).length + size) := by
          omega
        refine ⟨h.enlarge rfl (.inl rfl) hroom (by simpa [framesBytes] using hroom) hmax, ?_⟩
        rw [length_enlarge junk hroom]
        simpa using hle
      · rw [if_neg hmax] at hgrow
        cases hgrow
  | false =>
    have hoff : w.doc.offset = (framesBytes frames).length := by rw [hdoc]
    have hdlen : w.doc.len = (documentBytes fields).length := by rw [hdoc]
    simp only [hinl, Bool.false_eq_true, if_false, bsonImplAllocGrow, hparents] at hgrow ⊢
    by_cases hfits : w.doc.offset + w.doc.len + size + frames.length ≤ w.buf.length
    · rw [if_pos hfits]
      exact ⟨h, hfits⟩
    · rw [if_neg hfits] at hgrow ⊢
      by_cases hmax : bsonNextPowerOfTwo (w.doc.offset + w.doc.len + size + frames.length) ≤ bsonMaxSize
      · rw [if_pos hmax]
        have hle := le_bsonNextPowerOfTwo (w.doc.offset + w.doc.len + size + frames.length)
        refine ⟨h.enlarge rfl (.inr rfl) (by omega) (by omega) hmax, ?_⟩
        rw [length_enlarge junk (by omega)]
        exact hle
      · rw [if_neg hmax] at hgrow
        cases hgrow

/-- Growing fails without a change. -/
theorem bsonGrow_eq (hgrow : (bsonGrow junk w size).1 = false) : (bsonGrow junk w size).2 = w := by
  unfold bsonGrow bsonImplInlineGrow bsonImplAllocGrow at *
  grind

/-- Growing succeeds up to 1 GiB. -/
theorem bsonGrow_small (hsize : w.doc.offset + w.doc.len + size + w.parents.length ≤ 2 ^ 30) :
    (bsonGrow junk w size).1 = true := by
  have hall := bsonNextPowerOfTwo_le hsize
  have hinline := bsonNextPowerOfTwo_le (show w.doc.len + size ≤ 2 ^ 30 by omega)
  have hmax : 2 ^ 30 ≤ bsonMaxSize := by decide
  unfold bsonGrow bsonImplInlineGrow bsonImplAllocGrow
  grind

/-- A buffer that was allocated is never one inside the structure again. -/
theorem bsonGrow_outside (hinl : w.inl = false) : (bsonGrow junk w size).2.inl = false := by
  unfold bsonGrow bsonImplAllocGrow
  grind

/-! ## Appending -/

/-- `_bson_append_va` with room in the buffer: fields are put before the NUL of the innermost document. -/
theorem copyPairs_append (fields : List Field) {p slack : Bytes} {fs : List Field} {pairs : List Bytes} {o : Nat}
    (ho : o + 1 = p.length + (documentBytes fields).length) (hpairs : pairs.flatten = fs.flatMap Field.bytes)
    (hroom : (fs.flatMap Field.bytes).length ≤ slack.length) :
    ∃ buf buf' slack', copyPairs (p ++ (documentBytes fields ++ slack)) o pairs =
        .ok (buf, o + (fs.flatMap Field.bytes).length) ∧
      writeAt buf p.length (leBytes 4 ((documentBytes fields).length + (fs.flatMap Field.bytes).length)) = .ok buf' ∧
      writeAt buf' (o + (fs.flatMap Field.bytes).length) [0] =
        .ok (p ++ (documentBytes (fields ++ fs) ++ slack')) ∧
      slack'.length + (fs.flatMap Field.bytes).length = slack.length := by
  generalize hF : fields.flatMap Field.bytes = F at *
  generalize hb : fs.flatMap Field.bytes = b at *
  have hlen : (documentBytes fields).length = F.length + 5 := by rw [length_documentBytes, hF]
  have hdoc : documentBytes fields = leBytes 4 (F.length + 5) ++ (F ++ [0]) := by rw [documentBytes, hF]
  have hdoc' : documentBytes (fields ++ fs) = leBytes 4 (F.length + 5 + b.length) ++ (F ++ (b ++ [0])) := by
    rw [documentBytes, List.flatMap_append, hF, hb, List.length_append, List.append_assoc]
    congr 2
    omega
  -- the NUL and what is behind it are written over, and the byte behind that is there for the new NUL
  obtain ⟨y, rest, hrest⟩ := List.exists_cons_of_length_pos (l := (0 :: slack).drop b.length) (by
    rw [List.length_drop, List.length_cons]
    omega)
  have hsplit : (0 :: slack : Bytes) = (0 :: slack).take b.length ++ (y :: rest) := by
    rw [← hrest, List.take_append_drop]
  have htake : ((0 :: slack : Bytes).take b.length).length = b.length := by
    rw [List.length_take, List.length_cons]
    omega
  have hstart : o = (p ++ (leBytes 4 (F.length + 5) ++ F)).length := by
    simp only [List.length_append, length_leBytes]
    omega
  refine ⟨p ++ (leBytes 4 (F.length + 5) ++ (F ++ (b ++ y :: rest))),
    p ++ (leBytes 4 (F.length + 5 + b.length) ++ (F ++ (b ++ y :: rest))), rest, ?_, ?_, ?_, ?_⟩
  · have hbuf : p ++ (documentBytes fields ++ slack) =
        (p ++ (leBytes 4 (F.length + 5) ++ F)) ++ ((0 :: slack).take b.length ++ (y :: rest)) := by
      rw [← hsplit, hdoc]
      simp
    rw [hbuf, hstart, copyPairs_middle (by rw [htake, hpairs]), hpairs]
    simp
  · rw [hlen, writeAt_middle (by simp)]
  · have hbuf : p ++ (leBytes 4 (F.length + 5 + b.length) ++ (F ++ (b ++ y :: rest))) =
        (p ++ (leBytes 4 (F.length + 5 + b.length) ++ (F ++ b))) ++ ([y] ++ rest) := by
      simp
    have hlast : o + b.length = (p ++ (leBytes 4 (F.length + 5 + b.length) ++ (F ++ b))).length := by
      simp only [List.length_append, length_leBytes] at hstart ⊢
      omega
    rw [hbuf, hlast, writeAt_middle (by simp), hdoc']
    simp
  · have := congrArg List.length hsplit
    rw [List.length_append, htake, List.length_cons, List.length_cons] at this
    omega

variable (junk) in
theorem bsonAppendVa_spec (h : Written w frames fields) {fs : List Field} {pairs : List Bytes}
    (hpairs : pairs.flatten = fs.flatMap Field.bytes) :
    ∃ ok w', bsonAppendVa junk w (fs.flatMap Field.bytes).length pairs = .ok (ok, w') ∧
      ok = (bsonGrow junk w (fs.flatMap Field.bytes).length).1 ∧
      (ok = true → Written w' frames (fields ++ fs)) ∧ (ok = false → w' = w) ∧ (w.inl = false → w'.inl = false) := by
  cases hgrow : (bsonGrow junk w (fs.flatMap Field.bytes).length).1 with
  | false =>
    refine ⟨false, w, ?_, rfl, by simp, fun _ => rfl, id⟩
    rw [bsonAppendVa, hgrow, bsonGrow_eq hgrow]
    rfl
  | true =>
    obtain ⟨h₂, hroom⟩ := bsonGrow_spec h hgrow
    generalize hw₂ : (bsonGrow junk w (fs.flatMap Field.bytes).length).2 = w₂ at h₂ hroom
    obtain ⟨slack, hbuf, -⟩ := h₂.buf
    have hpos : 5 ≤ (documentBytes fields).length := by simp
    have hslack : (fs.flatMap Field.bytes).length + frames.length ≤ slack.length := by
      rw [h.doc, hbuf] at hroom
      simp only [List.length_append] at hroom ⊢
      omega
    obtain ⟨buf, buf', slack', hcopy, hheader, hnul, hrest⟩ := copyPairs_append fields
      (p := framesBytes frames) (o := (framesBytes frames).length + (documentBytes fields).length - 1)
      (by omega) hpairs (by omega : _ ≤ slack.length)
    refine ⟨true, { w₂ with
      buf := framesBytes frames ++ (documentBytes (fields ++ fs) ++ slack')
      doc := ⟨(framesBytes frames).length, (documentBytes fields).length + (fs.flatMap Field.bytes).length⟩ },
      ?_, rfl, fun _ => ?_, by simp, fun hinl => by rw [← hw₂]; exact bsonGrow_outside hinl⟩
    · rw [bsonAppendVa, hgrow, hw₂]
      simp only [if_true, hbuf, h₂.doc, hcopy, hheader, hnul, bind, Except.bind, Nat.add_sub_cancel_left]
      rfl
    · have hdoclen : (documentBytes (fields ++ fs)).length =
          (documentBytes fields).length + (fs.flatMap Field.bytes).length := by
        simp only [length_documentBytes, List.flatMap_append, List.length_append]
        omega
      have hlen : (framesBytes frames ++ (documentBytes (fields ++ fs) ++ slack')).length = w₂.buf.length := by
        rw [hbuf]
        simp only [List.length_append, hdoclen]
        omega
      constructor
      case doc => rw [hdoclen]
      case parents => exact h₂.parents
      case headers => exact h₂.headers
      case buf => exact ⟨slack', rfl, by omega⟩
      case inl => exact fun hinl => ⟨(h₂.inl hinl).1, hlen.trans (h₂.inl hinl).2⟩
      case size => exact hlen.trans_le h₂.size

variable (junk) in
/-- `_bson_append` of the bytes of fields: they are added, or the writer is left as it is. -/
theorem bsonAppendPairs_spec (h : Written w frames fields) {fs : List Field} {first : Bytes} {rest : List Bytes}
    (hfirst : first ≠ []) (hpairs : (first :: rest).flatten = fs.flatMap Field.bytes)
    (hsmall : (fs.flatMap Field.bytes).length < 2 ^ 32) :
    ∃ ok w', bsonAppendPairs junk w (fs.flatMap Field.bytes).length first rest = .ok (ok, w') ∧
      (ok = true → Written w' frames (fields ++ fs)) ∧ (ok = false → w' = w) ∧ (w.inl = false → w'.inl = false) ∧
      (w.doc.offset + w.doc.len + (fs.flatMap Field.bytes).length + frames.length ≤ 2 ^ 30 → ok = true) := by
  have hempty : first.isEmpty = false := by simpa using hfirst
  rw [bsonAppendPairs, hempty, Nat.mod_eq_of_lt hsmall]
  by_cases hmax : (fs.flatMap Field.bytes).length > bsonMaxSize - w.doc.len
  · refine ⟨false, w, by rw [if_neg Bool.false_ne_true, if_pos hmax], by simp, fun _ => rfl, id, fun hfits => ?_⟩
    have : bsonMaxSize = 2 ^ 31 - 1 := rfl
    omega
  · obtain ⟨ok, w', hrun, hgrow, hok, hfail, hinl⟩ := bsonAppendVa_spec junk h hpairs
    refine ⟨ok, w', by rw [if_neg Bool.false_ne_true, if_neg hmax, hrun], hok, hfail, hinl, fun hfits => ?_⟩
    rw [hgrow]
    apply bsonGrow_small
    rwa [h.parents, length_framesDocs]

/-! ## Subdocuments -/

/-- The empty subdocument that was appended becomes the innermost document. -/
theorem Written.enter {type : BsonType} {key : Bytes} (h : Written w frames (fields ++ [⟨type, key, documentBytes []⟩]))
    (hinl : w.inl = false) :
    ∃ header, Written { w with doc := ⟨w.doc.offset + w.doc.len - 1 - 5, 5⟩, parents := w.doc :: w.parents }
      (⟨header, fields, type, key⟩ :: frames) [] := by
  have hchild : (⟨type, key, documentBytes []⟩ : Field).bytes = type.toByte :: (key ++ [0]) ++ documentBytes [] := by
    simp [Field.bytes]
  obtain ⟨slack, hbuf, hslack⟩ := h.buf
  have hfive : (documentBytes []).length = 5 := rfl
  have hlen : (documentBytes (fields ++ [⟨type, key, documentBytes []⟩])).length =
      (fields.flatMap Field.bytes).length + key.length + 12 := by
    rw [length_documentBytes, List.flatMap_append, List.flatMap_singleton, hchild]
    simp only [List.length_append, List.length_cons, hfive, List.length_nil]
    omega
  refine ⟨leBytes 4 ((fields.flatMap Field.bytes).length + key.length + 12), ?_⟩
  constructor
  case doc =>
    rw [h.doc, hlen]
    simp only [framesBytes, Enclosing.bytes, List.length_append, List.length_cons, length_leBytes, hfive, List.length_nil,
      BsonOpen.mk.injEq, and_true]
    omega
  case parents =>
    show w.doc :: w.parents = _
    rw [h.parents, h.doc, hlen]
    rfl
  case headers =>
    intro f hf
    rcases List.mem_cons.mp hf with rfl | hf
    · simp
    · exact h.headers f hf
  case buf =>
    refine ⟨0 :: slack, ?_, by simpa using hslack⟩
    show w.buf = _
    rw [hbuf, documentBytes, List.flatMap_append, List.flatMap_singleton, hchild]
    rw [length_documentBytes, List.flatMap_append, List.flatMap_singleton, hchild] at hlen
    rw [hlen]
    simp [framesBytes, Enclosing.bytes]
  case inl => simp [hinl]
  case size => exact h.size

theorem bsonGrow_inl (hgrow : (bsonGrow junk w size).1 = true) (hsize : 120 < w.doc.len + size) :
    (bsonGrow junk w size).2.inl = false := by
  unfold bsonGrow bsonImplInlineGrow bsonImplAllocGrow at *
  grind

variable (junk) in
/-- The writer that a subdocument is begun in is in no structure any more. -/
theorem bsonMoveOut_spec (h : Written w frames fields) :
    Written (bsonMoveOut junk w).2 frames fields ∧
      ((bsonMoveOut junk w).1 = true → (bsonMoveOut junk w).2.inl = false) ∧
      (w.doc.offset + w.doc.len ≤ 2 ^ 30 → (bsonMoveOut junk w).1 = true) := by
  unfold bsonMoveOut
  cases hinl : w.inl with
  | false => exact ⟨h, fun _ => hinl, fun _ => rfl⟩
  | true =>
    obtain ⟨rfl, hlen⟩ := h.inl hinl
    have hdoc : w.doc.len ≤ 120 := by
      obtain ⟨slack, hbuf, -⟩ := h.buf
      rw [← hlen, hbuf, h.doc]
      simp only [List.length_append]
      omega
    have hsmall : (bsonGrow junk w (128 - w.doc.len)).1 = true := by
      apply bsonGrow_small
      rw [h.doc, h.parents] at *
      simp [framesBytes, framesDocs] at *
      omega
    exact ⟨(bsonGrow_spec h hsmall).1, fun _ => bsonGrow_inl hsmall (by omega), fun _ => hsmall⟩

variable (junk) in
/-- `_bson_append_bson_begin`: the subdocument is begun, or the document is as it was. -/
theorem bsonAppendBsonBegin_spec (h : Written w frames fields) {key : Bytes} {type : BsonType}
    (htype : type = .document ∨ type = .array) (hkey : key.length < 2 ^ 31) :
    ∃ ok w', bsonAppendBsonBegin junk w key type = .ok (ok, w') ∧
      (ok = true → ∃ header, Written w' (⟨header, fields, type, key⟩ :: frames) []) ∧
      (ok = false → Written w' frames fields) ∧
      (w.doc.offset + w.doc.len + key.length + 7 + frames.length ≤ 2 ^ 30 → ok = true) := by
  obtain ⟨hout, hinl, hmoved⟩ := bsonMoveOut_spec junk h
  have hcheck : ¬(type ≠ .document ∧ type ≠ .array) := by
    rcases htype with rfl | rfl <;> simp
  have hlen : ¬(w.inl = true ∧ 120 < w.doc.len) := by
    rintro ⟨hinl, hlt⟩
    obtain ⟨rfl, hbuf⟩ := h.inl hinl
    obtain ⟨slack, hw, -⟩ := h.buf
    rw [h.doc] at hlt
    rw [hw] at hbuf
    simp only [List.length_append] at hbuf hlt
    omega
  rw [bsonAppendBsonBegin, if_neg hcheck, if_neg hlen]
  simp only
  cases hok : (bsonMoveOut junk w).1 with
  | false =>
    rw [if_pos rfl]
    exact ⟨false, _, rfl, by simp, fun _ => hout, fun hfits => by simp [hmoved (by omega)] at hok⟩
  | true =>
    have hchild : ([⟨type, key, documentBytes []⟩] : List Field).flatMap Field.bytes =
        ([type.toByte] :: [key, [0], [5, 0, 0, 0, 0]]).flatten := by
      simp [Field.bytes, documentBytes]
      rfl
    have hsize : (([⟨type, key, documentBytes []⟩] : List Field).flatMap Field.bytes).length = 1 + key.length + 1 + 5 := by
      rw [hchild]
      simp
      omega
    obtain ⟨ok, w', hrun, hsome, hnone, hkept, hfits⟩ := bsonAppendPairs_spec junk hout (by simp) hchild.symm
      (by rw [hsize]; omega)
    rw [hsize] at hrun hfits
    rw [if_neg (by simp), hinl hok, if_neg Bool.false_ne_true, hrun]
    cases ok with
    | false =>
      refine ⟨false, w', rfl, by simp, fun _ => by rw [hnone rfl]; exact hout, fun hsmall => hfits ?_⟩
      rw [hout.doc, ← h.doc]
      omega
    | true => exact ⟨true, _, rfl, fun _ => (hsome rfl).enter (hkept (hinl hok)), by simp, fun _ => rfl⟩

/-- `_bson_append_bson_end`: the subdocument is a field of the document it was begun in. -/
theorem bsonAppendBsonEnd_spec {f : Enclosing} (h : Written w (f :: frames) fields) :
    ∃ w', bsonAppendBsonEnd w = .ok (true, w') ∧
      Written w' frames (f.fields ++ [⟨f.type, f.name, documentBytes fields⟩]) := by
  obtain ⟨slack, hbuf, hslack⟩ := h.buf
  obtain ⟨y, slack, rfl⟩ := List.exists_cons_of_length_pos (l := slack) (by rw [List.length_cons] at hslack; omega)
  have hheader := h.headers f List.mem_cons_self
  generalize hF : f.fields.flatMap Field.bytes = F
  generalize hD : documentBytes fields = D at *
  have hpos : 5 ≤ D.length := by simp [← hD]
  have hdoc : documentBytes (f.fields ++ [⟨f.type, f.name, D⟩]) =
      leBytes 4 (F.length + f.name.length + 7 + D.length) ++
        (F ++ (f.type.toByte :: (f.name ++ 0 :: D) ++ [0])) := by
    rw [documentBytes, List.flatMap_append, hF, List.flatMap_singleton, Field.bytes]
    simp only [List.length_append, List.length_cons, List.append_assoc]
    congr 2
    omega
  refine ⟨{ w with
    buf := framesBytes frames ++ (documentBytes (f.fields ++ [⟨f.type, f.name, D⟩]) ++ slack)
    doc := ⟨(framesBytes frames).length, F.length + f.name.length + 7 + D.length⟩
    parents := framesDocs frames }, ?_, ?_⟩
  · have hlen : f.len + D.length - 5 = F.length + f.name.length + 7 + D.length := by
      rw [Enclosing.len, hF]
      omega
    have hend : w.buf = (framesBytes frames ++ (f.header ++ (F ++ (f.type.toByte :: (f.name ++ 0 :: D))))) ++
        ([y] ++ slack) := by
      rw [hbuf, framesBytes, Enclosing.bytes, hF]
      simp
    have hplace : (framesBytes frames).length + (F.length + f.name.length + 7 + D.length) - 1 =
        (framesBytes frames ++ (f.header ++ (F ++ (f.type.toByte :: (f.name ++ 0 :: D))))).length := by
      simp only [List.length_append, List.length_cons, hheader]
      omega
    have hnul : writeAt w.buf ((framesBytes frames).length + (F.length + f.name.length + 7 + D.length) - 1) [0] =
        .ok (framesBytes frames ++ (f.header ++ (F ++ (f.type.toByte :: (f.name ++ 0 :: D) ++ [0]) ++ slack))) := by
      rw [hplace, hend, writeAt_middle (by simp)]
      simp
    rw [bsonAppendBsonEnd, h.parents, framesDocs, h.doc]
    simp only [hD, hlen, hnul, bind, Except.bind]
    rw [writeAt_middle (y := leBytes 4 (F.length + f.name.length + 7 + D.length)) (by simp [hheader]), hdoc]
    simp only [List.append_assoc]
    rfl
  · have hdoclen : (documentBytes (f.fields ++ [⟨f.type, f.name, D⟩])).length =
        F.length + f.name.length + 7 + D.length := by
      rw [hdoc]
      simp only [List.length_append, List.length_cons, length_leBytes, List.length_nil]
      omega
    have hsame : (framesBytes frames ++ (documentBytes (f.fields ++ [⟨f.type, f.name, D⟩]) ++ slack)).length =
        w.buf.length := by
      rw [hbuf, framesBytes, Enclosing.bytes, hF]
      simp only [List.length_append, List.length_cons, List.length_nil, hdoclen, hheader]
      omega
    constructor
    case doc => rw [hdoclen]
    case parents => rfl
    case headers => exact fun g hg => h.headers g (List.mem_cons_of_mem _ hg)
    case buf => exact ⟨slack, rfl, by simpa using hslack⟩
    case inl => exact fun hinl => absurd (h.inl hinl).1 (by simp)
    case size => exact hsame.trans_le h.size

end Monary
