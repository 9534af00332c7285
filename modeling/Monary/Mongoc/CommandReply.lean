import Monary.Bson.ReadBack
import Monary.Mongoc.CursorId

/-!
# The reply to an aggregation

* `replyContents` : the contents of a reply, `{cursor: {id, ns, firstBatch}, ok}`;
* `cursorReply_written` : a reply that was written with these contents is unpacked to the identity and the documents
  of the first batch.
-/

namespace Monary
open ByteSeq CInt

/-! ## Documents -/

/-- A document of fields is framed. -/
theorem framed_documentBytes {fields : List Field} (h : (documentBytes fields).length < 2 ^ 31) :
    Framed ⟨documentBytes fields, h⟩ := by
  have hlength := length_documentBytes fields
  refine ⟨by dsimp only; omega, head_documentBytes (by omega), ?_⟩
  dsimp only
  rw [List.getD_eq_getElem?_getD, last_documentBytes]
  rfl

/-- A framed document that stands at the front of some bytes. -/
theorem initStaticAt_front {data : Bytes} {b : Bson} (hb : Framed b) (h : data.take b.data.length = b.data) :
    initStaticAt data 0 b.data.length = some b := by
  obtain ⟨h5, hlen, hnul⟩ := hb
  have hle : b.data.length ≤ data.length := by
    have := congrArg List.length h
    rw [List.length_take] at this
    omega
  refine initStaticAt_eq_some.mpr ⟨⟨h5, b.small⟩, ?_, ?_, ?_⟩
  · have hhead : slice data 0 4 = slice b.data 0 4 := by
      rw [slice, slice, ← h, List.drop_zero, List.drop_zero, List.take_take, Nat.min_eq_left (by omega)]
    rw [hhead, hlen]
  · have hlast : data[b.data.length - 1]? = b.data[b.data.length - 1]? := by
      have htake : (data.take b.data.length)[b.data.length - 1]? = data[b.data.length - 1]? := by
        rw [List.getElem?_take, if_pos (by omega)]
      rw [← htake, h]
    rw [Nat.zero_add, List.getD_eq_getElem?_getD, hlast, ← List.getD_eq_getElem?_getD]
    exact hnul
  · rw [slice, List.drop_zero, h]

/-! ## The reply -/

/-- The elements of the first batch. -/
def batchContents : List (Bytes × Bson) → Contents
  | [] => .nil
  | (key, doc) :: batch => .value key (.document doc.data) (batchContents batch)

/-- `1.0`. -/
def oneBits : Nat := 0x3FF0000000000000

/-- `{cursor: {id: id, ns: ns, firstBatch: [...]}, ok: 1.0}`. -/
def replyContents (id : Int) (ns : Bytes) (batch : List (Bytes × Bson)) : Contents :=
  .child (keyBytes "cursor") .document
    (.value (keyBytes "id") (.int64 id) (.value (keyBytes "ns") (.utf8 (some ns))
      (.child (keyBytes "firstBatch") .array (batchContents batch) .nil)))
    (.value (keyBytes "ok") (.double oneBits) .nil)

theorem batchDocuments_reads {batch : List (Bytes × Bson)} (hv : (batchContents batch).Valid) {es : List BsonIter}
    (h : (batchContents batch).Reads es) : es.filterMap batchDocument = batch.map Prod.snd := by
  induction batch generalizing es with
  | nil =>
    obtain rfl : es = [] := h
    rfl
  | cons first batch ih =>
    obtain ⟨key, doc⟩ := first
    cases es with
    | nil => exact h.elim
    | cons e es =>
      obtain ⟨⟨-, ⟨fields, hdata, -⟩, -⟩, hrest⟩ := hv
      obtain ⟨-, htype, -, ⟨p, hdoc, hp⟩, hes⟩ := h
      obtain ⟨data, hsmall⟩ := doc
      dsimp only at hdata hdoc hp
      subst hdata
      have htype : e.bsonType = some .document := htype
      have hbatch : batchDocument e = some ⟨documentBytes fields, hsmall⟩ := by
        rw [batchDocument, if_pos htype, hdoc]
        exact initStaticAt_front (framed_documentBytes hsmall) hp
      rw [List.filterMap_cons_some hbatch, ih hrest hes, List.map_cons]

section
variable [CImpl] {id : Int} {ns : Bytes} {batch : List (Bytes × Bson)}

/-- A reply that was written is unpacked to what it has. -/
theorem cursorReply_written (hv : (replyContents id ns batch).Valid)
    (h : (documentBytes (replyContents id ns batch).fields).length < 2 ^ 31) :
    CursorReply ⟨documentBytes (replyContents id ns batch).fields, h⟩ id (batch.map Prod.snd) := by
  have hreads := Contents.reads_document hv h
  obtain ⟨es, hes⟩ : ∃ es, bsonIterElements (bsonIterInit ⟨documentBytes (replyContents id ns batch).fields, h⟩) = es :=
    ⟨_, rfl⟩
  rw [hes] at hreads
  rcases es with _ | ⟨cursor, _ | ⟨ok, es⟩⟩
  · exact hreads.elim
  · exact hreads.2.2.2.elim
  · obtain ⟨hcursorKey, hcursorType, ⟨child, hchild, hinner⟩, hokKey, hokType, -, hok, -⟩ := hreads
    have hfind (key : String) (hne : keyBytes key ≠ []) :
        bsonIterInitFind ⟨documentBytes (replyContents id ns batch).fields, h⟩ key =
          (cursor :: ok :: es).find? fun e => bsonIterKey e == keyBytes key := by
      rw [bsonIterInitFind, bsonIterFindWithLen, if_neg hne, hes]
    refine ⟨framed_documentBytes h, ⟨ok, ?_, ?_⟩, child, ?_⟩
    · rw [hfind "ok" (by decide), List.find?_cons_of_neg, List.find?_cons_of_pos]
      · rw [hokKey]
        exact beq_self_eq_true _
      · rw [hcursorKey]
        decide
    · have hokType : ok.bsonType = some .double := hokType
      have hok : bsonIterDouble ok = oneBits := hok
      rw [bsonIterAsBool, hokType]
      dsimp only
      rw [hok]
      decide
    · obtain ⟨elements, helements⟩ : ∃ es, bsonIterElements child = es := ⟨_, rfl⟩
      rw [helements] at hinner
      rcases elements with _ | ⟨idAt, _ | ⟨nsAt, _ | ⟨firstAt, elements⟩⟩⟩
      · exact hinner.elim
      · exact hinner.2.2.2.2.elim
      · exact hinner.2.2.2.2.2.2.2.2.elim
      · obtain ⟨hidKey, hidType, -, hid, hnsKey, hnsType, -, -, hfirstKey, hfirstType, ⟨first, hfirst, hbatch⟩, helements'⟩ := hinner
        obtain rfl : elements = [] := helements'
        have hidType : idAt.bsonType = some .int64 := hidType
        have hid : bsonIterInt64 idAt = id := hid
        refine ⟨first, ?_, ?_, batchDocuments_reads hv.2.1.2.2.2.1 hbatch, ?_⟩
        · rw [cursorDocument, hfind "cursor" (by decide), List.find?_cons_of_pos, Option.bind_some, if_pos hcursorType,
            hchild]
          rw [hcursorKey]
          exact beq_self_eq_true _
        · rw [helements]
          intro e he hkey
          simp only [List.mem_cons, List.not_mem_nil, or_false] at he
          rcases he with rfl | rfl | rfl
          · rw [hidKey] at hkey
            exact absurd hkey (by decide)
          · exact hnsType
          · rw [hfirstKey] at hkey
            exact absurd hkey (by decide)
        · have hidAt (s : Int × CursorId) : cursorField s idAt = (id, s.2) := by
            rw [cursorField, if_pos hidKey, bsonIterAsInt64, hidType]
            dsimp only
            rw [hid]
          have hnsAt (s : Int × CursorId) : cursorField s nsAt = s := by
            rw [cursorField, hnsKey, if_neg (by decide), if_pos rfl]
          have hfirstAt (s : Int × CursorId) :
              cursorField s firstAt = (s.1, { s.2 with inFirstBatch := true, firstBatchIter := some first }) := by
            rw [cursorField, hfirstKey, if_neg (by decide), if_neg (by decide), if_pos ⟨rfl, hfirstType⟩, hfirst]
            rfl
          rw [helements, List.foldl_cons, List.foldl_cons, List.foldl_cons, List.foldl_nil, hidAt, hnsAt, hfirstAt]

end

theorem replyContents_valid : (replyContents 7 [0x61] [([0x30], noFields)]).Valid := by
  refine ⟨⟨by decide, by decide, Or.inl rfl⟩, ⟨⟨by decide, by simp [BsonArg.Valid], by decide⟩, ?_, ?_⟩, ?_, trivial⟩
  · exact ⟨by decide, trivial, by decide⟩
  · refine ⟨⟨by decide, by decide, Or.inr rfl⟩, ⟨⟨by decide, ⟨[], rfl, by simp [WellFormed]⟩, by decide⟩, trivial⟩,
      trivial⟩
  · exact ⟨by decide, by simp [BsonArg.Valid, oneBits], by decide⟩

theorem replyContents_small : (documentBytes (replyContents 7 [0x61] [([0x30], noFields)]).fields).length < 2 ^ 31 := by
  decide

theorem cursorReply_noFields : @CursorReply CImpl.x86
    ⟨documentBytes (replyContents 7 [0x61] [([0x30], noFields)]).fields, replyContents_small⟩ 7 [noFields] :=
  @cursorReply_written CImpl.x86 7 _ [([0x30], noFields)] replyContents_valid replyContents_small

end Monary
