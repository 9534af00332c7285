import Monary.Bson.ReadBack
import Monary.Cmonary.Setup

/-!
# The document of the fields that are selected

* `appendBsonFields` : the loop of `monary_get_bson_fields_list`, over the writer of libbson;
* `Prepared` : the column data that `monary_alloc_column_data` and calls of `monary_set_column_item` make;
* `appendBsonFields_prepared` : if every column was set the document has their fields in their order, each an `int32`
  1, and no append fails; otherwise the loop comes to a name that is `NULL`.
-/

namespace Monary
open ByteSeq CInt

/-- `bson_append_int32` with a length of -1, `key` being `none` for `NULL`: `bson_return_val_if_fail` is compiled
out, and the key is given to `strlen`. -/
def bsonAppendInt32 (junk : Nat → UInt8) (w : BsonWriter) (key : Option Bytes) (v : Int) :
    Except WriteFault (Bool × BsonWriter) :=
  match key with
  | none => .error .null
  | some key => bsonAppendArg junk w key (.int32 v)

/-- The loop of `monary_get_bson_fields_list`. -/
def appendBsonFields (junk : Nat → UInt8) : BsonWriter → List ColumnItem → Except WriteFault BsonWriter
  | w, [] => .ok w
  | w, col :: cols => do
    let r ← bsonAppendInt32 junk w col.field 1
    appendBsonFields junk r.2 cols

/-- Column data of which nothing but the two functions made something. -/
inductive Prepared : ColumnData → Prop
  | alloc {numColumns numRows cd} (h : monaryAllocColumnData numColumns numRows = some cd) : Prepared cd
  | set {cd cd'} (h : Prepared cd) (colnum : Nat) (field : Bytes) (type typeArg : Nat) (storage mask : Option Bytes)
      (hset : (monarySetColumnItem (some cd) colnum field type typeArg storage mask).1 = some cd') : Prepared cd'

/-- There are at most as many columns as are allowed, and their fields are C strings of the allowed length. -/
def FieldsBounded (cd : ColumnData) : Prop :=
  cd.columns.length ≤ maxNumColumns ∧ ∀ key ∈ monaryGetBsonFieldsList cd, 0 ∉ key ∧ key.length ≤ maxStringLength

theorem not_mem_cString (s : Bytes) : 0 ∉ cString s := by
  intro h
  simpa using List.mem_takeWhile_imp h

theorem Prepared.bounded {cd : ColumnData} (h : Prepared cd) : FieldsBounded cd := by
  induction h with
  | alloc h =>
    unfold monaryAllocColumnData at h
    split at h
    · cases h
    · next hle =>
      cases h
      refine ⟨by simpa using hle, fun key hkey => ?_⟩
      obtain ⟨col, hcol, hfield⟩ := List.mem_filterMap.mp hkey
      obtain rfl := List.eq_of_mem_replicate hcol
      cases hfield
  | @set cd cd' h colnum field type typeArg storage mask hset ih =>
    have hsame : some cd = some cd' → FieldsBounded cd' := by
      rintro ⟨⟩
      exact ih
    unfold monarySetColumnItem at hset
    dsimp only at hset
    split at hset
    · exact hsame hset
    · split at hset
      · exact hsame hset
      · split at hset
        · exact hsame hset
        · split at hset
          · exact hsame hset
          · split at hset
            · exact hsame hset
            · next hlen =>
              cases hset
              refine ⟨by simpa using ih.1, fun key hkey => ?_⟩
              obtain ⟨col, hcol, hfield⟩ := List.mem_filterMap.mp hkey
              rcases List.mem_or_eq_of_mem_set hcol with hcol | rfl
              · exact ih.2 key (List.mem_filterMap.mpr ⟨col, hcol, hfield⟩)
              · obtain rfl : cString field = key := by simpa using hfield
                exact ⟨not_mem_cString field, by omega⟩

/-- The contents that select the keys. -/
def selection : List Bytes → Contents
  | [] => .nil
  | key :: keys => .value key (.int32 1) (selection keys)

theorem selection_bytes (keys : List Bytes) (h : ∀ key ∈ keys, key.length ≤ maxStringLength) :
    ((selection keys).fields.flatMap Field.bytes).length ≤ keys.length * (maxStringLength + 6) := by
  induction keys with
  | nil => simp [selection, Contents.fields]
  | cons key keys ih =>
    have hkey := h key List.mem_cons_self
    have hrest := ih fun k hk => h k (List.mem_cons_of_mem _ hk)
    have hfield : ((BsonArg.int32 1).field key).bytes.length = key.length + 6 := by
      rw [BsonArg.length_field (by simp [BsonArg.Valid])]
      simp [BsonArg.pairs]
      omega
    rw [selection, Contents.fields, List.flatMap_cons, List.length_append, hfield, List.length_cons, Nat.add_mul]
    omega

theorem selection_valid (keys : List Bytes) (h : ∀ key ∈ keys, 0 ∉ key ∧ key.length ≤ maxStringLength) :
    (selection keys).Valid := by
  induction keys with
  | nil => trivial
  | cons key keys ih =>
    obtain ⟨hnul, hlen⟩ := h key List.mem_cons_self
    refine ⟨⟨hnul, by simp [BsonArg.Valid], ?_⟩, ih fun k hk => h k (List.mem_cons_of_mem _ hk)⟩
    rw [BsonArg.length_field (by simp [BsonArg.Valid])]
    have : maxStringLength = 1024 := rfl
    simp [BsonArg.pairs]
    omega

theorem selection_reads {keys : List Bytes} {its : List BsonIter} (h : (selection keys).Reads its) :
    its.map (fun it => (bsonIterKey it, it.bsonType, bsonIterInt32 it)) = keys.map fun key => (key, some .int32, 1) := by
  induction keys generalizing its with
  | nil =>
    obtain rfl : its = [] := h
    rfl
  | cons key keys ih =>
    cases its with
    | nil => exact h.elim
    | cons it its =>
      obtain ⟨hkey, htype, -, hread, hrest⟩ := h
      have hint : bsonIterInt32 it = 1 := hread
      have hty : it.bsonType = some .int32 := htype
      rw [List.map_cons, List.map_cons, ih hrest, hkey, hint, hty]

/-- The loop makes the calls of the selection, up to a column that was not set. -/
theorem appendBsonFields_eq {junk : Nat → UInt8} {cols : List ColumnItem} {w w' : BsonWriter} {oks : List Bool}
    (h : bsonRun junk w (selection (cols.filterMap (·.field))).calls = .ok (oks, w')) :
    appendBsonFields junk w cols = if ∀ col ∈ cols, col.field.isSome then .ok w' else .error .null := by
  induction cols generalizing w oks with
  | nil =>
    cases h
    rw [if_pos (by simp)]
    rfl
  | cons col cols ih =>
    rw [appendBsonFields]
    cases hfield : col.field with
    | none =>
      have hnot : ¬ ∀ c ∈ col :: cols, c.field.isSome := by simp [hfield]
      rw [if_neg hnot]
      rfl
    | some key =>
      rw [List.filterMap_cons_some hfield] at h
      obtain ⟨ok, w₁, oks', hcall, hrest, -⟩ := bsonRun_cons_eq_ok.mp h
      have happend : bsonAppendInt32 junk w (some key) 1 = .ok (ok, w₁) := hcall
      simp only [happend, bind, Except.bind, ih hrest, List.forall_mem_cons, hfield, Option.isSome_some, true_and]

theorem map_some_fields {cols : List ColumnItem} (h : ∀ col ∈ cols, col.field.isSome) :
    (cols.filterMap (·.field)).map some = cols.map (·.field) := by
  induction cols with
  | nil => rfl
  | cons col cols ih =>
    obtain ⟨key, hkey⟩ := Option.isSome_iff_exists.mp (h col List.mem_cons_self)
    rw [List.filterMap_cons_some hkey, List.map_cons, List.map_cons, hkey, ih fun c hc => h c (List.mem_cons_of_mem _ hc)]

/-- Whatever columns were set: if they all were, the document of the selection has exactly their fields, in the order
of the columns, each an `int32` 1; if one was not, `strlen` is given its name, which is `NULL`. -/
theorem appendBsonFields_prepared (junk : Nat → UInt8) {cd : ColumnData} (h : Prepared cd) :
    ((∀ col ∈ cd.columns, col.field.isSome) → ∃ w, appendBsonFields junk (bsonInit junk) cd.columns = .ok w ∧
        ∃ hs : (bsonGetData w).length < 2 ^ 31,
          (bsonIterElements (bsonIterInit ⟨bsonGetData w, hs⟩)).map
              (fun it => (some (bsonIterKey it), it.bsonType, bsonIterInt32 it)) =
            cd.columns.map fun col => (col.field, some .int32, 1)) ∧
      ((∃ col ∈ cd.columns, col.field = none) → appendBsonFields junk (bsonInit junk) cd.columns = .error .null) := by
  obtain ⟨hcolumns, hkeys⟩ := h.bounded
  have hbytes := selection_bytes (monaryGetBsonFieldsList cd) fun key hkey => (hkeys key hkey).2
  have hlen : (monaryGetBsonFieldsList cd).length ≤ maxNumColumns := (List.length_filterMap_le _ _).trans hcolumns
  have hmax : maxNumColumns = 1024 ∧ maxStringLength = 1024 := ⟨rfl, rfl⟩
  have htotal : (monaryGetBsonFieldsList cd).length * (maxStringLength + 6) ≤ 1024 * 1030 :=
    Nat.mul_le_mul (by omega) (by omega)
  have hused : (bsonInit junk).used = 5 := rfl
  have hvalid := selection_valid _ hkeys
  obtain ⟨w, hrun, hw, -⟩ := Contents.run_spec junk (Fresh.shows (Or.inl rfl)) hvalid (by rw [hused]; omega)
  have hdata : bsonGetData w = documentBytes (selection (monaryGetBsonFieldsList cd)).fields := hw.bsonGetData_eq rfl
  have hsmall : (bsonGetData w).length < 2 ^ 31 := by
    rw [hdata, length_documentBytes]
    omega
  refine ⟨fun hset => ⟨w, by rw [appendBsonFields_eq hrun, if_pos hset], hsmall, ?_⟩, ?_⟩
  · have hreads : (selection (monaryGetBsonFieldsList cd)).Reads (bsonIterElements (bsonIterInit ⟨bsonGetData w, hsmall⟩)) := by
      simp only [hdata]
      exact Contents.reads_document hvalid (by rwa [← hdata])
    have hmap := congrArg (List.map fun t : Bytes × Option BsonType × Int => (some t.1, t.2)) (selection_reads hreads)
    rw [List.map_map, List.map_map] at hmap
    have hfields := congrArg (List.map fun f : Option Bytes => (f, some BsonType.int32, (1 : Int))) (map_some_fields hset)
    rw [List.map_map, List.map_map] at hfields
    exact hmap.trans hfields
  · rintro ⟨col, hcol, hnone⟩
    rw [appendBsonFields_eq hrun, if_neg]
    intro hset
    have hsome := hset col hcol
    rw [hnone] at hsome
    cases hsome

/-- Columns for the fields `a` and `b`. -/
def twoNames : ColumnData := ⟨1, [⟨some [0x61], 1, 0, some [], some []⟩, ⟨some [0x62], 2, 0, some [], some []⟩]⟩

theorem prepared_twoNames : Prepared twoNames := by
  have halloc : monaryAllocColumnData 2 1 = some ⟨1, [ColumnItem.zeroed, ColumnItem.zeroed]⟩ := by
    simp [monaryAllocColumnData, maxNumColumns]
  have hfirst : (monarySetColumnItem (some ⟨1, [ColumnItem.zeroed, ColumnItem.zeroed]⟩) 0 [0x61] 1 0 (some [])
      (some [])).1 = some ⟨1, [⟨some [0x61], 1, 0, some [], some []⟩, ColumnItem.zeroed]⟩ := by
    simp [monarySetColumnItem, MonaryType.lastType, cString, maxStringLength]
  have hsecond : (monarySetColumnItem (some ⟨1, [⟨some [0x61], 1, 0, some [], some []⟩, ColumnItem.zeroed]⟩) 1 [0x62] 2 0
      (some []) (some [])).1 = some twoNames := by
    simp [monarySetColumnItem, MonaryType.lastType, cString, maxStringLength, twoNames]
  exact .set (.set (.alloc halloc) 0 [0x61] 1 0 (some []) (some []) hfirst) 1 [0x62] 2 0 (some []) (some []) hsecond

theorem appendBsonFields_twoNames :
    ∃ w, appendBsonFields (fun _ => 0) (bsonInit fun _ => 0) twoNames.columns = .ok w ∧
      ∃ hs : (bsonGetData w).length < 2 ^ 31,
        (bsonIterElements (bsonIterInit ⟨bsonGetData w, hs⟩)).map
            (fun it => (some (bsonIterKey it), it.bsonType, bsonIterInt32 it)) =
          [(some [0x61], some .int32, 1), (some [0x62], some .int32, 1)] :=
  (appendBsonFields_prepared (fun _ => 0) prepared_twoNames).1 (by decide)

end Monary
