import Monary.Bson.Contents

/-!
# Reading what was written

* `bsonIterCode`, `bsonIterRegex`, ... : further accessors; `BsonArg.ReadBy` : what the accessor of an iterator gives is
  the value that was appended;
* `Contents.Reads` : an iterator comes to the fields of some contents, and `bson_iter_recurse` to those of the
  subdocuments;
* `Contents.reads` : it does so wherever the bytes of the fields are;
* `bsonIterElements_written` : so it does in the document that the calls of the contents write;
* `elements_documentBytes` : an iterator on a document comes to each of its fields.
-/

namespace Monary
open ByteSeq CInt

/-! ## The place of an element -/

/-- The bytes of the value, which stand behind the key. -/
def BsonIter.valueBytes (it : BsonIter) : Bytes :=
  slice it.raw (it.key + (bsonIterKey it).length + 1) (it.nextOff - (it.key + (bsonIterKey it).length + 1))

def noValue : List (Option BsonType) := [some .maxkey, some .minkey, some .null, some .undefined]

/-- The switch keeps the start of the value, if the type has values. -/
theorem fillDataFields_d1 {it e : BsonIter} {o : Nat} (hd : it.d1 = o) (ht : it.bsonType ∉ noValue)
    (h : fillDataFields it o = some e) : e.d1 = o := by
  unfold fillDataFields fillString fillBinary fillDocument fillRegex fillDbpointer fillCodewscope at h
  unfold noValue at ht
  grind

/-- An iterator at a field that stands at `o`. -/
structure BsonIter.At (it : BsonIter) (o : Nat) (f : Field) : Prop where
  accepted : it.Accepted
  type : it.bsonType = some f.type
  key : it.key = o + 1
  keyEq : bsonIterKey it = f.name
  value : Lies it.raw (o + f.name.length + 2) f.value
  nextOff : it.nextOff = o + f.name.length + 2 + f.value.length
  d1 : it.bsonType ∉ noValue → it.d1 = o + f.name.length + 2
  fill : ∃ it₀ : BsonIter, it₀.raw = it.raw ∧ it₀.len = it.len ∧ it₀.bsonType = it.bsonType ∧
    it₀.d1 = o + f.name.length + 2 ∧ fillDataFields it₀ (o + f.name.length + 2) = some it

theorem takeWhile_drop_of_lies {raw name rest : Bytes} {o : Nat} (h : Lies raw o (name ++ 0 :: rest)) (hname : 0 ∉ name) :
    (raw.drop o).takeWhile (· != 0) = name := by
  have htake : (raw.drop o).take (name ++ 0 :: rest).length = name ++ 0 :: rest := h
  rw [← List.take_append_drop (name ++ 0 :: rest).length (raw.drop o), htake, List.append_assoc,
    List.takeWhile_append_of_pos]
  · simp
  · intro b hb
    simpa using fun h0 : b = 0 => hname (h0 ▸ hb)

theorem bsonIterNext_at {it : BsonIter} {f : Field} (hname : 0 ∉ f.name) (hvalue : Layout f.type f.value)
    (hfits : it.Fits) (hlies : Lies it.raw it.nextOff f.bytes) (hoff : 4 ≤ it.nextOff)
    (hroom : it.nextOff + f.bytes.length < it.len) (hlen : it.len < 2 ^ 31) :
    ∃ e, bsonIterNext it = some e ∧ e.raw = it.raw ∧ e.len = it.len ∧ e.nextOff = it.nextOff + f.bytes.length ∧
      e.At it.nextOff f := by
  obtain ⟨e, he, hraw, helen, hnext⟩ := bsonIterNext_field hname hvalue hlies hoff hroom hlen
  have hbytes : f.bytes.length = f.name.length + 2 + f.value.length := by
    simp only [Field.bytes, List.length_cons, List.length_append]
    omega
  have hrest : Lies it.raw (it.nextOff + 1) (f.name ++ 0 :: f.value) := hlies.tail
  have hscan := hrest.scanNul hname (show f.name.length < it.len - (it.nextOff + 1) by omega)
  obtain ⟨nul, hnul, hfill, -⟩ := bsonIterNext_eq_some.mp he
  rw [hscan, Option.some.injEq] at hnul
  subst hnul
  have hbyte : it.byte it.nextOff = f.type.toByte := Lies.byte hlies
  have htype : (it.enter (it.nextOff + 1 + f.name.length + 1)).bsonType = some f.type := by
    show BsonType.ofByte (it.byte it.nextOff) = some f.type
    rw [hbyte, BsonType.ofByte_toByte]
  obtain ⟨_, _, _, _, _, heq, -⟩ := fillDataFields_eq hfill
  have hkey : e.key = it.nextOff + 1 := by rw [heq]; rfl
  have hetype : e.bsonType = some f.type := by
    rw [← htype, heq]
    rfl
  have hstart : it.nextOff + 1 + f.name.length + 1 = it.nextOff + f.name.length + 2 := by omega
  refine ⟨e, he, hraw, helen, hnext, (bsonIterNext_accepted hfits he).1, hetype, hkey, ?_, ?_, by omega, fun ht => ?_,
    it.enter (it.nextOff + 1 + f.name.length + 1), hraw.symm, helen.symm, htype.trans hetype.symm, hstart, hstart ▸ hfill⟩
  · rw [bsonIterKey, BsonIter.ptr, hraw, hkey]
    exact takeWhile_drop_of_lies hrest hname
  · have := (Lies.append hrest).2.tail
    rw [hraw]
    convert this using 1
    omega
  · rw [hetype, ← htype] at ht
    rw [fillDataFields_d1 (o := it.nextOff + 1 + f.name.length + 1) rfl ht hfill]
    omega

theorem BsonIter.At.valueBytes_eq {it : BsonIter} {o : Nat} {f : Field} (h : it.At o f) : it.valueBytes = f.value := by
  rw [BsonIter.valueBytes, h.keyEq, h.key, h.nextOff]
  have hvalue : slice it.raw (o + f.name.length + 2) f.value.length = f.value := h.value
  convert hvalue using 2
  · omega
  · omega

/-! ## Accessors -/

/-- `bson_iter_binary` called with a `subtype` location. -/
def bsonIterBinarySubtype (it : BsonIter) : UInt8 := if it.bsonType = some .binary then it.byte it.d2 else 0

def bsonIterCode (it : BsonIter) : Option Bytes × Nat :=
  if it.bsonType = some .code then (some (it.ptr it.d2), it.utf8LenUnsafe) else (none, 0)

def bsonIterSymbol (it : BsonIter) : Option Bytes × Nat :=
  if it.bsonType = some .symbol then (some (it.ptr it.d2), it.utf8LenUnsafe) else (none, 0)

/-- `bson_iter_codewscope`: the code and its length, and the scope and its length. -/
def bsonIterCodewscope (it : BsonIter) : (Option Bytes × Nat) × (Option Bytes × Nat) :=
  if it.bsonType = some .codewscope then
    ((some (it.ptr it.d3), toUInt32 (it.uint32At it.d2 - 1)), (some (it.ptr it.d4), it.uint32At it.d4))
  else ((none, 0), (none, 0))

/-- `bson_iter_dbpointer`: the collection and its length, and the identity. -/
def bsonIterDbpointer (it : BsonIter) : (Option Bytes × Nat) × Option Bytes :=
  if it.bsonType = some .dbpointer then
    ((some (it.ptr it.d2), it.uint32At it.d1 - 1), some (it.ptr it.d3))
  else ((none, 0), none)

/-- `bson_iter_regex`: the pattern and the options. -/
def bsonIterRegex (it : BsonIter) : Option Bytes × Option Bytes :=
  if it.bsonType = some .regex then (some (it.ptr it.d1), some (it.ptr it.d2)) else (none, none)

/-- A pointer to bytes with their length. -/
def PointsTo (r : Option Bytes × Nat) (data : Bytes) : Prop := ∃ p, r = (some p, data.length) ∧ p.take data.length = data

/-- What the accessors give: the value that was appended. -/
def BsonArg.ReadBy (it : BsonIter) : BsonArg → Prop
  | .array data => PointsTo (bsonIterArray it) data
  | .binary subtype data => bsonIterBinarySubtype it = subtype ∧ PointsTo (bsonIterBinary it) data
  | .bool b => bsonIterBool it = b
  | .code js => PointsTo (bsonIterCode it) js
  | .codeWithScope js scope =>
    (scope.filter fun data => !bsonEmpty data).elim (PointsTo (bsonIterCode it) js) fun data =>
      PointsTo (bsonIterCodewscope it).1 js ∧ PointsTo (bsonIterCodewscope it).2 data
  | .dateTime v => bsonIterDateTime it = v
  | .dbpointer collection id =>
    PointsTo (bsonIterDbpointer it).1 collection ∧ ∃ p, (bsonIterDbpointer it).2 = some p ∧ p.take id.length = id
  | .document data => PointsTo (bsonIterDocument it) data
  | .double bits => bsonIterDouble it = bits
  | .int32 v => bsonIterInt32 it = v
  | .int64 v => bsonIterInt64 it = v
  | .oid id => ∃ p, bsonIterOid it = some p ∧ p.take id.length = id
  | .regex pattern options =>
    ∃ p q, bsonIterRegex it = (some p, some q) ∧ p.takeWhile (· != 0) = pattern ∧ q.takeWhile (· != 0) = options
  | .symbol (some value) => PointsTo (bsonIterSymbol it) value
  | .timestamp seconds increment => bsonIterTimestamp it = (seconds, increment)
  | .utf8 (some value) => PointsTo (bsonIterUtf8 it) value
  -- a string that is `NULL` is appended as a null; the others have no value
  | .utf8 none | .symbol none | .maxkey | .minkey | .null | .undefined => True

theorem toInt32_toUInt32 {v : Int} (h : -2 ^ 31 ≤ v) (h' : v < 2 ^ 31) : toInt32 (toUInt32 v) = v := by
  rw [toInt32, toUInt32, Int.toNat_of_nonneg (Int.emod_nonneg v (by decide)), Int.bmod_def]
  omega

theorem toInt64_toNat {v : Int} (h : -2 ^ 63 ≤ v) (h' : v < 2 ^ 63) : toInt64 ((v % 2 ^ 64).toNat : Nat) = v := by
  rw [toInt64, Int.toNat_of_nonneg (Int.emod_nonneg v (by decide)), Int.bmod_def]
  omega

theorem timestamp_halves (seconds : Nat) {increment : Nat} (h : increment < 2 ^ 32) :
    (seconds <<< 32 ||| increment) / 2 ^ 32 = seconds ∧ (seconds <<< 32 ||| increment) % 2 ^ 32 = increment := by
  rw [← Nat.shiftLeft_add_eq_or_of_lt h, Nat.shiftLeft_eq]
  omega

section Accessors
variable {it : BsonIter} {o : Nat} {f : Field}

/-- The value starts at `d1`. -/
theorem BsonIter.At.lies_d1 (h : it.At o f) (ht : it.bsonType ∉ noValue) : Lies it.raw it.d1 f.value := by
  rw [h.d1 ht]
  exact h.value

theorem BsonIter.At.length_lt (h : it.At o f) (hlen : it.len < 2 ^ 31) : f.value.length < 2 ^ 31 := by
  have := h.nextOff
  have := h.accepted.next_lt
  omega

/-- A number at the start of the value. -/
theorem BsonIter.At.leNat_d1 (h : it.At o f) (ht : it.bsonType ∉ noValue) {w n : Nat} (hv : f.value = leBytes w n)
    (hn : n < 256 ^ w) : leNat (slice it.raw it.d1 w) = n := by
  have hlies := h.lies_d1 ht
  rw [hv] at hlies
  exact hlies.leNat hn

theorem BsonIter.At.document_d1 (h : it.At o f) (ht : it.bsonType ∉ noValue) (hlen : it.len < 2 ^ 31)
    (hdoc : ∃ fields, f.value = documentBytes fields ∧ WellFormed fields) :
    it.uint32At it.d1 = f.value.length ∧ (it.ptr it.d1).take f.value.length = f.value := by
  have hlies := h.lies_d1 ht
  have hlt := h.length_lt hlen
  refine ⟨?_, hlies⟩
  obtain ⟨fields, hfields, -⟩ := hdoc
  rw [hfields] at hlies hlt ⊢
  rw [length_documentBytes] at hlt ⊢
  exact lies_documentBytes hlies (by omega)

/-- The content of a string. -/
theorem BsonIter.At.string_d2 (h : it.At o f) (htype : it.bsonType ∈ [some .code, some .symbol, some .utf8])
    (hlen : it.len < 2 ^ 31) {value : Bytes} (hv : f.value = stringBytes value) :
    PointsTo (some (it.ptr it.d2), it.utf8LenUnsafe) value := by
  have hhas : it.bsonType ∉ noValue := by
    simp only [List.mem_cons, List.not_mem_nil, or_false] at htype
    rcases htype with ht | ht | ht <;> simp [ht, noValue]
  have hlies := h.lies_d1 hhas
  have hlt := h.length_lt hlen
  rw [hv] at hlies hlt
  rw [length_stringBytes] at hlt
  obtain ⟨hd2, -⟩ := h.accepted.string htype
  have hsize : it.uint32At it.d1 = value.length + 1 := (lies_stringBytes hlies (by omega)).1
  have hcontent := (Lies.append (Lies.append hlies).2).1
  rw [length_leBytes, ← hd2] at hcontent
  have hread : it.utf8LenUnsafe = value.length := by
    rw [BsonIter.utf8LenUnsafe, hsize, toInt32_natCast (by omega)]
    omega
  exact ⟨it.ptr it.d2, by rw [hread], hcontent⟩

theorem BsonIter.At.dbpointer_d2 (h : it.At o f) (htype : it.bsonType = some .dbpointer) :
    it.d2 = it.d1 + 4 ∧ it.d3 = it.d1 + 4 + it.uint32At it.d1 := by
  have hd1 := h.d1 (by simp [htype, noValue])
  obtain ⟨it₀, -, -, hty, hd, hfill⟩ := h.fill
  rw [fillDataFields, hty, htype] at hfill
  dsimp only at hfill
  unfold fillDbpointer at hfill
  split at hfill
  · cases hfill
  · dsimp only at hfill
    split at hfill
    · cases hfill
    · cases hfill
      dsimp only at hd1 ⊢
      exact ⟨by omega, by rw [hd]; rfl⟩

theorem BsonIter.At.codewscope_d2 (h : it.At o f) (htype : it.bsonType = some .codewscope) :
    it.d2 = it.d1 + 4 ∧ it.d3 = it.d1 + 8 ∧ it.d4 = it.d1 + 8 + it.uint32At (it.d1 + 4) := by
  have hd1 := h.d1 (by simp [htype, noValue])
  obtain ⟨it₀, hraw, -, hty, -, hfill⟩ := h.fill
  rw [fillDataFields, hty, htype] at hfill
  dsimp only at hfill
  unfold fillCodewscope at hfill
  simp only [BsonIter.uint32At, hraw] at hfill ⊢
  rw [hd1]
  grind

theorem BsonIter.At.regex_d2 (h : it.At o f) (htype : it.bsonType = some .regex) {pattern rest : Bytes}
    (hv : f.value = pattern ++ 0 :: rest) (hp : 0 ∉ pattern) : it.d2 = it.d1 + pattern.length + 1 := by
  have hd1 := h.d1 (by simp [htype, noValue])
  have hlies := h.value
  have hend := h.nextOff
  have hlt := h.accepted.next_lt
  obtain ⟨it₀, hraw, hlen, hty, -, hfill⟩ := h.fill
  rw [fillDataFields, hty, htype] at hfill
  dsimp only at hfill
  unfold fillRegex at hfill
  rw [hv] at hlies hend
  rw [List.length_append, List.length_cons] at hend
  rw [hraw, hlen, hlies.scanNul hp (by omega)] at hfill
  dsimp only at hfill
  split at hfill
  · cases hfill
  · have hd2 := congrArg BsonIter.d2 (Option.some.inj hfill)
    rw [← hd2, hd1]

theorem BsonIter.At.binary_d1 (h : it.At o f) (htype : it.bsonType = some .binary) (hlen : it.len < 2 ^ 31) {subtype : UInt8}
    {data : Bytes} (hv : f.value = (BsonArg.binary subtype data).pairs.2.2.flatten) :
    bsonIterBinarySubtype it = subtype ∧ PointsTo (bsonIterBinary it) data := by
  have hlies := h.lies_d1 (by simp [htype, noValue])
  have hlt := h.length_lt hlen
  obtain ⟨hd2, hd3, -⟩ := h.accepted.binary htype
  rw [bsonIterBinarySubtype, if_pos htype, bsonIterBinary, if_pos htype]
  by_cases hs : subtype = binaryDeprecated
  · have hvalue : f.value = leBytes 4 (data.length + 4) ++ (subtype :: (leBytes 4 data.length ++ data)) := by
      rw [hv]
      simp [BsonArg.pairs, hs]
    rw [hvalue] at hlies hlt
    simp only [List.length_append, List.length_cons, length_leBytes] at hlt
    obtain ⟨hsize, hrest⟩ := Lies.append hlies
    have hsize : it.uint32At it.d1 = data.length + 4 := hsize.leNat (by omega)
    rw [length_leBytes, ← hd2] at hrest
    have hsub : it.byte it.d2 = binaryDeprecated := by rw [← hs]; exact hrest.byte
    have hdata := (Lies.append hrest.tail).2
    rw [length_leBytes, show it.d2 + 1 = it.d3 by omega] at hdata
    simp only [hsub, if_true, hsize]
    refine ⟨hs.symm, _, Prod.ext rfl ?_, ?_⟩
    · show toUInt32 _ = _
      rw [toUInt32]
      omega
    · rw [BsonIter.ptr, List.drop_drop]
      exact hdata
  · have hvalue : f.value = leBytes 4 data.length ++ (subtype :: data) := by
      rw [hv]
      simp [BsonArg.pairs, hs]
    rw [hvalue] at hlies hlt
    simp only [List.length_append, List.length_cons, length_leBytes] at hlt
    obtain ⟨hsize, hrest⟩ := Lies.append hlies
    have hsize : it.uint32At it.d1 = data.length := hsize.leNat (by omega)
    rw [length_leBytes, ← hd2] at hrest
    have hsub : it.byte it.d2 = subtype := hrest.byte
    have hdata := hrest.tail
    rw [show it.d2 + 1 = it.d3 by omega] at hdata
    simp only [hsub, hs, if_false, hsize]
    exact ⟨trivial, _, rfl, hdata⟩

/-- Code without a scope, or with an empty one, is appended as code. -/
theorem BsonIter.At.codeWithScope {key js : Bytes} {scope : Option BsonData}
    (h : it.At o ((BsonArg.codeWithScope js scope).field key)) (hv : (BsonArg.codeWithScope js scope).Valid)
    (hlen : it.len < 2 ^ 31) : (BsonArg.codeWithScope js scope).ReadBy it := by
  have hpairs : (BsonArg.codeWithScope js scope).field key =
      (scope.filter fun data => !bsonEmpty data).elim ((BsonArg.code js).field key) fun data =>
        ⟨.codewscope, key, leBytes 4 (4 + 4 + (js.length + 1) + data.length) ++ (stringBytes js ++ data)⟩ := by
    rw [BsonArg.field, BsonArg.pairs]
    cases scope.filter fun data => !bsonEmpty data with
    | none => rfl
    | some data => simp [stringBytes]
  rw [hpairs] at h
  rw [BsonArg.ReadBy]
  cases hscope : scope.filter fun data => !bsonEmpty data with
  | none =>
    rw [hscope] at h
    have htype : it.bsonType = some .code := h.type
    have hread : PointsTo (some (it.ptr it.d2), it.utf8LenUnsafe) js := h.string_d2 (by simp [htype]) hlen
        (by simp [BsonArg.field, BsonArg.pairs, stringBytes])
    rwa [Option.elim_none, bsonIterCode, if_pos htype]
  | some data =>
    rw [hscope, Option.elim_some] at h
    obtain ⟨hmem, -⟩ := Option.filter_eq_some_iff.mp hscope
    obtain ⟨fields, rfl, -⟩ := hv data hmem
    have htype : it.bsonType = some .codewscope := h.type
    have hlies := (Lies.append (h.lies_d1 (by simp [htype, noValue]))).2
    have hlt := h.length_lt hlen
    simp only [List.length_append, length_leBytes, length_stringBytes, length_documentBytes] at hlt
    rw [length_leBytes] at hlies
    obtain ⟨hstring, hdocument⟩ := Lies.append hlies
    obtain ⟨hd2, hd3, hd4⟩ := h.codewscope_d2 htype
    have hsize : it.uint32At (it.d1 + 4) = js.length + 1 := (lies_stringBytes hstring (by omega)).1
    have hcontent := (Lies.append (Lies.append hstring).2).1
    rw [length_leBytes, show it.d1 + 4 + 4 = it.d3 by omega] at hcontent
    rw [length_stringBytes, show it.d1 + 4 + (js.length + 5) = it.d4 by omega] at hdocument
    have hscopeSize : it.uint32At it.d4 = (documentBytes fields).length := by
      rw [length_documentBytes]
      exact lies_documentBytes hdocument (by omega)
    have hread : toUInt32 (it.uint32At it.d2 - 1) = js.length := by
      rw [hd2, hsize, toUInt32]
      omega
    rw [Option.elim_some, bsonIterCodewscope, if_pos htype, hread, hscopeSize]
    exact ⟨⟨_, rfl, hcontent⟩, _, rfl, hdocument⟩

/-- The accessors give what was appended. -/
theorem BsonIter.At.readBy {key : Bytes} {arg : BsonArg} (h : it.At o (arg.field key)) (hv : arg.Valid)
    (hlen : it.len < 2 ^ 31) : arg.ReadBy it := by
  have hvalue : (arg.field key).value = arg.pairs.2.2.flatten := rfl
  cases arg with
  | array data =>
    have htype : it.bsonType = some .array := h.type
    have hdata : ((BsonArg.array data).field key).value = data := by simp [hvalue, BsonArg.pairs]
    obtain ⟨hsize, htake⟩ := h.document_d1 (by simp [htype, noValue]) hlen (by rw [hdata]; exact hv)
    rw [hdata] at hsize htake
    exact ⟨it.ptr it.d1, by rw [bsonIterArray, if_pos htype, hsize], htake⟩
  | document data =>
    have htype : it.bsonType = some .document := h.type
    have hdata : ((BsonArg.document data).field key).value = data := by simp [hvalue, BsonArg.pairs]
    obtain ⟨hsize, htake⟩ := h.document_d1 (by simp [htype, noValue]) hlen (by rw [hdata]; exact hv)
    rw [hdata] at hsize htake
    exact ⟨it.ptr it.d1, by rw [bsonIterDocument, if_pos htype, hsize], htake⟩
  | binary subtype data =>
    have htype : (BsonArg.binary subtype data).pairs.1 = .binary := by
      simp only [BsonArg.pairs]
      split <;> rfl
    exact h.binary_d1 (by rw [h.type, BsonArg.field, htype]) hlen hvalue
  | bool b =>
    have htype : it.bsonType = some .bool := h.type
    have hbyte : it.byte it.d1 = if b then 1 else 0 := (h.lies_d1 (by simp [htype, noValue])).byte
    show bsonIterBool it = b
    rw [bsonIterBool, if_pos htype, hbyte]
    cases b <;> rfl
  | dateTime v =>
    have htype : it.bsonType = some .dateTime := h.type
    have hnat := h.leNat_d1 (w := 8) (n := (v % 2 ^ 64).toNat) (by simp [htype, noValue])
      (by simp [hvalue, BsonArg.pairs]) (by omega)
    show bsonIterDateTime it = v
    rw [bsonIterDateTime, if_pos htype, hnat, toInt64_toNat hv.1 hv.2]
  | int64 v =>
    have htype : it.bsonType = some .int64 := h.type
    have hnat := h.leNat_d1 (w := 8) (n := (v % 2 ^ 64).toNat) (by simp [htype, noValue])
      (by simp [hvalue, BsonArg.pairs]) (by omega)
    show bsonIterInt64 it = v
    rw [bsonIterInt64, if_pos htype, hnat, toInt64_toNat hv.1 hv.2]
  | int32 v =>
    have htype : it.bsonType = some .int32 := h.type
    have hnat := h.leNat_d1 (w := 4) (n := toUInt32 v) (by simp [htype, noValue]) (by simp [hvalue, BsonArg.pairs])
      (toUInt32_lt v)
    show bsonIterInt32 it = v
    rw [bsonIterInt32, if_pos htype, BsonIter.uint32At, hnat, toInt32_toUInt32 hv.1 hv.2]
  | double bits =>
    have htype : it.bsonType = some .double := h.type
    have hnat := h.leNat_d1 (w := 8) (n := bits) (by simp [htype, noValue]) (by simp [hvalue, BsonArg.pairs]) hv
    show bsonIterDouble it = bits
    rw [bsonIterDouble, if_pos htype, hnat]
  | oid id =>
    have htype : it.bsonType = some .oid := h.type
    have hlies := h.lies_d1 (by simp [htype, noValue])
    rw [hvalue] at hlies
    exact ⟨it.ptr it.d1, by rw [bsonIterOid, if_pos htype],
      by simpa [BsonArg.pairs, Lies, slice, BsonIter.ptr] using hlies⟩
  | timestamp seconds increment =>
    have htype : it.bsonType = some .timestamp := h.type
    obtain ⟨hs, hi⟩ := timestamp_halves seconds hv.2
    have hlt : seconds <<< 32 ||| increment < 256 ^ 8 := by
      have := hv.1
      omega
    have hnat := h.leNat_d1 (by simp [htype, noValue]) (by simp [hvalue, BsonArg.pairs]) hlt
    show bsonIterTimestamp it = (seconds, increment)
    rw [bsonIterTimestamp, if_pos htype, hnat]
    exact Prod.ext hs hi
  | utf8 value =>
    cases value with
    | none => trivial
    | some value =>
      have htype : it.bsonType = some .utf8 := h.type
      have hread : PointsTo (some (it.ptr it.d2), it.utf8LenUnsafe) value := h.string_d2 (by simp [htype]) hlen
        (by simp [hvalue, BsonArg.pairs, stringBytes])
      rwa [BsonArg.ReadBy, bsonIterUtf8, if_pos htype]
  | symbol value =>
    cases value with
    | none => trivial
    | some value =>
      have htype : it.bsonType = some .symbol := h.type
      have hread : PointsTo (some (it.ptr it.d2), it.utf8LenUnsafe) value := h.string_d2 (by simp [htype]) hlen
        (by simp [hvalue, BsonArg.pairs, stringBytes])
      rwa [BsonArg.ReadBy, bsonIterSymbol, if_pos htype]
  | code js =>
    have htype : it.bsonType = some .code := h.type
    have hread : PointsTo (some (it.ptr it.d2), it.utf8LenUnsafe) js := h.string_d2 (by simp [htype]) hlen
        (by simp [hvalue, BsonArg.pairs, stringBytes])
    rwa [BsonArg.ReadBy, bsonIterCode, if_pos htype]
  | codeWithScope js scope => exact h.codeWithScope hv hlen
  | dbpointer collection id =>
    have htype : it.bsonType = some .dbpointer := h.type
    have hlies := h.lies_d1 (by simp [htype, noValue])
    have hlt := h.length_lt hlen
    have hbytes : ((BsonArg.dbpointer collection id).field key).value = stringBytes collection ++ id := by
      simp [hvalue, BsonArg.pairs, stringBytes]
    rw [hbytes] at hlies hlt
    rw [List.length_append, length_stringBytes] at hlt
    obtain ⟨hstring, hid⟩ := Lies.append hlies
    have hsize : it.uint32At it.d1 = collection.length + 1 := (lies_stringBytes hstring (by omega)).1
    have hcontent := (Lies.append (Lies.append hstring).2).1
    obtain ⟨hd2, hd3⟩ := h.dbpointer_d2 htype
    rw [length_leBytes, ← hd2] at hcontent
    rw [length_stringBytes, show it.d1 + (collection.length + 5) = it.d3 by omega] at hid
    rw [BsonArg.ReadBy, bsonIterDbpointer, if_pos htype, hsize]
    exact ⟨⟨_, rfl, hcontent⟩, _, rfl, hid⟩
  | regex pattern options =>
    have htype : it.bsonType = some .regex := h.type
    have hlies := h.lies_d1 (by simp [htype, noValue])
    have hbytes : ((BsonArg.regex pattern options).field key).value = pattern ++ 0 :: (options ++ [0]) := by
      simp [hvalue, BsonArg.pairs]
    have hd2 := h.regex_d2 htype hbytes hv.1
    rw [hbytes] at hlies
    have hoptions := (Lies.append hlies).2.tail
    rw [← hd2] at hoptions
    rw [BsonArg.ReadBy, bsonIterRegex, if_pos htype]
    exact ⟨_, _, rfl, takeWhile_drop_of_lies hlies hv.1, takeWhile_drop_of_lies hoptions hv.2⟩
  | maxkey | minkey | null | undefined => trivial

end Accessors

/-! ## Documents -/

/-- The iterators are at the fields of the contents: keys, types and the bytes of the values are the ones of the
fields, the accessors give what was appended, and an iterator that recurses comes to the contents of the
subdocument. -/
def Contents.Reads : Contents → List BsonIter → Prop
  | .nil, its => its = []
  | .value key arg rest, it :: its =>
    bsonIterKey it = key ∧ it.bsonType = some arg.pairs.1 ∧ it.valueBytes = arg.pairs.2.2.flatten ∧ arg.ReadBy it ∧
      rest.Reads its
  | .child key type contents rest, it :: its =>
    bsonIterKey it = key ∧ it.bsonType = some type ∧
      (∃ inner, bsonIterRecurse it = some inner ∧ contents.Reads (bsonIterElements inner)) ∧ rest.Reads its
  | _, [] => False

theorem bsonIterElements_end {it : BsonIter} (h : it.nextOff + 1 = it.len) : bsonIterElements it = [] := by
  have hnone : bsonIterNext it = none := by
    unfold bsonIterNext
    dsimp only
    rw [show it.len - (it.nextOff + 1) = 0 by omega, scanNul]
  rw [bsonIterElements_eq, hnone]

theorem lies_drop {raw bytes : Bytes} {d o : Nat} (h : Lies raw (d + o) bytes) : Lies (raw.drop d) o bytes := by
  unfold Lies slice at h ⊢
  rwa [List.drop_drop]

/-- The iterator of a subdocument is in front of its fields. -/
theorem BsonIter.At.recurse {it : BsonIter} {o : Nat} {type : BsonType} {name : Bytes} {fields : List Field}
    (h : it.At o ⟨type, name, documentBytes fields⟩) (htype : type = .document ∨ type = .array)
    (hfields : WellFormed fields) (hlen : it.len < 2 ^ 31) :
    ∃ inner, bsonIterRecurse it = some inner ∧ inner.Fits ∧ inner.len < it.len ∧ inner.nextOff = 4 ∧
      Lies inner.raw 4 (fields.flatMap Field.bytes) ∧ 4 + (fields.flatMap Field.bytes).length + 1 = inner.len := by
  have hty : it.bsonType = some type := h.type
  have hhas : it.bsonType ∉ noValue := by
    rcases htype with rfl | rfl
    · simp [hty, noValue]
    · simp [hty, noValue]
  obtain ⟨hsize, -⟩ := h.document_d1 hhas hlen ⟨fields, rfl, hfields⟩
  have hlies := (Lies.append (Lies.append (h.lies_d1 hhas)).2).1
  rw [length_leBytes] at hlies
  have hrec : bsonIterRecurse it = some ⟨it.ptr it.d1, it.uint32At it.d1, 0, 0, 0, 0, 0, 0, 0, 4⟩ := by
    rcases htype with rfl | rfl
    · simp [bsonIterRecurse, bsonIterDocument, hty]
    · simp [bsonIterRecurse, bsonIterArray, hty]
  obtain ⟨hfits, hlt⟩ := bsonIterRecurse_fits h.accepted hrec
  refine ⟨_, hrec, hfits, hlt, rfl, lies_drop hlies, ?_⟩
  rw [hsize]
  simp only [length_documentBytes]
  omega

theorem Contents.wellFormed {c : Contents} (h : c.Valid) : WellFormed c.fields := by
  induction c with
  | nil => simp [WellFormed, Contents.fields]
  | value key arg rest ih =>
    intro f hf
    rcases List.mem_cons.mp hf with rfl | hf
    · exact ⟨h.1.1, BsonArg.layout h.1.2.1⟩
    · exact ih h.2 f hf
  | child key type contents rest ihc ihr =>
    intro f hf
    rcases List.mem_cons.mp hf with rfl | hf
    · refine ⟨h.1.1, layout_document ⟨_, rfl, ihc h.2.1⟩ ?_⟩
      rcases h.1.2.2 with rfl | rfl
      · simp
      · simp
    · exact ihr h.2.2 f hf

/-- Where the bytes of the fields are, an iterator reads the contents. -/
theorem Contents.reads {c : Contents} {it : BsonIter} (hv : c.Valid) (hfits : it.Fits)
    (hlies : Lies it.raw it.nextOff (c.fields.flatMap Field.bytes)) (hoff : 4 ≤ it.nextOff)
    (hend : it.nextOff + (c.fields.flatMap Field.bytes).length + 1 = it.len) (hlen : it.len < 2 ^ 31) :
    c.Reads (bsonIterElements it) := by
  induction c generalizing it with
  | nil => exact bsonIterElements_end (by simpa [Contents.fields] using hend)
  | value key arg rest ih =>
    rw [Contents.fields, List.flatMap_cons] at hlies hend
    rw [List.length_append] at hend
    obtain ⟨hfirst, hrest⟩ := Lies.append hlies
    obtain ⟨e, he, hraw, helen, hnext, hat⟩ := bsonIterNext_at (f := arg.field key) hv.1.1 (BsonArg.layout hv.1.2.1)
      hfits hfirst hoff (by omega) hlen
    rw [bsonIterElements_eq, he]
    refine ⟨hat.keyEq, hat.type, hat.valueBytes_eq, hat.readBy hv.1.2.1 (by omega), ih hv.2 ?_ ?_ ?_ ?_ ?_⟩
    · rw [BsonIter.Fits, hraw, helen]
      exact hfits
    · rw [hraw, hnext]
      exact hrest
    · omega
    · omega
    · omega
  | child key type contents rest ihc ihr =>
    rw [Contents.fields, List.flatMap_cons] at hlies hend
    rw [List.length_append] at hend
    obtain ⟨hfirst, hrest⟩ := Lies.append hlies
    have hlayout : Layout type (documentBytes contents.fields) := by
      refine layout_document ⟨_, rfl, Contents.wellFormed hv.2.1⟩ ?_
      rcases hv.1.2.2 with rfl | rfl
      · simp
      · simp
    obtain ⟨e, he, hraw, helen, hnext, hat⟩ := bsonIterNext_at (f := ⟨type, key, documentBytes contents.fields⟩) hv.1.1
      hlayout hfits hfirst hoff (by omega) hlen
    obtain ⟨inner, hrec, hifits, hilen, hinext, hilies, hiend⟩ :=
      hat.recurse hv.1.2.2 (Contents.wellFormed hv.2.1) (by omega)
    rw [bsonIterElements_eq, he]
    refine ⟨hat.keyEq, hat.type, ⟨inner, hrec, ihc hv.2.1 hifits ?_ ?_ ?_ ?_⟩, ihr hv.2.2 ?_ ?_ ?_ ?_ ?_⟩
    · rwa [hinext]
    · omega
    · rwa [hinext]
    · omega
    · rw [BsonIter.Fits, hraw, helen]
      exact hfits
    · rw [hraw, hnext]
      exact hrest
    · omega
    · omega
    · omega

/-- The iterator of a document is in front of its fields. -/
theorem bsonIterInit_documentBytes {fields : List Field} (h : (documentBytes fields).length < 2 ^ 31) :
    ∃ it, bsonIterInit ⟨documentBytes fields, h⟩ = it ∧ it.Fits ∧ it.len = (documentBytes fields).length ∧
      Lies it.raw it.nextOff (fields.flatMap Field.bytes) ∧ 4 ≤ it.nextOff ∧
      it.nextOff + (fields.flatMap Field.bytes).length + 1 = it.len := by
  have hlen : (documentBytes fields).length = (fields.flatMap Field.bytes).length + 5 := length_documentBytes _
  have hinit : bsonIterInit ⟨documentBytes fields, h⟩ =
      ⟨documentBytes fields, (documentBytes fields).length, 0, 0, 0, 0, 0, 0, 0, 4⟩ := by
    rw [bsonIterInit, if_neg (by show ¬(documentBytes fields).length < 5; omega)]
  have hinner := (Lies.append (Lies.append (lies_self (documentBytes fields))).2).1
  rw [length_leBytes] at hinner
  refine ⟨_, hinit, le_refl _, rfl, hinner, le_refl 4, ?_⟩
  simp only [hlen]
  omega

theorem Contents.reads_document {c : Contents} (hv : c.Valid) (h : (documentBytes c.fields).length < 2 ^ 31) :
    c.Reads (bsonIterElements (bsonIterInit ⟨documentBytes c.fields, h⟩)) := by
  obtain ⟨it, hit, hfits, hlen, hlies, hoff, hend⟩ := bsonIterInit_documentBytes h
  rw [hit]
  exact Contents.reads hv hfits hlies hoff hend (by omega)

/-- What is written up to 1 GiB, subdocuments begun in subdocuments, is read back: the same keys, types and values in
the same order, in every subdocument. -/
theorem bsonIterElements_written (junk : Nat → UInt8) {c : Contents} (hv : c.Valid)
    (hsize : (documentBytes c.fields).length ≤ 2 ^ 30) :
    ∃ w, bsonRun junk (bsonInit junk) c.calls = .ok (List.replicate c.calls.length true, w) ∧
      ∃ h : (bsonGetData w).length < 2 ^ 31, c.Reads (bsonIterElements (bsonIterInit ⟨bsonGetData w, h⟩)) := by
  have hused : (bsonInit junk).used = 5 := rfl
  have hlen := length_documentBytes c.fields
  obtain ⟨w, hrun, hw, -⟩ := Contents.run_spec junk (Fresh.shows (Or.inl rfl)) hv (by rw [hused]; omega)
  have hdata : bsonGetData w = documentBytes c.fields := hw.bsonGetData_eq rfl
  refine ⟨w, hrun, by rw [hdata]; omega, ?_⟩
  simp only [hdata]
  exact Contents.reads_document hv (by omega)

theorem bsonIterElements_nestedContents :
    ∃ w, bsonRun (fun _ => 0) (bsonInit fun _ => 0) nestedContents.calls = .ok ([true, true, true, true], w) ∧
      ∃ h : (bsonGetData w).length < 2 ^ 31,
        nestedContents.Reads (bsonIterElements (bsonIterInit ⟨bsonGetData w, h⟩)) :=
  bsonIterElements_written (fun _ => 0) nestedContents_valid (by decide)

end Monary
