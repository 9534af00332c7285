import Monary.Bson.Writer

/-!
# Runs of a writer

* `BsonArg.field`, `BsonArg.layout` : what is appended for a value is a well-formed field;
* `BsonCall`, `bsonRun` : calls that append, begin and end; `Draft.step` : what a call means of the documents that
  are being written;
* `EndsOpen` : every end is one of a subdocument that is open;
* `bsonRun_spec` : then a run does what its calls mean, those that returned false nothing, and no write is outside of
  the buffer;
* `bsonRun_fresh` : so does a run on what `bson_new` or `bson_init` gives.
-/

namespace Monary
open ByteSeq CInt

/-! ## Values -/

def WellFormed (fields : List Field) : Prop := ∀ f ∈ fields, 0 ∉ f.name ∧ Layout f.type f.value

/-- What the caller of a function that appends promises of the value. -/
def BsonArg.Valid : BsonArg → Prop
  | .array data | .document data => ∃ fields, data = documentBytes fields ∧ WellFormed fields
  | .codeWithScope _ scope => ∀ data ∈ scope, ∃ fields, data = documentBytes fields ∧ WellFormed fields
  | .dateTime v | .int64 v => -2 ^ 63 ≤ v ∧ v < 2 ^ 63
  | .dbpointer _ id | .oid id => id.length = 12
  | .double bits => bits < 2 ^ 64
  | .int32 v => -2 ^ 31 ≤ v ∧ v < 2 ^ 31
  | .regex pattern options => 0 ∉ pattern ∧ 0 ∉ options
  | .timestamp seconds increment => seconds < 2 ^ 32 ∧ increment < 2 ^ 32
  | _ => True

def BsonArg.field (key : Bytes) (arg : BsonArg) : Field := ⟨arg.pairs.1, key, arg.pairs.2.2.flatten⟩

/-- `n_bytes` is the number of the bytes that are copied. -/
theorem BsonArg.length_pairs {arg : BsonArg} (h : arg.Valid) : arg.pairs.2.2.flatten.length = arg.pairs.2.1 := by
  cases arg with
  | binary subtype data =>
    by_cases hs : subtype = binaryDeprecated
    · simp [BsonArg.pairs, hs]
      omega
    · simp [BsonArg.pairs, hs]
      omega
  | codeWithScope js scope =>
    simp only [BsonArg.pairs]
    split
    · simp
    · simp
      omega
  | dbpointer collection id =>
    have hid : id.length = 12 := h
    simp [BsonArg.pairs, hid]
    omega
  | oid id =>
    have hid : id.length = 12 := h
    simp [BsonArg.pairs, hid]
  | regex pattern options => simp [BsonArg.pairs]; omega
  | utf8 value => cases value <;> simp [BsonArg.pairs]; omega
  | symbol value => cases value <;> simp [BsonArg.pairs]; omega
  | _ => simp [BsonArg.pairs]

theorem layout_document {data : Bytes} (h : ∃ fields, data = documentBytes fields ∧ WellFormed fields) {type : BsonType}
    (ht : type ∈ [BsonType.document, .array]) : Layout type data := by
  obtain ⟨fields, rfl, hf⟩ := h
  exact .document ht fields (fun f hm => (hf f hm).1) fun f hm => (hf f hm).2

/-- What is copied for a value is a value of its type. -/
theorem BsonArg.layout {arg : BsonArg} (h : arg.Valid) : Layout arg.pairs.1 arg.pairs.2.2.flatten := by
  cases arg with
  | array data => simpa [BsonArg.pairs] using layout_document h (by simp)
  | document data => simpa [BsonArg.pairs] using layout_document h (by simp)
  | binary subtype data =>
    by_cases hs : subtype = binaryDeprecated
    · have := Layout.binary subtype (leBytes 4 data.length ++ data) (by simp)
      simpa [BsonArg.pairs, hs, Nat.add_comm] using this
    · simpa [BsonArg.pairs, hs] using Layout.binary subtype data (by simp [hs])
  | bool b => exact .one (by simp [BsonArg.pairs])
  | code js => simpa [BsonArg.pairs, stringBytes] using Layout.string (by simp : BsonType.code ∈ _) js
  | codeWithScope js scope =>
    simp only [BsonArg.pairs]
    split
    · simpa [stringBytes] using Layout.string (by simp : BsonType.code ∈ _) js
    · next data hscope =>
      obtain ⟨hmem, -⟩ := Option.filter_eq_some_iff.mp hscope
      obtain ⟨fields, rfl, hf⟩ := h data hmem
      have hlayout := Layout.codewscope js fields (fun f hm => (hf f hm).1) fun f hm => (hf f hm).2
      have hlen : 4 + (stringBytes js).length + (documentBytes fields).length =
          4 + 4 + (js.length + 1) + (documentBytes fields).length := by
        rw [length_stringBytes]
        omega
      rw [hlen] at hlayout
      simpa [stringBytes] using hlayout
  | dbpointer collection id => simpa [BsonArg.pairs, stringBytes] using Layout.dbpointer collection id h
  | double bits => exact .eight (by simp [BsonArg.pairs]) (by simp [BsonArg.pairs])
  | int32 v => exact .four (by simp [BsonArg.pairs])
  | int64 v => exact .eight (by simp [BsonArg.pairs]) (by simp [BsonArg.pairs])
  | oid id =>
    have hid : id.length = 12 := h
    exact .twelve (by simp [BsonArg.pairs, hid])
  | regex pattern options => simpa [BsonArg.pairs] using Layout.regex pattern options h.1 h.2
  | utf8 value =>
    cases value with
    | none => exact .empty (by simp [BsonArg.pairs])
    | some value => simpa [BsonArg.pairs, stringBytes] using Layout.string (by simp : BsonType.utf8 ∈ _) value
  | symbol value =>
    cases value with
    | none => exact .empty (by simp [BsonArg.pairs])
    | some value => simpa [BsonArg.pairs, stringBytes] using Layout.string (by simp : BsonType.symbol ∈ _) value
  | timestamp seconds increment => exact .eight (by simp [BsonArg.pairs]) (by simp [BsonArg.pairs])
  | dateTime v => exact .eight (by simp [BsonArg.pairs]) (by simp [BsonArg.pairs])
  | maxkey | minkey | null | undefined => exact .empty (by simp [BsonArg.pairs])

/-- The length of a field that is appended. -/
theorem BsonArg.length_field {arg : BsonArg} (h : arg.Valid) (key : Bytes) :
    (arg.field key).bytes.length = 1 + key.length + 1 + arg.pairs.2.1 := by
  rw [BsonArg.field, Field.bytes, ← length_pairs h]
  simp only [List.length_cons, List.length_append]
  omega

variable {junk : Nat → UInt8} {w : BsonWriter} {frames : List Enclosing} {fields : List Field}

variable (junk) in
theorem bsonAppendArg_spec (h : Written w frames fields) {key : Bytes} {arg : BsonArg} (hv : arg.Valid)
    (hsmall : (arg.field key).bytes.length < 2 ^ 32) :
    ∃ ok w', bsonAppendArg junk w key arg = .ok (ok, w') ∧
      (ok = true → Written w' frames (fields ++ [arg.field key])) ∧ (ok = false → w' = w) ∧
      (w.doc.offset + w.doc.len + (arg.field key).bytes.length + frames.length ≤ 2 ^ 30 → ok = true) := by
  have hbytes : ([arg.field key]).flatMap Field.bytes = (arg.field key).bytes := by simp
  have hpairs : ([arg.pairs.1.toByte] :: (key :: [0] :: arg.pairs.2.2)).flatten =
      ([arg.field key]).flatMap Field.bytes := by
    rw [hbytes]
    simp [Field.bytes, BsonArg.field]
  obtain ⟨ok, w', hrun, hok, hfail, -, hfits⟩ := bsonAppendPairs_spec junk h (by simp) hpairs
    (by rwa [hbytes])
  rw [hbytes] at hrun hfits
  refine ⟨ok, w', ?_, hok, hfail, hfits⟩
  rw [bsonAppendArg, ← BsonArg.length_field hv, hrun]

/-! ## Calls -/

inductive BsonCall where
  | appendArg (key : Bytes) (arg : BsonArg)
  | beginChild (key : Bytes) (type : BsonType)
  | endChild

def BsonCall.run (junk : Nat → UInt8) (w : BsonWriter) : BsonCall → Except WriteFault (Bool × BsonWriter)
  | .appendArg key arg => bsonAppendArg junk w key arg
  | .beginChild key type => bsonAppendBsonBegin junk w key type
  | .endChild => bsonAppendBsonEnd w

/-- The calls one after the other, and what they return. -/
def bsonRun (junk : Nat → UInt8) : BsonWriter → List BsonCall → Except WriteFault (List Bool × BsonWriter)
  | w, [] => .ok ([], w)
  | w, call :: calls => do
    let r ← call.run junk w
    let rs ← bsonRun junk r.2 calls
    .ok (r.1 :: rs.1, rs.2)

/-- Keys are C strings whose length is an `int`, values are well formed and `n_bytes` is a `uint32_t`. -/
def BsonCall.Valid : BsonCall → Prop
  | .appendArg key arg => 0 ∉ key ∧ arg.Valid ∧ (arg.field key).bytes.length < 2 ^ 32
  | .beginChild key type => 0 ∉ key ∧ key.length < 2 ^ 31 ∧ (type = .document ∨ type = .array)
  | .endChild => True

/-- The documents that are being written: the fields of the innermost one; of the others their fields, and the type
and the name of the subdocument. -/
structure Draft where
  outer : List (List Field × BsonType × Bytes)
  fields : List Field

/-- What a call that returned `ok` means. -/
def Draft.step (d : Draft) (call : BsonCall) (ok : Bool) : Draft :=
  match ok, call, d.outer with
  | false, _, _ => d
  | true, .appendArg key arg, _ => { d with fields := d.fields ++ [arg.field key] }
  | true, .beginChild key type, _ => ⟨(d.fields, type, key) :: d.outer, []⟩
  | true, .endChild, [] => d
  | true, .endChild, (fields, type, name) :: outer => ⟨outer, fields ++ [⟨type, name, documentBytes d.fields⟩]⟩

theorem Draft.step_endChild {d : Draft} {fields type name outer} (h : d.outer = (fields, type, name) :: outer) :
    d.step .endChild true = ⟨outer, fields ++ [⟨type, name, documentBytes d.fields⟩]⟩ := by
  cases d
  cases h
  rfl

def Draft.run (d : Draft) : List BsonCall → List Bool → Draft
  | call :: calls, ok :: oks => (d.step call ok).run calls oks
  | _, _ => d

def Enclosing.open (f : Enclosing) : List Field × BsonType × Bytes := (f.fields, f.type, f.name)

/-- The buffer has what the draft says, and every field is well formed. -/
structure Shows (w : BsonWriter) (d : Draft) : Prop where
  holds : ∃ frames, Written w frames d.fields ∧ frames.map Enclosing.open = d.outer
  fields : WellFormed d.fields
  outer : ∀ o ∈ d.outer, WellFormed o.1 ∧ 0 ∉ o.2.2 ∧ (o.2.1 = .document ∨ o.2.1 = .array)

/-- The number of bytes that a call adds. -/
def BsonCall.size : BsonCall → Nat
  | .appendArg key arg => (arg.field key).bytes.length
  | .beginChild key _ => key.length + 7
  | .endChild => 0

/-- The number of bytes that are in use, the NULs of the parents among them. -/
def BsonWriter.used (w : BsonWriter) : Nat := w.doc.offset + w.doc.len + w.parents.length

theorem Written.used_eq (h : Written w frames fields) :
    w.used = (framesBytes frames).length + ((fields.flatMap Field.bytes).length + 5) + frames.length := by
  rw [BsonWriter.used, h.doc, h.parents, length_framesDocs, length_documentBytes]

theorem WellFormed.append {f : Field} (h : WellFormed fields) (hname : 0 ∉ f.name) (hvalue : Layout f.type f.value) :
    WellFormed (fields ++ [f]) := by
  intro g hg
  rcases List.mem_append.mp hg with hg | hg
  · exact h g hg
  · obtain rfl := List.mem_singleton.mp hg
    exact ⟨hname, hvalue⟩

variable {d : Draft}

theorem Shows.run_endChild (h : Shows w d) (hd : d.outer = []) :
    BsonCall.endChild.run junk w = .error .unchecked := by
  obtain ⟨frames, hholds, hframes⟩ := h.holds
  rw [hd, List.map_eq_nil_iff] at hframes
  subst hframes
  have hparents : w.parents = [] := hholds.parents
  rw [BsonCall.run, bsonAppendBsonEnd, hparents]

variable (junk) in
/-- A call does what it means, or it is the end of what was not begun. -/
theorem Shows.step (h : Shows w d) {call : BsonCall} (hv : call.Valid) :
    (call = .endChild ∧ d.outer = [] ∧ call.run junk w = .error .unchecked) ∨
      ∃ ok w', call.run junk w = .ok (ok, w') ∧ Shows w' (d.step call ok) ∧ (ok = true → w'.used = w.used + call.size) ∧
        (w.used + call.size ≤ 2 ^ 30 → ok = true) := by
  obtain ⟨frames, hholds, hframes⟩ := h.holds
  have hused := hholds.used_eq
  cases call with
  | appendArg key arg =>
    obtain ⟨hkey, harg, hsmall⟩ := hv
    obtain ⟨ok, w', hrun, hok, hfail, hfits⟩ := bsonAppendArg_spec junk hholds harg hsmall
    refine Or.inr ⟨ok, w', hrun, ?_, fun ht => ?_, fun hsize => hfits ?_⟩
    · cases ok with
      | false => rw [hfail rfl]; exact h
      | true => exact ⟨⟨frames, hok rfl, hframes⟩, h.fields.append hkey (BsonArg.layout harg), h.outer⟩
    · rw [(hok ht).used_eq, hused, List.flatMap_append, List.flatMap_singleton, List.length_append]
      show _ = _ + (arg.field key).bytes.length
      omega
    · have hparents : w.parents.length = frames.length := by rw [hholds.parents, length_framesDocs]
      rw [BsonWriter.used, hparents] at hsize
      have : (BsonCall.appendArg key arg).size = (arg.field key).bytes.length := rfl
      omega
  | beginChild key type =>
    obtain ⟨hkey, hlen, htype⟩ := hv
    obtain ⟨ok, w', hrun, hok, hfail, hfits⟩ := bsonAppendBsonBegin_spec junk hholds htype hlen
    refine Or.inr ⟨ok, w', hrun, ?_, fun ht => ?_, fun hsize => hfits ?_⟩
    · cases ok with
      | false => exact ⟨⟨frames, hfail rfl, hframes⟩, h.fields, h.outer⟩
      | true =>
        obtain ⟨header, hchild⟩ := hok rfl
        refine ⟨⟨_, hchild, ?_⟩, by simp [Draft.step, WellFormed], ?_⟩
        · simp [Draft.step, Enclosing.open, hframes]
        · intro o ho
          rcases List.mem_cons.mp ho with rfl | ho
          · exact ⟨h.fields, hkey, htype⟩
          · exact h.outer o ho
    · obtain ⟨header, hchild⟩ := hok ht
      have hheader : header.length = 4 := hchild.headers _ List.mem_cons_self
      rw [hchild.used_eq, hused, framesBytes, Enclosing.bytes]
      simp only [BsonCall.size, List.length_append, List.length_cons, List.length_nil, List.flatMap_nil, hheader]
      omega
    · have hparents : w.parents.length = frames.length := by rw [hholds.parents, length_framesDocs]
      rw [BsonWriter.used, hparents, BsonCall.size] at hsize
      omega
  | endChild =>
    cases frames with
    | nil =>
      have houter : d.outer = [] := by simpa using hframes.symm
      exact Or.inl ⟨rfl, houter, h.run_endChild houter⟩
    | cons f frames =>
      obtain ⟨w', hrun, hw'⟩ := bsonAppendBsonEnd_spec hholds
      have hstep := Draft.step_endChild (d := d) hframes.symm
      have houter : ∀ o ∈ f.open :: frames.map Enclosing.open, WellFormed o.1 ∧ 0 ∉ o.2.2 ∧
          (o.2.1 = .document ∨ o.2.1 = .array) := by
        rw [← List.map_cons, hframes]
        exact h.outer
      obtain ⟨hfields, hname, htype⟩ := houter f.open List.mem_cons_self
      refine Or.inr ⟨true, w', hrun, ?_, fun _ => ?_, fun _ => rfl⟩
      · rw [hstep]
        refine ⟨⟨frames, hw', rfl⟩, hfields.append hname ?_, fun o ho => houter o (List.mem_cons_of_mem _ ho)⟩
        exact layout_document ⟨_, rfl, h.fields⟩ (by rcases htype with ht | ht <;> simp [← ht, Enclosing.open])
      · have hheader := hholds.headers f List.mem_cons_self
        rw [hw'.used_eq, hused, framesBytes, Enclosing.bytes, List.flatMap_append, List.flatMap_singleton, Field.bytes]
        simp only [BsonCall.size, List.length_append, List.length_cons, List.length_nil, length_documentBytes, hheader]
        omega

/-! ## Runs -/

theorem bsonRun_cons {call : BsonCall} {ok : Bool} {w' : BsonWriter} (calls : List BsonCall)
    (h : call.run junk w = .ok (ok, w')) :
    bsonRun junk w (call :: calls) = (bsonRun junk w' calls).map fun rs => (ok :: rs.1, rs.2) := by
  rw [bsonRun, h]
  simp only [bind, Except.bind]
  cases bsonRun junk w' calls <;> rfl

theorem bsonRun_cons_eq_ok {call : BsonCall} {calls : List BsonCall} {oks : List Bool} {w' : BsonWriter} :
    bsonRun junk w (call :: calls) = .ok (oks, w') ↔ ∃ ok w₁ oks', call.run junk w = .ok (ok, w₁) ∧
      bsonRun junk w₁ calls = .ok (oks', w') ∧ oks = ok :: oks' := by
  constructor
  · intro h
    cases hcall : call.run junk w with
    | error e =>
      rw [bsonRun, hcall] at h
      cases h
    | ok r =>
      rw [bsonRun_cons calls hcall] at h
      cases hrest : bsonRun junk r.2 calls with
      | error e =>
        rw [hrest] at h
        cases h
      | ok rs =>
        rw [hrest] at h
        cases h
        exact ⟨r.1, r.2, rs.1, rfl, hrest, rfl⟩
  · rintro ⟨ok, w₁, oks', hcall, hrest, rfl⟩
    rw [bsonRun_cons calls hcall, hrest]
    rfl

/-- At every end a subdocument is open; a begin that returned false has opened none. -/
def EndsOpen (junk : Nat → UInt8) (w : BsonWriter) (d : Draft) (calls : List BsonCall) : Prop :=
  ∀ before after oks w', calls = before ++ .endChild :: after → bsonRun junk w before = .ok (oks, w') →
    (d.run before oks).outer ≠ []

theorem EndsOpen.tail {call : BsonCall} {calls : List BsonCall} {ok : Bool} {w' : BsonWriter}
    (h : EndsOpen junk w d (call :: calls)) (hrun : call.run junk w = .ok (ok, w')) :
    EndsOpen junk w' (d.step call ok) calls := by
  rintro before after oks w'' rfl hbefore
  exact h (call :: before) after (ok :: oks) w'' rfl (bsonRun_cons_eq_ok.mpr ⟨ok, w', oks, hrun, hbefore, rfl⟩)

theorem Shows.run {calls : List BsonCall} {oks : List Bool} {w' : BsonWriter} (h : Shows w d)
    (hv : ∀ call ∈ calls, call.Valid) (hrun : bsonRun junk w calls = .ok (oks, w')) : Shows w' (d.run calls oks) := by
  induction calls generalizing w d oks with
  | nil =>
    cases hrun
    exact h
  | cons call calls ih =>
    obtain ⟨ok, w₁, oks', hcall, hrest, rfl⟩ := bsonRun_cons_eq_ok.mp hrun
    rcases h.step junk (hv call List.mem_cons_self) with ⟨rfl, -, hstray⟩ | ⟨ok', w₂, hcall', hw₂, -⟩
    · rw [hcall] at hstray
      cases hstray
    · obtain ⟨rfl, rfl⟩ := Prod.mk.inj (Except.ok.inj (hcall.symm.trans hcall'))
      exact ih hw₂ (fun c hc => hv c (List.mem_cons_of_mem _ hc)) hrest

/-- A run that returns has ended open subdocuments only. -/
theorem EndsOpen.of_run {calls : List BsonCall} {oks : List Bool} {w' : BsonWriter} (h : Shows w d)
    (hv : ∀ call ∈ calls, call.Valid) (hrun : bsonRun junk w calls = .ok (oks, w')) : EndsOpen junk w d calls := by
  rintro before after oks₁ w₁ rfl hbefore houter
  have hw₁ := h.run (fun call hcall => hv call (List.mem_append_left _ hcall)) hbefore
  clear h hv
  induction before generalizing w d oks oks₁ with
  | nil =>
    cases hbefore
    obtain ⟨ok, w₂, -, hcall, -⟩ := bsonRun_cons_eq_ok.mp hrun
    rw [hw₁.run_endChild houter] at hcall
    cases hcall
  | cons call before ih =>
    obtain ⟨ok, w₂, oks', hcall, hrest, rfl⟩ := bsonRun_cons_eq_ok.mp hrun
    obtain ⟨ok', w₂', oks₁', hcall', hbefore', rfl⟩ := bsonRun_cons_eq_ok.mp hbefore
    obtain ⟨rfl, rfl⟩ := Prod.mk.inj (Except.ok.inj (hcall.symm.trans hcall'))
    exact ih oks₁' hrest hbefore' houter hw₁

/-- A run whose ends are of open subdocuments does what its calls mean. -/
theorem bsonRun_spec {calls : List BsonCall} (h : Shows w d) (hv : ∀ call ∈ calls, call.Valid)
    (hends : EndsOpen junk w d calls) :
    ∃ oks w', bsonRun junk w calls = .ok (oks, w') ∧ Shows w' (d.run calls oks) := by
  induction calls generalizing w d with
  | nil => exact ⟨[], w, rfl, h⟩
  | cons call calls ih =>
    rcases h.step junk (hv call List.mem_cons_self) with ⟨rfl, hd, -⟩ | ⟨ok, w', hrun, hw', -⟩
    · exact absurd hd (hends [] calls [] w rfl rfl)
    · obtain ⟨oks, w'', hrun', hw''⟩ := ih hw' (fun c hc => hv c (List.mem_cons_of_mem _ hc)) (hends.tail hrun)
      exact ⟨ok :: oks, w'', bsonRun_cons_eq_ok.mpr ⟨ok, w', oks, hrun, hrun', rfl⟩, hw''⟩

/-- A writer that nothing was written to. -/
def Fresh (junk : Nat → UInt8) (w : BsonWriter) : Prop :=
  w = bsonInit junk ∨ ∃ size ≤ bsonMaxSize, w = bsonSizedNew junk size

theorem Fresh.shows (h : Fresh junk w) : Shows w ⟨[], []⟩ := by
  have hinit : Written (bsonInit junk) [] [] := by
    refine ⟨rfl, rfl, by simp, ⟨(List.range' 5 (120 - 5)).map junk, rfl, by simp⟩, fun _ => ⟨rfl, ?_⟩, ?_⟩
    · exact length_enlarge junk (by simp)
    · rw [bsonInit, length_enlarge junk (by simp)]
      decide
  have hsized : ∀ size ≤ bsonMaxSize, Written (bsonSizedNew junk size) [] [] := by
    intro size hsize
    unfold bsonSizedNew
    split
    · exact hinit
    · refine ⟨rfl, rfl, by simp, ⟨(List.range' 5 (max 5 size - 5)).map junk, rfl, by simp⟩, by simp, ?_⟩
      rw [length_enlarge junk (by simp)]
      have : bsonMaxSize = 2 ^ 31 - 1 := rfl
      omega
  refine ⟨⟨[], ?_, rfl⟩, by simp [WellFormed], by simp⟩
  rcases h with rfl | ⟨size, hsize, rfl⟩
  · exact hinit
  · exact hsized size hsize

theorem Shows.bsonGetData_eq (h : Shows w d) (hd : d.outer = []) : bsonGetData w = documentBytes d.fields := by
  obtain ⟨frames, hholds, hframes⟩ := h.holds
  rw [hd, List.map_eq_nil_iff] at hframes
  subst hframes
  obtain ⟨slack, hbuf, -⟩ := hholds.buf
  rw [bsonGetData, hholds.doc, hbuf]
  simp [slice, framesBytes]

/-- Whatever is appended, begun and ended: the calls that return true are what the document comes to have, those that
return false leave it as it is, and no write is outside of the buffer. -/
theorem bsonRun_fresh {calls : List BsonCall} (h : Fresh junk w) (hv : ∀ call ∈ calls, call.Valid)
    (hends : EndsOpen junk w ⟨[], []⟩ calls) :
    ∃ oks w', bsonRun junk w calls = .ok (oks, w') ∧ WellFormed (Draft.run ⟨[], []⟩ calls oks).fields ∧
      ((Draft.run ⟨[], []⟩ calls oks).outer = [] →
        bsonGetData w' = documentBytes (Draft.run ⟨[], []⟩ calls oks).fields) := by
  obtain ⟨oks, w', hrun, hw'⟩ := bsonRun_spec h.shows hv hends
  exact ⟨oks, w', hrun, hw'.fields, hw'.bsonGetData_eq⟩

end Monary
