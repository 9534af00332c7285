import Monary.Bson.Written

/-!
# Documents that are written whole

* `Contents` : what a document is to contain, with the contents of its subdocuments; `Contents.calls` writes it,
  `Contents.fields` are its fields;
* `two_pow_le_bsonNextPowerOfTwo` : a buffer never grows over 1 GiB, since the next size would not be an `int`;
* `bsonRun_contents` : `bson_init` and these calls succeed if and only if the document has at most 1 GiB.
-/

namespace Monary
open ByteSeq CInt

/-! ## The largest buffer -/

/-- The bits from `a` to `k` are set. -/
theorem testBit_or_shiftRight {v a k n : Nat} (h : ∀ i, a ≤ i → i ≤ k → v.testBit i = true) (hn : a = 0 ∨ n + a ≤ k + 1) :
    ∀ i, a - n ≤ i → i ≤ k → (v ||| v >>> n).testBit i = true := by
  intro i hi hik
  rw [Nat.testBit_or, Nat.testBit_shiftRight, Bool.or_eq_true]
  by_cases hai : a ≤ i
  · exact Or.inl (h i hai hik)
  · exact Or.inr (h (n + i) (by omega) (by omega))

/-- The bits up to `k` are set, so the number is not below the next power of two but for one. -/
theorem le_of_testBit {v k : Nat} (h : ∀ i, i ≤ k → v.testBit i = true) : 2 ^ (k + 1) ≤ v + 1 := by
  have hmod : v % 2 ^ (k + 1) = 2 ^ (k + 1) - 1 := by
    apply Nat.eq_of_testBit_eq
    intro i
    rw [Nat.testBit_mod_two_pow, Nat.testBit_two_pow_sub_one]
    by_cases hi : i < k + 1
    · simp [hi, h i (Nat.le_of_lt_succ hi)]
    · simp [hi]
  have := Nat.mod_le v (2 ^ (k + 1))
  omega

theorem two_pow_le_bsonNextPowerOfTwo {v k : Nat} (hv : 2 ^ k < v) (hlt : v ≤ 2 ^ (k + 1)) (hk : k < 63) :
    2 ^ (k + 1) ≤ bsonNextPowerOfTwo v := by
  have h0 : ∀ i, k ≤ i → i ≤ k → (v - 1).testBit i = true := by
    intro i hki hik
    obtain rfl := Nat.le_antisymm hki hik
    have hdiv : (v - 1) / 2 ^ k = 1 := Nat.div_eq_of_lt_le (by omega) (by rw [Nat.pow_succ] at hlt; omega)
    rw [Nat.testBit_eq_decide_div_mod_eq, hdiv]
    rfl
  have h1 := testBit_or_shiftRight (n := 1) h0 (by omega)
  have h2 := testBit_or_shiftRight (n := 2) h1 (by omega)
  have h4 := testBit_or_shiftRight (n := 4) h2 (by omega)
  have h8 := testBit_or_shiftRight (n := 8) h4 (by omega)
  have h16 := testBit_or_shiftRight (n := 16) h8 (by omega)
  have h32 := testBit_or_shiftRight (n := 32) h16 (by omega)
  exact le_of_testBit fun i hi => h32 i (by omega) hi

/-- A power of two that is an `int` is at most `2 ^ 30`. -/
theorem bsonNextPowerOfTwo_fits {v : Nat} (h : bsonNextPowerOfTwo v ≤ bsonMaxSize) : bsonNextPowerOfTwo v ≤ 2 ^ 30 := by
  have hmax : bsonMaxSize = 2 ^ 31 - 1 := rfl
  have hle := le_bsonNextPowerOfTwo v
  apply bsonNextPowerOfTwo_le
  by_contra hlt
  have := two_pow_le_bsonNextPowerOfTwo (v := v) (k := 30) (by omega) (by omega) (by decide)
  omega

variable {junk : Nat → UInt8} {w : BsonWriter} {d : Draft}

theorem length_enlarge_le {bs : Bytes} {n m : Nat} (hbs : bs.length ≤ m) (hn : n ≤ m) : (enlarge junk bs n).length ≤ m := by
  simp [enlarge]
  omega

theorem bsonGrow_limit {size : Nat} (h : w.buf.length ≤ 2 ^ 30) : (bsonGrow junk w size).2.buf.length ≤ 2 ^ 30 := by
  unfold bsonGrow bsonImplInlineGrow bsonImplAllocGrow
  dsimp only
  split
  · split
    · exact h
    · split
      · next hreq => exact length_enlarge_le ((List.length_take_le' _ _).trans h) (bsonNextPowerOfTwo_fits hreq)
      · exact h
  · split
    · exact h
    · split
      · next hreq => exact length_enlarge_le h (bsonNextPowerOfTwo_fits hreq)
      · exact h

theorem length_writeAt {buf buf' src : Bytes} {o : Nat} (h : writeAt buf o src = .ok buf') : buf'.length = buf.length := by
  unfold writeAt at h
  split at h
  · next hle =>
    cases h
    exact length_patch hle
  · cases h

theorem length_copyPairs {pairs : List Bytes} {buf buf' : Bytes} {o o' : Nat} (h : copyPairs buf o pairs = .ok (buf', o')) :
    buf'.length = buf.length := by
  induction pairs generalizing buf o with
  | nil => cases h; rfl
  | cons data pairs ih =>
    rw [copyPairs] at h
    cases hwrite : writeAt buf o data with
    | error e => rw [hwrite] at h; cases h
    | ok buf₁ =>
      rw [hwrite] at h
      exact (ih h).trans (length_writeAt hwrite)

theorem bsonAppendPairs_limit {n : Nat} {first : Bytes} {rest : List Bytes} {r : Bool × BsonWriter}
    (hlen : w.buf.length ≤ 2 ^ 30) (h : bsonAppendPairs junk w n first rest = .ok r) : r.2.buf.length ≤ 2 ^ 30 := by
  unfold bsonAppendPairs at h
  split at h
  · cases h
  · split at h
    · cases h
      exact hlen
    · have hgrow : (bsonGrow junk w (n % 2 ^ 32)).2.buf.length ≤ 2 ^ 30 := bsonGrow_limit hlen
      unfold bsonAppendVa at h
      simp only [bind, Except.bind] at h
      split at h
      · split at h
        · cases h
        · next hcopy =>
          split at h
          · cases h
          · next hheader =>
            split at h
            · cases h
            · next hnul =>
              cases h
              show List.length _ ≤ _
              rw [length_writeAt hnul, length_writeAt hheader, length_copyPairs hcopy]
              exact hgrow
      · cases h
        exact hgrow

/-- No call makes the buffer larger than 1 GiB. -/
theorem BsonCall.run_limit {call : BsonCall} {r : Bool × BsonWriter} (hlen : w.buf.length ≤ 2 ^ 30)
    (h : call.run junk w = .ok r) : r.2.buf.length ≤ 2 ^ 30 := by
  cases call with
  | appendArg key arg =>
    rw [BsonCall.run, bsonAppendArg] at h
    exact bsonAppendPairs_limit hlen h
  | beginChild key type =>
    have hmoved : (bsonMoveOut junk w).2.buf.length ≤ 2 ^ 30 := by
      unfold bsonMoveOut
      split
      · exact bsonGrow_limit hlen
      · exact hlen
    rw [BsonCall.run, bsonAppendBsonBegin] at h
    simp only [bind, Except.bind] at h
    split at h
    · cases h
    · split at h
      · cases h
      · split at h
        · cases h
          exact hmoved
        · split at h
          · cases h
          · split at h
            · cases h
            · next happend =>
              have := bsonAppendPairs_limit hmoved happend
              split at h
              · cases h
                exact this
              · cases h
                exact this
  | endChild =>
    rw [BsonCall.run, bsonAppendBsonEnd] at h
    split at h
    · cases h
    · simp only [bind, Except.bind] at h
      split at h
      · cases h
      · next hnul =>
        split at h
        · cases h
        · next hheader =>
          cases h
          show List.length _ ≤ _
          rw [length_writeAt hheader, length_writeAt hnul]
          exact hlen

theorem bsonRun_limit {calls : List BsonCall} {oks : List Bool} {w' : BsonWriter} (hlen : w.buf.length ≤ 2 ^ 30)
    (h : bsonRun junk w calls = .ok (oks, w')) : w'.buf.length ≤ 2 ^ 30 := by
  induction calls generalizing w oks with
  | nil =>
    cases h
    exact hlen
  | cons call calls ih =>
    obtain ⟨ok, w₁, oks', hcall, hrest, -⟩ := bsonRun_cons_eq_ok.mp h
    exact ih (BsonCall.run_limit hlen hcall) hrest

/-! ## Contents -/

/-- What a document is to contain, one field after the other. -/
inductive Contents where
  | nil
  | value (key : Bytes) (arg : BsonArg) (rest : Contents)
  | child (key : Bytes) (type : BsonType) (contents rest : Contents)

namespace Contents

def calls : Contents → List BsonCall
  | nil => []
  | value key arg rest => .appendArg key arg :: rest.calls
  | child key type contents rest => .beginChild key type :: (contents.calls ++ .endChild :: rest.calls)

def fields : Contents → List Field
  | nil => []
  | value key arg rest => arg.field key :: rest.fields
  | child key type contents rest => ⟨type, key, documentBytes contents.fields⟩ :: rest.fields

def Valid : Contents → Prop
  | nil => True
  | value key arg rest => (BsonCall.appendArg key arg).Valid ∧ rest.Valid
  | child key type contents rest => (BsonCall.beginChild key type).Valid ∧ contents.Valid ∧ rest.Valid

theorem valid_calls {c : Contents} (h : c.Valid) : ∀ call ∈ c.calls, call.Valid := by
  induction c with
  | nil => simp [calls]
  | value key arg rest ih =>
    intro call hcall
    rcases List.mem_cons.mp hcall with rfl | hcall
    · exact h.1
    · exact ih h.2 call hcall
  | child key type contents rest ihc ihr =>
    intro call hcall
    rcases List.mem_cons.mp hcall with rfl | hcall
    · exact h.1
    · rcases List.mem_append.mp hcall with hcall | hcall
      · exact ihc h.2.1 call hcall
      · rcases List.mem_cons.mp hcall with rfl | hcall
        · trivial
        · exact ihr h.2.2 call hcall

/-- Where every call returns true, the calls add the fields. -/
theorem run_calls (c : Contents) (d : Draft) (calls : List BsonCall) (oks : List Bool) :
    d.run (c.calls ++ calls) (List.replicate c.calls.length true ++ oks) =
      Draft.run ⟨d.outer, d.fields ++ c.fields⟩ calls oks := by
  induction c generalizing d calls oks with
  | nil => simp [Contents.calls, fields]
  | value key arg rest ih =>
    have hrest := ih (d.step (.appendArg key arg) true) calls oks
    rw [Contents.calls, List.length_cons, List.replicate_succ, List.cons_append, List.cons_append, Draft.run, hrest]
    simp [Draft.step, fields]
  | child key type contents rest ihc ihr =>
    have hsplit : List.replicate (contents.calls ++ .endChild :: rest.calls).length true ++ oks =
        List.replicate contents.calls.length true ++ (true :: (List.replicate rest.calls.length true ++ oks)) := by
      rw [List.length_append, List.length_cons, List.replicate_add, List.replicate_succ]
      simp
    rw [Contents.calls, List.length_cons, List.replicate_succ, List.cons_append, List.cons_append, Draft.run, hsplit,
      List.append_assoc, ihc, List.cons_append, Draft.run, Draft.step_endChild rfl, ihr]
    simp [Draft.step, fields]

end Contents

theorem bsonRun_append {calls more : List BsonCall} {oks oks' : List Bool} {w w₁ w' : BsonWriter}
    (h : bsonRun junk w calls = .ok (oks, w₁)) (hmore : bsonRun junk w₁ more = .ok (oks', w')) :
    bsonRun junk w (calls ++ more) = .ok (oks ++ oks', w') := by
  induction calls generalizing w oks with
  | nil =>
    cases h
    exact hmore
  | cons call calls ih =>
    obtain ⟨ok, w₂, oks₂, hcall, hrest, rfl⟩ := bsonRun_cons_eq_ok.mp h
    exact bsonRun_cons_eq_ok.mpr ⟨ok, w₂, _, hcall, ih hrest, rfl⟩

variable (junk) in
/-- Where 1 GiB suffices every call returns true. -/
theorem Contents.run_spec {c : Contents} (h : Shows w d) (hv : c.Valid)
    (hsize : w.used + (c.fields.flatMap Field.bytes).length ≤ 2 ^ 30) :
    ∃ w', bsonRun junk w c.calls = .ok (List.replicate c.calls.length true, w') ∧
      Shows w' ⟨d.outer, d.fields ++ c.fields⟩ ∧ w'.used = w.used + (c.fields.flatMap Field.bytes).length := by
  induction c generalizing w d with
  | nil => exact ⟨w, rfl, by simpa [Contents.fields] using h, rfl⟩
  | value key arg rest ih =>
    rw [Contents.fields, List.flatMap_cons, List.length_append] at hsize ⊢
    have hcall : (BsonCall.appendArg key arg).size = (arg.field key).bytes.length := rfl
    rcases h.step junk hv.1 with ⟨hend, -⟩ | ⟨ok, w₁, hrun, hw₁, hused, hfits⟩
    · cases hend
    · obtain rfl : ok = true := hfits (by omega)
      have hsize₁ := hused rfl
      obtain ⟨w', hrest, hw', hused'⟩ := ih hw₁ hv.2 (by omega)
      refine ⟨w', bsonRun_cons_eq_ok.mpr ⟨true, w₁, _, hrun, hrest, rfl⟩, ?_, by omega⟩
      simpa [Draft.step] using hw'
  | child key type contents rest ihc ihr =>
    have hbytes : (⟨type, key, documentBytes contents.fields⟩ : Field).bytes.length =
        key.length + 7 + (contents.fields.flatMap Field.bytes).length := by
      simp only [Field.bytes, List.length_cons, List.length_append, length_documentBytes]
      omega
    rw [Contents.fields, List.flatMap_cons, List.length_append, hbytes] at hsize ⊢
    have hcall : (BsonCall.beginChild key type).size = key.length + 7 := rfl
    have hend : BsonCall.endChild.size = 0 := rfl
    rcases h.step junk hv.1 with ⟨h, -⟩ | ⟨ok, w₁, hrun, hw₁, hused, hfits⟩
    · cases h
    · obtain rfl : ok = true := hfits (by omega)
      have hsize₁ := hused rfl
      obtain ⟨w₂, hinner, hw₂, hused₂⟩ := ihc hw₁ hv.2.1 (by omega)
      rcases hw₂.step junk (show BsonCall.endChild.Valid from trivial) with
        ⟨-, houter, -⟩ | ⟨ok, w₃, hrun₃, hw₃, hused₃, hfits₃⟩
      · cases houter
      · obtain rfl : ok = true := hfits₃ (by omega)
        have hsize₃ := hused₃ rfl
        rw [Draft.step_endChild rfl] at hw₃
        obtain ⟨w', hrest, hw', hused'⟩ := ihr hw₃ hv.2.2 (by omega)
        refine ⟨w', ?_, by simpa [Draft.step] using hw', by omega⟩
        refine bsonRun_cons_eq_ok.mpr ⟨true, w₁, _, hrun,
          bsonRun_append hinner (bsonRun_cons_eq_ok.mpr ⟨true, w₃, _, hrun₃, hrest, rfl⟩), ?_⟩
        rw [Contents.calls, List.length_cons, List.replicate_succ, List.length_append, List.length_cons, List.replicate_add,
          List.replicate_succ]

/-- `bson_init` and the calls that write some contents: all of them succeed if and only if the document has at most
1 GiB, and it is the document of these contents. -/
theorem bsonRun_contents (junk : Nat → UInt8) {c : Contents} (hv : c.Valid) :
    (∃ w', bsonRun junk (bsonInit junk) c.calls = .ok (List.replicate c.calls.length true, w') ∧
        bsonGetData w' = documentBytes c.fields) ↔
      (documentBytes c.fields).length ≤ 2 ^ 30 := by
  have hfresh : Fresh junk (bsonInit junk) := Or.inl rfl
  constructor
  · rintro ⟨w', hrun, -⟩
    have hw := hfresh.shows.run (Contents.valid_calls hv) hrun
    have hdraft := c.run_calls ⟨[], []⟩ [] []
    rw [List.append_nil, List.append_nil] at hdraft
    rw [hdraft] at hw
    obtain ⟨frames, hholds, -⟩ := hw.holds
    obtain ⟨slack, hbuf, -⟩ := hholds.buf
    have hlimit := bsonRun_limit (by rw [bsonInit, length_enlarge junk (by simp)]; decide) hrun
    rw [hbuf] at hlimit
    simp only [List.length_append, Draft.run, List.nil_append] at hlimit
    omega
  · intro hsize
    rw [length_documentBytes] at hsize
    have hused : (bsonInit junk).used = 5 := rfl
    obtain ⟨w', hrun, hw', -⟩ := Contents.run_spec junk hfresh.shows hv (by omega)
    exact ⟨w', hrun, hw'.bsonGetData_eq rfl⟩

/-- `{"a": 1, "b": {"c": null}}`. -/
def nestedContents : Contents := .value [0x61] (.int32 1) (.child [0x62] .document (.value [0x63] .null .nil) .nil)

theorem nestedContents_valid : nestedContents.Valid := by
  refine ⟨⟨by decide, by simp [BsonArg.Valid], by decide⟩, ⟨by decide, by decide, Or.inl rfl⟩, ?_, trivial⟩
  exact ⟨⟨by decide, trivial, by decide⟩, trivial⟩

theorem bsonRun_nestedContents :
    ∃ w, bsonRun (fun _ => 0) (bsonInit fun _ => 0) nestedContents.calls = .ok ([true, true, true, true], w) ∧
      bsonGetData w = [23, 0, 0, 0, 0x10, 0x61, 0, 1, 0, 0, 0, 3, 0x62, 0, 8, 0, 0, 0, 10, 0x63, 0, 0, 0] :=
  (bsonRun_contents (fun _ => 0) nestedContents_valid).mpr (by decide)

/-- The calls for it, into a buffer of 200 bytes. -/
theorem bsonRun_nestedCalls :
    ∃ w, bsonRun (fun _ => 0) (bsonSizedNew (fun _ => 0) 200) nestedContents.calls = .ok ([true, true, true, true], w) ∧
      bsonGetData w = [23, 0, 0, 0, 0x10, 0x61, 0, 1, 0, 0, 0, 3, 0x62, 0, 8, 0, 0, 0, 10, 0x63, 0, 0, 0] := by
  have hfresh : Fresh (fun _ => 0) (bsonSizedNew (fun _ => 0) 200) := Or.inr ⟨200, by decide, rfl⟩
  have hvalid := Contents.valid_calls nestedContents_valid
  obtain ⟨w₁, hrun₁, -⟩ := Contents.run_spec (fun _ => 0) hfresh.shows nestedContents_valid (by decide)
  obtain ⟨oks, w, hrun, -, hdata⟩ := bsonRun_fresh hfresh hvalid (.of_run hfresh.shows hvalid hrun₁)
  obtain ⟨rfl, rfl⟩ := Prod.mk.inj (Except.ok.inj (hrun.symm.trans hrun₁))
  exact ⟨w, hrun, hdata rfl⟩

end Monary
