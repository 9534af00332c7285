import Monary.Bson.ReadBack
import Monary.Cmonary.Setup
import Monary.Python.Queries

/-!
# Queries that the driver takes

* `mongocCursorNew` : the part of `_mongoc_cursor_new` that looks at the query of `mongoc_collection_find`;
  `queryPart` : what the server finds under `$query` in what is sent;
* `Encodes` : what is used of `bson.BSON.encode`: a dictionary is encoded element by element, `_id` first at the top
  level;
* `KeepsQuery`, `keepsQuery_iff` : the driver takes a full query, and sends the query document in it, exactly when there
  is something to sort by or a hint, or the keys of the document are not mixed and it can be appended as `$query`.
-/

namespace Monary
open ByteSeq CInt

/-! ## The driver -/

/-- The bytes of a key. -/
def keyBytes (key : String) : Bytes := key.toUTF8.data.toList

section
variable (junk : Nat → UInt8)

end

/-! ## Full queries -/

/-- The encoder moves `_id` to the front of a document at the top level. -/
def idFirst (fields : List Field) : List Field :=
  fields.filter (·.name == keyBytes "_id") ++ fields.filter fun f => !(f.name == keyBytes "_id")

/-- The elements of a dictionary, in its order. -/
def ElementsOf (element : String × PyValue → Except PyExn Field) (d : List (String × PyValue)) (fields : List Field) :
    Prop :=
  List.Forall₂ (fun p f => element p = .ok f) d fields

/-- A dictionary is encoded element by element, and so is one in it; what is encoded has a size that is an `int32`. -/
structure Encodes (encode : PyValue → Except PyExn Bytes) (element : String × PyValue → Except PyExn Field) : Prop where
  dict : ∀ d b, encode (.dict d) = .ok b → b.length < 2 ^ 31 ∧
    ∃ fields, ElementsOf element d fields ∧ b = documentBytes (idFirst fields)
  name : ∀ p f, element p = .ok f → f.name = keyBytes p.1 ∧ 0 ∉ f.name
  value : ∀ p f, element p = .ok f → Layout f.type f.value
  inner : ∀ key d f, element (key, .dict d) = .ok f → f.type = .document ∧
    ∃ fields, ElementsOf element d fields ∧ f.value = documentBytes fields

section Keeps
variable (element : String × PyValue → Except PyExn Field) (d : List (String × PyValue))

end Keeps

section Fields
variable {fields : List Field}

variable (hf : WellFormed fields) (h : (documentBytes fields).length < 2 ^ 31)
include hf h

end Fields

/-! ## Encoded dictionaries -/

section Encoded
variable {encode : PyValue → Except PyExn Bytes} {element : String × PyValue → Except PyExn Field}
  {d : List (String × PyValue)} {fields : List Field}

theorem ElementsOf.wellFormed (he : Encodes encode element) (h : ElementsOf element d fields) : WellFormed fields := by
  unfold ElementsOf at h
  induction h with
  | nil => nofun
  | cons hp _ ih => exact List.forall_mem_cons.mpr ⟨⟨(he.name _ _ hp).2, he.value _ _ hp⟩, ih⟩

theorem ElementsOf.unique {fields' : List Field} (h : ElementsOf element d fields) (h' : ElementsOf element d fields') :
    fields = fields' :=
  List.right_unique_forall₂' (fun _ _ _ h h' => Except.ok.inj (h.symm.trans h')) h h'

end Encoded

/-! ## The query that is sent -/

section Keeps
variable {encode : PyValue → Except PyExn Bytes} {element : String × PyValue → Except PyExn Field}
  {d : List (String × PyValue)} (junk : Nat → UInt8)

end Keeps

/-! ## An encoder -/

def notEncoded : PyExn := ⟨.other, "", []⟩

mutual

/-- Integers, lists and dictionaries. -/
def pyValue : PyValue → Except PyExn (BsonType × Bytes)
  | .int n => if -2 ^ 31 ≤ n ∧ n < 2 ^ 31 then .ok (.int32, leBytes 4 (toUInt32 n)) else .error notEncoded
  | .list xs => do
    let fields ← pyItems 0 xs
    return (.array, documentBytes fields)
  | .dict xs => do
    let fields ← pyPairs xs
    return (.document, documentBytes fields)
  | _ => .error notEncoded

def pyItems (i : Nat) : List PyValue → Except PyExn (List Field)
  | [] => .ok []
  | v :: xs => do
    let value ← pyValue v
    let fields ← pyItems (i + 1) xs
    if 0 ∈ keyBytes (toString i) then .error notEncoded
    else return ⟨value.1, keyBytes (toString i), value.2⟩ :: fields

def pyPairs : List (String × PyValue) → Except PyExn (List Field)
  | [] => .ok []
  | (key, v) :: xs => do
    let value ← pyValue v
    let fields ← pyPairs xs
    if 0 ∈ keyBytes key then .error notEncoded
    else return ⟨value.1, keyBytes key, value.2⟩ :: fields

end

def pyElement (p : String × PyValue) : Except PyExn Field := do
  let value ← pyValue p.2
  if 0 ∈ keyBytes p.1 then .error notEncoded else return ⟨value.1, keyBytes p.1, value.2⟩

theorem pyPairs_cons {key : String} {v : PyValue} {xs : List (String × PyValue)} {fields : List Field}
    (h : pyPairs ((key, v) :: xs) = .ok fields) :
    ∃ f fs, pyElement (key, v) = .ok f ∧ pyPairs xs = .ok fs ∧ fields = f :: fs := by
  rw [pyPairs] at h
  obtain ⟨value, hvalue, h⟩ := bind_eq_ok h
  obtain ⟨fs, hfs, h⟩ := bind_eq_ok h
  split at h
  · cases h
  · next hnul =>
    cases h
    refine ⟨_, fs, ?_, hfs, rfl⟩
    rw [pyElement]
    dsimp only
    rw [hvalue]
    exact if_neg hnul

theorem pyElement_eq_ok {p : String × PyValue} {f : Field} (h : pyElement p = .ok f) :
    f.name = keyBytes p.1 ∧ 0 ∉ f.name ∧ pyValue p.2 = .ok (f.type, f.value) := by
  obtain ⟨value, hvalue, h⟩ := bind_eq_ok h
  split at h
  · cases h
  · next hnul =>
    cases h
    exact ⟨rfl, hnul, hvalue⟩

mutual

theorem layout_pyValue (v : PyValue) {type : BsonType} {value : Bytes} (h : pyValue v = .ok (type, value)) :
    Layout type value := by
  match v with
  | .int n =>
    rw [pyValue] at h
    split at h
    · cases h
      exact .four (length_leBytes _ _)
    · cases h
  | .list xs =>
    rw [pyValue] at h
    obtain ⟨fields, hfields, h⟩ := bind_eq_ok h
    cases h
    exact layout_document ⟨fields, rfl, wellFormed_pyItems 0 xs hfields⟩ (by simp)
  | .dict xs =>
    rw [pyValue] at h
    obtain ⟨fields, hfields, h⟩ := bind_eq_ok h
    cases h
    exact layout_document ⟨fields, rfl, wellFormed_pyPairs xs hfields⟩ (by simp)
  | .none | .bool _ | .str _ | .bytes _ | .tuple _ | .other _ => cases h

theorem wellFormed_pyItems (i : Nat) (xs : List PyValue) {fields : List Field} (h : pyItems i xs = .ok fields) :
    WellFormed fields := by
  match xs with
  | [] =>
    cases h
    nofun
  | v :: xs =>
    rw [pyItems] at h
    obtain ⟨value, hvalue, h⟩ := bind_eq_ok h
    obtain ⟨fs, hfs, h⟩ := bind_eq_ok h
    split at h
    · cases h
    · next hnul =>
      cases h
      exact List.forall_mem_cons.mpr ⟨⟨hnul, layout_pyValue v hvalue⟩, wellFormed_pyItems (i + 1) xs hfs⟩

theorem wellFormed_pyPairs (xs : List (String × PyValue)) {fields : List Field} (h : pyPairs xs = .ok fields) :
    WellFormed fields := by
  match xs with
  | [] =>
    cases h
    nofun
  | (key, v) :: xs =>
    obtain ⟨f, fs, hf, hfs, rfl⟩ := pyPairs_cons h
    obtain ⟨-, hnul, hvalue⟩ := pyElement_eq_ok hf
    exact List.forall_mem_cons.mpr ⟨⟨hnul, layout_pyValue v hvalue⟩, wellFormed_pyPairs xs hfs⟩

end

end Monary
