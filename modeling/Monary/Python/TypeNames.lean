import Monary.Python.Values

/-!
# Type names

* `monaryTypes` : the table `MONARY_TYPES`;
* `getMonaryNumpyType` : `get_monary_numpy_type`;
* `NumpyType.itemSize` : the item size numpy gives a type code, if it takes it;
* `itemSize_getMonaryNumpyType` : where both succeed, the item size is the width the loaders of
  `cmonary.c` are built for;
* `UsableLayout`, `usableLayout_iff` : the arguments of sized names that get through unfit for both sides.
-/

namespace Monary
open CInt

/-- A numpy type object, or one of the codes `S<n>` and `<V<n>`. -/
inductive NumpyType where
  | bool | int8 | int16 | int32 | int64 | uint8 | uint16 | uint32 | uint64 | float32 | float64
  | string (n : Int)
  | void (n : Int)
  deriving DecidableEq, Repr

/-- The bytes of an item. A code has a positive size, which numpy keeps in an `int`. -/
def NumpyType.itemSize : NumpyType → Option Nat
  | bool | int8 | uint8 => some 1
  | int16 | uint16 => some 2
  | int32 | uint32 | float32 => some 4
  | int64 | uint64 | float64 => some 8
  | string n | void n => if 1 ≤ n ∧ n < 2 ^ 31 then some n.toNat else none

/-- `MONARY_TYPES`: the type of a common name, whose code is the cmonary type code, and the numpy type, for
a given type argument. -/
def monaryTypes : List (String × MonaryType × (Int → NumpyType)) :=
  [("id", .objectid, fun _ => .void 12),
   ("bool", .bool, fun _ => .bool),
   ("int8", .int8, fun _ => .int8),
   ("int16", .int16, fun _ => .int16),
   ("int32", .int32, fun _ => .int32),
   ("int64", .int64, fun _ => .int64),
   ("uint8", .uint8, fun _ => .uint8),
   ("uint16", .uint16, fun _ => .uint16),
   ("uint32", .uint32, fun _ => .uint32),
   ("uint64", .uint64, fun _ => .uint64),
   ("float32", .float32, fun _ => .float32),
   ("float64", .float64, fun _ => .float64),
   ("date", .date, fun _ => .int64),
   ("timestamp", .timestamp, fun _ => .uint64),
   ("string", .string, .string),
   ("binary", .binary, .void),
   ("bson", .bson, .void),
   ("type", .type, fun _ => .uint8),
   ("size", .size, fun _ => .uint32),
   ("length", .length, fun _ => .uint32)]

/-- The first part of `get_monary_numpy_type`: the name and the argument of the type. -/
def typeNameArg [PyImpl] (origTypename : String) : Except PyExn (String × Int) :=
  match origTypename.toList.splitOn ':' with
  | [typeName] => .ok (String.ofList typeName, 0)
  | [typeName, arg] =>
    match pyInt arg with
    | some typeArg => .ok (String.ofList typeName, typeArg)
    | none => .error ⟨.valueError, "unable to parse type argument in: %r", [.str origTypename]⟩
  | _ => .error ⟨.valueError, "too many parts in type: %r", [.str origTypename]⟩

/-- `get_monary_numpy_type`: the type (for its code), the type argument and the numpy type. -/
def getMonaryNumpyType [PyImpl] (origTypename : String) : Except PyExn (MonaryType × Int × NumpyType) := do
  let (typeName, typeArg) ← typeNameArg origTypename
  match monaryTypes.lookup typeName with
  | none => .error ⟨.valueError, "unknown typename: %r", [.str typeName]⟩
  | some (typeNum, numpyType) =>
    if typeName ∈ ["string", "binary", "bson"] then
      if typeArg = 0 then
        .error ⟨.valueError, "%r must have an explicit typearg with nonzero length (use 'string:20', for example)",
          [.str typeName]⟩
      else .ok (typeNum, typeArg, numpyType typeArg)
    else .ok (typeNum, typeArg, numpyType typeArg)

/-- The entries of the table have the width of their loaders. -/
theorem itemSize_monaryTypes {name : String} {t : MonaryType} {f : Int → NumpyType}
    (h : (name, t, f) ∈ monaryTypes) :
    (t.sized = true ↔ name ∈ ["string", "binary", "bson"]) ∧
      ∀ n k, (f n).itemSize = some k → k = t.itemSize (toUInt32 n) ∧ (t.sized = true → 0 < toUInt32 n) := by
  have hsized {n : Int} {k : Nat} (hk : (if 1 ≤ n ∧ n < 2 ^ 31 then some n.toNat else none) = some k) :
      k = toUInt32 n ∧ 0 < toUInt32 n := by
    rw [Option.ite_none_right_eq_some] at hk
    obtain ⟨hn, hk⟩ := hk
    have hk := Option.some.inj hk
    unfold toUInt32
    omega
  simp only [monaryTypes, List.mem_cons, List.not_mem_nil, or_false, Prod.mk.injEq] at h
  rcases h with ⟨rfl, rfl, rfl⟩ | ⟨rfl, rfl, rfl⟩ | ⟨rfl, rfl, rfl⟩ | ⟨rfl, rfl, rfl⟩ | ⟨rfl, rfl, rfl⟩ |
    ⟨rfl, rfl, rfl⟩ | ⟨rfl, rfl, rfl⟩ | ⟨rfl, rfl, rfl⟩ | ⟨rfl, rfl, rfl⟩ | ⟨rfl, rfl, rfl⟩ |
    ⟨rfl, rfl, rfl⟩ | ⟨rfl, rfl, rfl⟩ | ⟨rfl, rfl, rfl⟩ | ⟨rfl, rfl, rfl⟩ | ⟨rfl, rfl, rfl⟩ |
    ⟨rfl, rfl, rfl⟩ | ⟨rfl, rfl, rfl⟩ | ⟨rfl, rfl, rfl⟩ | ⟨rfl, rfl, rfl⟩ | ⟨rfl, rfl, rfl⟩ <;>
  refine ⟨by decide, fun n k hk => ?_⟩
  all_goals first
    | exact ⟨(hsized hk).1, fun _ => (hsized hk).2⟩
    | exact ⟨(Option.some.inj hk).symm, fun h => by cases h⟩

/-- What the parts of an accepted type name are. -/
theorem getMonaryNumpyType_eq_ok [PyImpl] {s : String} {t : MonaryType} {n : Int} {dt : NumpyType}
    (h : getMonaryNumpyType s = .ok (t, n, dt)) : ∃ name f, (name, t, f) ∈ monaryTypes ∧ dt = f n := by
  unfold getMonaryNumpyType at h
  obtain ⟨⟨name, arg⟩, -, h⟩ := bind_eq_ok h
  dsimp only at h
  rcases hl : monaryTypes.lookup name with _ | ⟨t', f⟩
  · rw [hl] at h
    cases h
  · rw [hl] at h
    dsimp only at h
    obtain ⟨l1, l2, hmem, -⟩ := List.lookup_eq_some_iff.mp hl
    have hmem : (name, t', f) ∈ monaryTypes := by
      rw [hmem]
      exact List.mem_append_right _ List.mem_cons_self
    refine ⟨name, f, ?_⟩
    split at h
    · split at h
      · cases h
      · cases h
        exact ⟨hmem, rfl⟩
    · cases h
      exact ⟨hmem, rfl⟩

/-- The item size of an accepted type is the width of its loader, and is positive. -/
theorem itemSize_getMonaryNumpyType [PyImpl] {s : String} {t : MonaryType} {n : Int} {dt : NumpyType} {k : Nat}
    (h : getMonaryNumpyType s = .ok (t, n, dt)) (hk : dt.itemSize = some k) :
    k = t.itemSize (toUInt32 n) ∧ (t.sized = true → 0 < toUInt32 n) := by
  obtain ⟨name, f, hmem, rfl⟩ := getMonaryNumpyType_eq_ok h
  exact (itemSize_monaryTypes hmem).2 n k hk

/-! ## Usable layouts -/

/-- The item size that a type has or a code spells; a code spells a positive one. -/
def NumpyType.denotes : NumpyType → Option Nat
  | string n | void n => if 1 ≤ n then some n.toNat else none
  | dt => dt.itemSize

/-- The name is refused with a `ValueError`, or its numpy type has the item size of its loader and its argument, where
the loader uses it, is an `unsigned int`. -/
def UsableLayout [PyImpl] (s : String) : Prop :=
  (∃ e, getMonaryNumpyType s = .error e ∧ e.kind = .valueError) ∨
    ∃ t n dt, getMonaryNumpyType s = .ok (t, n, dt) ∧ dt.denotes = some (t.itemSize (toUInt32 n)) ∧
      (t.sized = true → (toUInt32 n : Int) = n)

/-- The types of the table, with and without a width. -/
theorem denotes_monaryTypes {name : String} {t : MonaryType} {f : Int → NumpyType}
    (h : (name, t, f) ∈ monaryTypes) (n : Int) :
    (f n).denotes = if t.sized = true then (if 1 ≤ n then some n.toNat else none) else some (t.itemSize 0) := by
  simp only [monaryTypes, List.mem_cons, List.not_mem_nil, or_false, Prod.mk.injEq] at h
  rcases h with ⟨rfl, rfl, rfl⟩ | ⟨rfl, rfl, rfl⟩ | ⟨rfl, rfl, rfl⟩ | ⟨rfl, rfl, rfl⟩ | ⟨rfl, rfl, rfl⟩ |
    ⟨rfl, rfl, rfl⟩ | ⟨rfl, rfl, rfl⟩ | ⟨rfl, rfl, rfl⟩ | ⟨rfl, rfl, rfl⟩ | ⟨rfl, rfl, rfl⟩ |
    ⟨rfl, rfl, rfl⟩ | ⟨rfl, rfl, rfl⟩ | ⟨rfl, rfl, rfl⟩ | ⟨rfl, rfl, rfl⟩ | ⟨rfl, rfl, rfl⟩ |
    ⟨rfl, rfl, rfl⟩ | ⟨rfl, rfl, rfl⟩ | ⟨rfl, rfl, rfl⟩ | ⟨rfl, rfl, rfl⟩ | ⟨rfl, rfl, rfl⟩ <;> rfl

theorem typeNameArg_error [PyImpl] {s : String} {e : PyExn} (h : typeNameArg s = .error e) :
    e.kind = .valueError := by
  unfold typeNameArg at h
  split at h
  · cases h
  · split at h
    · cases h
    · cases h
      rfl
  · cases h
    rfl

/-- The argument of a name that has none is 0. -/
theorem typeNameArg_ok [PyImpl] {s name : String} {n : Int} (h : typeNameArg s = .ok (name, n)) :
    n = 0 ∨ ∃ typeName arg, s.toList.splitOn ':' = [typeName, arg] ∧ String.ofList typeName = name ∧
      pyInt arg = some n := by
  unfold typeNameArg at h
  split at h
  · cases h
    exact Or.inl rfl
  · next typeName arg hsplit =>
    split at h
    · next k hk =>
      cases h
      exact Or.inr ⟨typeName, arg, hsplit, rfl, hk⟩
    · cases h
  · cases h

/-- What becomes of a name and its argument. -/
theorem getMonaryNumpyType_of_nameArg [PyImpl] {s name : String} {n : Int} (h : typeNameArg s = .ok (name, n)) :
    (∃ e, getMonaryNumpyType s = .error e ∧ e.kind = .valueError ∧
      (name ∈ ["string", "binary", "bson"] → n = 0)) ∨
    ∃ t f, (name, t, f) ∈ monaryTypes ∧ getMonaryNumpyType s = .ok (t, n, f n) ∧
      (name ∈ ["string", "binary", "bson"] → n ≠ 0) := by
  have hget : getMonaryNumpyType s =
      match monaryTypes.lookup name with
      | none => .error ⟨.valueError, "unknown typename: %r", [.str name]⟩
      | some (t, f) =>
        if name ∈ ["string", "binary", "bson"] then
          if n = 0 then
            .error ⟨.valueError, "%r must have an explicit typearg with nonzero length (use 'string:20', for example)",
              [.str name]⟩
          else .ok (t, n, f n)
        else .ok (t, n, f n) := by
    unfold getMonaryNumpyType
    rw [h]
    rfl
  rw [hget]
  rcases hl : monaryTypes.lookup name with _ | ⟨t, f⟩
  · refine Or.inl ⟨_, rfl, rfl, ?_⟩
    intro hname
    simp only [List.mem_cons, List.not_mem_nil, or_false] at hname
    rcases hname with rfl | rfl | rfl <;> exact absurd hl (by decide)
  · obtain ⟨l1, l2, hmem, -⟩ := List.lookup_eq_some_iff.mp hl
    have hmem : (name, t, f) ∈ monaryTypes := by
      rw [hmem]
      exact List.mem_append_right _ List.mem_cons_self
    dsimp only
    by_cases hname : name ∈ ["string", "binary", "bson"]
    · rw [if_pos hname]
      by_cases hn : n = 0
      · rw [if_pos hn]
        exact Or.inl ⟨_, rfl, rfl, fun _ => hn⟩
      · rw [if_neg hn]
        exact Or.inr ⟨t, f, hmem, rfl, fun _ => hn⟩
    · rw [if_neg hname]
      exact Or.inr ⟨t, f, hmem, rfl, fun h => absurd h hname⟩

/-- The sized names are those of the sized types. -/
theorem sized_monaryTypes {name : String} {t : MonaryType} {f : Int → NumpyType} (h : (name, t, f) ∈ monaryTypes) :
    t.sized = true ↔ name ∈ ["string", "binary", "bson"] := (itemSize_monaryTypes h).1

/-- A type of the table has a usable layout when its argument, where it counts, is a positive `unsigned int`. -/
theorem layout_monaryTypes {name : String} {t : MonaryType} {f : Int → NumpyType} (h : (name, t, f) ∈ monaryTypes)
    {n : Int} (hn : t.sized = true → 1 ≤ n ∧ n < 2 ^ 32) :
    (f n).denotes = some (t.itemSize (toUInt32 n)) ∧ (t.sized = true → (toUInt32 n : Int) = n) := by
  have hto (h : 1 ≤ n ∧ n < 2 ^ 32) : (toUInt32 n : Int) = n := by
    unfold toUInt32
    omega
  refine ⟨?_, fun hs => hto (hn hs)⟩
  rw [denotes_monaryTypes h]
  by_cases hs : t.sized = true
  · rw [if_pos hs, if_pos (hn hs).1, MonaryType.itemSize_of_sized hs]
    have := hto (hn hs)
    congr 1
    omega
  · rw [if_neg hs]
    cases t <;> first | rfl | exact absurd rfl hs

/-- A type name has a usable layout exactly when the argument of a sized one is an `unsigned int`. -/
theorem usableLayout_iff [PyImpl] (s : String) :
    UsableLayout s ↔ ∀ name arg n, s.toList.splitOn ':' = [name, arg] →
      String.ofList name ∈ ["string", "binary", "bson"] → pyInt arg = some n → 0 ≤ n ∧ n < 2 ^ 32 := by
  constructor
  · intro h name arg n hsplit hsized harg
    have hname : typeNameArg s = .ok (String.ofList name, n) := by
      unfold typeNameArg
      rw [hsplit]
      dsimp only
      rw [harg]
    rcases getMonaryNumpyType_of_nameArg hname with ⟨-, -, -, h0⟩ | ⟨t, f, hmem, hget, -⟩
    · rw [h0 hsized]
      decide
    · rcases h with ⟨e, he, -⟩ | ⟨t', n', dt, hok, -, hfits⟩
      · rw [hget] at he
        cases he
      · rw [hget] at hok
        cases hok
        have hto := hfits ((sized_monaryTypes hmem).mpr hsized)
        have := toUInt32_lt n
        omega
  · intro h
    rcases hname : typeNameArg s with e | ⟨name, n⟩
    · refine Or.inl ⟨e, ?_, typeNameArg_error hname⟩
      unfold getMonaryNumpyType
      rw [hname]
      rfl
    · rcases getMonaryNumpyType_of_nameArg hname with ⟨e, he, hkind, -⟩ | ⟨t, f, hmem, hget, h0⟩
      · exact Or.inl ⟨e, he, hkind⟩
      · right
        have hn : t.sized = true → 1 ≤ n ∧ n < 2 ^ 32 := by
          intro hs
          have hsized := (sized_monaryTypes hmem).mp hs
          rcases typeNameArg_ok hname with hz | ⟨typeName, arg, hsplit, rfl, harg⟩
          · exact absurd hz (h0 hsized)
          · have := h typeName arg n hsplit hsized harg
            have := h0 hsized
            omega
        obtain ⟨hdenotes, hfits⟩ := layout_monaryTypes hmem hn
        exact ⟨t, n, f n, hget, hdenotes, hfits⟩

/-- `string:-5` is taken, and denotes no numpy type. -/
theorem not_forall_usableLayout : ¬ ∀ s : String, @UsableLayout PyImpl.ascii s := by
  intro h
  let _ := PyImpl.ascii
  have hget : getMonaryNumpyType "string:-5" = .ok (.string, -5, .string (-5)) := by decide
  rcases h "string:-5" with ⟨e, he, -⟩ | ⟨t, n, dt, hok, hdenotes, -⟩
  · rw [hget] at he
    cases he
  · rw [hget] at hok
    cases hok
    exact absurd hdenotes (by decide)

end Monary
