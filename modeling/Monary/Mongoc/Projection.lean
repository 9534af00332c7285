import Monary.Bson.Moved

/-!
# The projection of the server

* `Projected` : what an inclusion projection makes of the elements of a document, for a list of paths: the fields
  that are named are kept as they are, the rest of a path is applied to the document it leads into, and to the
  documents in an array, whose other items are dropped;
* `Direct` : a path that enters no array by one of its keys, on its way to a field that is kept as it is;
* `findPath_projected` : along such a path the search comes to the same value as in the whole document.
-/

namespace Monary
open ByteSeq

/-- The names of the elements. -/
def keys (es : List BsonIter) : List Bytes := es.map bsonIterKey

/-- The rests of the paths that begin with the name. -/
def pathsBelow (paths : List (List Bytes)) (key : Bytes) : List (List Bytes) :=
  paths.filterMap fun path => if path.head? = some key then some path.tail else none

/-- The key of an item of an array. -/
def indexKey (i : Nat) : Bytes := (Nat.toDigits 10 i).map fun c => c.toNat.toUInt8

/-- What elements are the content of. -/
inductive Content where
  | document
  | array
  deriving DecidableEq

def Content.type : Content → BsonType
  | document => .document
  | array => .array

/-- Elements of one name that have a content; the items of an array are numbered. -/
structure Entered (content : Content) (e e' child child' : BsonIter) : Prop where
  key_eq : bsonIterKey e' = bsonIterKey e
  type_eq : e.bsonType = some content.type
  type_eq' : e'.bsonType = some content.type
  child_eq : bsonIterRecurse e = some child
  child_eq' : bsonIterRecurse e' = some child'
  indexed : content = .array → keys (bsonIterElements child) = (List.range (bsonIterElements child).length).map indexKey
  indexed' : content = .array →
    keys (bsonIterElements child') = (List.range (bsonIterElements child').length).map indexKey

/-- What the server makes of the elements of a document or of the items of an array. -/
inductive Projected : Content → List (List Bytes) → List BsonIter → List BsonIter → Prop where
  | nil (content : Content) (paths : List (List Bytes)) : Projected content paths [] []
  | keep {paths es es' e e'} (named : [bsonIterKey e] ∈ paths) (key : bsonIterKey e' = bsonIterKey e)
      (value : SameValue e e') (rest : Projected .document paths es es') :
      Projected .document paths (e :: es) (e' :: es')
  | enter {paths es es' e e' content child child'} (named : [bsonIterKey e] ∉ paths)
      (below : pathsBelow paths (bsonIterKey e) ≠ []) (entered : Entered content e e' child child')
      (inner : Projected content (pathsBelow paths (bsonIterKey e)) (bsonIterElements child) (bsonIterElements child'))
      (rest : Projected .document paths es es') : Projected .document paths (e :: es) (e' :: es')
  | drop {paths es es' e} (named : [bsonIterKey e] ∉ paths)
      (below : pathsBelow paths (bsonIterKey e) = [] ∨ bsonIterRecurse e = none)
      (rest : Projected .document paths es es') : Projected .document paths (e :: es) es'
  | item {paths es es' e e' child child'} (type : e.bsonType = some .document) (type' : e'.bsonType = some .document)
      (child_eq : bsonIterRecurse e = some child) (child_eq' : bsonIterRecurse e' = some child')
      (inner : Projected .document paths (bsonIterElements child) (bsonIterElements child'))
      (rest : Projected .array paths es es') : Projected .array paths (e :: es) (e' :: es')
  | dropItem {paths es es' e} (type : e.bsonType ≠ some .document) (rest : Projected .array paths es es') :
      Projected .array paths (e :: es) es'

/-- Up to a field that is named, the path comes to no item of an array, and where a field has no content, no other
field of its name has. -/
def Direct : List (List Bytes) → List Bytes → BsonIter → Prop
  | _, [], _ => True
  | paths, key :: rest, it =>
    [key] ∈ paths ∨ ∀ e, bsonIterFindWithLen it key = some e →
      (bsonIterRecurse e = none → ∀ x ∈ bsonIterElements it, bsonIterKey x = key → bsonIterRecurse x = none) ∧
      ∀ child, bsonIterRecurse e = some child →
        (e.bsonType = some .document → Direct (pathsBelow paths key) rest child) ∧
        (e.bsonType = some .array → ∀ next ∈ rest.head?, next ∉ keys (bsonIterElements child))

/-! ## What is found among the elements -/

section Find
variable {paths : List (List Bytes)} {key : Bytes} {es es' : List BsonIter}

/-- The first element of the name. -/
def findKey (key : Bytes) (es : List BsonIter) : Option BsonIter := es.find? fun e => bsonIterKey e == key

theorem findKey_cons_self {e : BsonIter} (h : bsonIterKey e = key) : findKey key (e :: es) = some e := by
  unfold findKey
  exact List.find?_cons_of_pos (by simpa using h)

theorem findKey_cons_ne {e : BsonIter} (h : bsonIterKey e ≠ key) : findKey key (e :: es) = findKey key es := by
  unfold findKey
  exact List.find?_cons_of_neg (by simpa using h)

theorem findKey_eq_none : findKey key es = none ↔ key ∉ keys es := by
  unfold findKey keys
  simp

theorem bsonIterFindWithLen_eq {it : BsonIter} (hk : key ≠ []) :
    bsonIterFindWithLen it key = findKey key (bsonIterElements it) := by
  unfold bsonIterFindWithLen
  rw [if_neg hk]
  rfl

theorem mem_pathsBelow {rest : List Bytes} (h : key :: rest ∈ paths) : rest ∈ pathsBelow paths key :=
  List.mem_filterMap.mpr ⟨_, h, by simp⟩

/-- The projection adds no name. -/
theorem Projected.keys_sublist (h : Projected .document paths es es') : (keys es').Sublist (keys es) := by
  induction es generalizing es' with
  | nil =>
    cases h
    exact .slnil
  | cons e es ih =>
    cases h with
    | keep _ hkey _ rest =>
      unfold keys
      rw [List.map_cons, List.map_cons, hkey]
      exact (ih rest).cons_cons _
    | enter _ _ hentered _ rest =>
      unfold keys
      rw [List.map_cons, List.map_cons, hentered.key_eq]
      exact (ih rest).cons_cons _
    | drop _ _ rest => exact (ih rest).cons _

theorem Projected.length_le (h : Projected .array paths es es') : es'.length ≤ es.length := by
  induction es generalizing es' with
  | nil =>
    cases h
    exact le_refl _
  | cons e es ih =>
    cases h with
    | item _ _ _ _ _ rest => exact Nat.succ_le_succ (ih rest)
    | dropItem _ rest => exact (ih rest).trans (Nat.le_succ _)

/-- A field that is named is there with its value. -/
theorem Projected.find_keep (h : Projected .document paths es es') (hk : [key] ∈ paths) :
    Option.Rel SameValue (findKey key es) (findKey key es') := by
  induction es generalizing es' with
  | nil =>
    cases h
    exact .none
  | cons e es ih =>
    cases h with
    | keep _ hkey hvalue rest =>
      by_cases he : bsonIterKey e = key
      · rw [findKey_cons_self he, findKey_cons_self (hkey.trans he)]
        exact .some hvalue
      · rw [findKey_cons_ne he, findKey_cons_ne (by rwa [hkey])]
        exact ih rest
    | enter hnamed _ hentered _ rest =>
      have he : bsonIterKey e ≠ key := by
        rintro rfl
        exact hnamed hk
      rw [findKey_cons_ne he, findKey_cons_ne (by rwa [hentered.key_eq])]
      exact ih rest
    | drop hnamed _ rest =>
      have he : bsonIterKey e ≠ key := by
        rintro rfl
        exact hnamed hk
      rw [findKey_cons_ne he]
      exact ih rest

/-- Fields without content that are not named are dropped. -/
theorem Projected.find_drop (h : Projected .document paths es es') (hk : [key] ∉ paths)
    (hnone : ∀ x ∈ es, bsonIterKey x = key → bsonIterRecurse x = none) : findKey key es' = none := by
  induction es generalizing es' with
  | nil =>
    cases h
    rfl
  | cons x es ih =>
    have hrest := fun y hy => hnone y (List.mem_cons_of_mem _ hy)
    cases h with
    | keep hnamed hkey _ rest =>
      rw [findKey_cons_ne]
      · exact ih rest hrest
      · rw [hkey]
        rintro rfl
        exact hk hnamed
    | enter _ _ hentered _ rest =>
      rw [findKey_cons_ne]
      · exact ih rest hrest
      · rw [hentered.key_eq]
        intro hx
        have := hnone x List.mem_cons_self hx
        rw [hentered.child_eq] at this
        cases this
    | drop _ _ rest => exact ih rest hrest

/-- A field that paths go through: it is there with the projection of its content, or it has no content. -/
theorem Projected.find_enter (h : Projected .document paths es es') (hk : [key] ∉ paths)
    (hbelow : pathsBelow paths key ≠ []) {e : BsonIter} (he : findKey key es = some e) :
    bsonIterRecurse e = none ∨ ∃ content e' child child', findKey key es' = some e' ∧
      Entered content e e' child child' ∧
        Projected content (pathsBelow paths key) (bsonIterElements child) (bsonIterElements child') := by
  induction es generalizing es' with
  | nil => cases he
  | cons x es ih =>
    by_cases hx : bsonIterKey x = key
    · rw [findKey_cons_self hx] at he
      obtain rfl := Option.some.inj he
      cases h with
      | keep hnamed => exact absurd (hx ▸ hnamed) hk
      | enter _ _ hentered inner =>
        rw [hx] at inner
        exact Or.inr ⟨_, _, _, _, findKey_cons_self (hentered.key_eq.trans hx), hentered, inner⟩
      | drop _ hdrop => exact Or.inl (hdrop.resolve_left (by rwa [hx]))
    · rw [findKey_cons_ne hx] at he
      cases h with
      | keep _ hkey _ rest =>
        rw [findKey_cons_ne (by rwa [hkey])]
        exact ih rest he
      | enter _ _ hentered _ rest =>
        rw [findKey_cons_ne (by rwa [hentered.key_eq])]
        exact ih rest he
      | drop _ _ rest => exact ih rest he

end Find

/-! ## What is found along a path -/

section Path
variable {paths : List (List Bytes)} {it it' : BsonIter}

theorem bsonIterFindPath_of_not_mem {key : Bytes} {rest : List Bytes} (h : key ∉ keys (bsonIterElements it)) :
    bsonIterFindPath it (key :: rest) = none := by
  have hnone : bsonIterFindWithLen it key = none := by
    by_cases hk : key = []
    · unfold bsonIterFindWithLen
      rw [if_pos hk]
    · rw [bsonIterFindWithLen_eq hk]
      exact findKey_eq_none.mpr h
  by_cases hr : rest = []
  · rw [hr, bsonIterFindPath, hnone]
  · rw [bsonIterFindPath_cons hr, hnone]
    rfl

/-- The keys of a shorter array are keys of the longer one. -/
theorem Entered.keys_subset {e e' child child' : BsonIter} (h : Entered .array e e' child child')
    (hle : (bsonIterElements child').length ≤ (bsonIterElements child).length) :
    keys (bsonIterElements child') ⊆ keys (bsonIterElements child) := by
  rw [h.indexed rfl, h.indexed' rfl]
  exact List.map_subset _ (List.range_subset.mpr hle)

/-- Along a direct path the search comes to the same value, or to none, in the document and in its projection. -/
theorem findPath_projected {path : List Bytes} (hf : it.Fits) (hf' : it'.Fits) (hp : path ∈ paths)
    (h : Projected .document paths (bsonIterElements it) (bsonIterElements it')) (hd : Direct paths path it) :
    Option.Rel SameValue (bsonIterFindPath it path) (bsonIterFindPath it' path) := by
  induction path generalizing paths it it' with
  | nil => exact .none
  | cons key rest ih =>
    by_cases hempty : key = []
    · have hnone (it : BsonIter) : bsonIterFindWithLen it key = none := if_pos hempty
      by_cases hr : rest = []
      · rw [hr, bsonIterFindPath, bsonIterFindPath, hnone, hnone]
        exact .none
      · rw [bsonIterFindPath_cons hr, bsonIterFindPath_cons hr, hnone, hnone]
        exact .none
    · have hfind (it : BsonIter) : bsonIterFindWithLen it key = findKey key (bsonIterElements it) :=
        bsonIterFindWithLen_eq hempty
      by_cases hk : [key] ∈ paths
      · have hkeep := h.find_keep hk
        rw [← hfind, ← hfind] at hkeep
        by_cases hr : rest = []
        · rw [hr, bsonIterFindPath, bsonIterFindPath]
          exact hkeep
        · rw [bsonIterFindPath_cons hr, bsonIterFindPath_cons hr]
          rcases he : bsonIterFindWithLen it key with _ | e <;> rcases he' : bsonIterFindWithLen it' key with _ | e' <;>
            rw [he, he'] at hkeep <;> cases hkeep
          · exact .none
          · next hvalue =>
            exact findIn_sameValue hvalue (bsonIterFindWithLen_accepted hf he).1
              (bsonIterFindWithLen_accepted hf' he').1 rest
      · have hr : rest ≠ [] := by
          rintro rfl
          exact hk hp
        have hin := hd.resolve_left hk
        have hbelow := mem_pathsBelow hp
        rcases he : bsonIterFindWithLen it key with _ | e
        · rw [hfind, findKey_eq_none] at he
          rw [bsonIterFindPath_of_not_mem he,
            bsonIterFindPath_of_not_mem fun hmem => he (h.keys_sublist.subset hmem)]
          exact .none
        · rw [bsonIterFindPath_cons hr, bsonIterFindPath_cons hr, he]
          have hacc := (bsonIterFindWithLen_accepted hf he).1
          have hfound := he
          rw [hfind] at hfound
          rcases h.find_enter hk (List.ne_nil_of_mem hbelow) hfound with hrec |
            ⟨content, e', child, child', he', hentered, hinner⟩
          · rw [hfind it', h.find_drop hk ((hin e he).1 hrec)]
            show Option.Rel SameValue (bsonIterFindIn e rest) none
            unfold bsonIterFindIn
            rw [hrec]
            exact .none
          · have hacc' := (bsonIterFindWithLen_accepted hf' ((hfind it').trans he')).1
            rw [hfind it', he']
            show Option.Rel SameValue (bsonIterFindIn e rest) (bsonIterFindIn e' rest)
            unfold bsonIterFindIn
            rw [hentered.child_eq, hentered.child_eq']
            show Option.Rel SameValue (bsonIterFindPath child rest) (bsonIterFindPath child' rest)
            obtain ⟨hdoc, harr⟩ := (hin e he).2 child hentered.child_eq
            cases content with
            | document =>
              exact ih (bsonIterRecurse_fits hacc hentered.child_eq).1 (bsonIterRecurse_fits hacc' hentered.child_eq').1
                hbelow hinner (hdoc hentered.type_eq)
            | array =>
              obtain ⟨next, more, rfl⟩ := List.exists_cons_of_ne_nil hr
              have hnot := harr hentered.type_eq next rfl
              rw [bsonIterFindPath_of_not_mem hnot,
                bsonIterFindPath_of_not_mem fun hmem => hnot (hentered.keys_subset hinner.length_le hmem)]
              exact .none

end Path

end Monary
