import Mathlib

/-!
# Maps that remember the order of insertion

`OrderedMap κ V` : pairs with distinct keys, in an order.

* `keys`, `values`, `lookup`, `set`, `erase`, `ofList`, `filter`;
* `lookup_eq_some` : what is looked up is an entry; `lookup_set`, `lookup_erase`;
* `keys_set`, `keys_erase` : a new key goes to the end, a present one stays where it is;
* `ofList_entries` : a map is made again from its entries;
* `lookup_update`, `keys_ofList` : of pairs with one key, the last has the value and the first the place.
-/

structure OrderedMap (κ V : Type*) where
  entries : List (κ × V)
  nodup : (entries.map Prod.fst).Nodup

namespace OrderedMap

variable {κ V : Type*}

@[ext] theorem ext {m n : OrderedMap κ V} (h : m.entries = n.entries) : m = n := by
  rcases m with ⟨es, hm⟩
  rcases n with ⟨fs, hn⟩
  simpa using h

def empty : OrderedMap κ V := ⟨[], by simp⟩

def keys (m : OrderedMap κ V) : List κ := m.entries.map Prod.fst

def values (m : OrderedMap κ V) : List V := m.entries.map Prod.snd

@[simp] theorem keys_empty : (empty : OrderedMap κ V).keys = [] := rfl

theorem nodup_keys (m : OrderedMap κ V) : m.keys.Nodup := m.nodup

theorem mem_keys_of_mem {m : OrderedMap κ V} {k : κ} {v : V} (h : (k, v) ∈ m.entries) : k ∈ m.keys :=
  List.mem_map.mpr ⟨(k, v), h, rfl⟩

theorem exists_of_mem_keys {m : OrderedMap κ V} {k : κ} (h : k ∈ m.keys) : ∃ v, (k, v) ∈ m.entries := by
  obtain ⟨p, hp, rfl⟩ := List.mem_map.mp h
  exact ⟨p.2, hp⟩

/-- A key has one value. -/
theorem value_unique {m : OrderedMap κ V} {k : κ} {v w : V} (hv : (k, v) ∈ m.entries) (hw : (k, w) ∈ m.entries) :
    v = w := by
  have := List.inj_on_of_nodup_map m.nodup hv hw rfl
  exact congrArg Prod.snd this

/-- The entries whose keys satisfy `p`. -/
def filter (m : OrderedMap κ V) (p : κ → Bool) : OrderedMap κ V :=
  ⟨m.entries.filter fun e => p e.1, m.nodup.sublist (List.filter_sublist.map _)⟩

theorem keys_filter (m : OrderedMap κ V) (p : κ → Bool) : (m.filter p).keys = m.keys.filter p := by
  simp [keys, filter, List.filter_map, Function.comp_def]

theorem filter_eq_self {m : OrderedMap κ V} {p : κ → Bool} (h : ∀ k ∈ m.keys, p k) : m.filter p = m := by
  apply ext
  exact List.filter_eq_self.mpr fun e he => h e.1 (List.mem_map_of_mem he)

theorem filter_filter (m : OrderedMap κ V) (p q : κ → Bool) :
    (m.filter p).filter q = m.filter fun k => q k && p k := by
  apply ext
  exact List.filter_filter

variable [DecidableEq κ]

def lookup (m : OrderedMap κ V) (k : κ) : Option V := m.entries.lookup k

@[simp] theorem lookup_empty (k : κ) : (empty : OrderedMap κ V).lookup k = none := rfl

/-- The entries with `v` for the value of `k`: in the place of `k`, or at the end. -/
def setEntries (es : List (κ × V)) (k : κ) (v : V) : List (κ × V) :=
  if k ∈ es.map Prod.fst then es.map fun e => if e.1 = k then (k, v) else e else es ++ [(k, v)]

theorem map_fst_setEntries (es : List (κ × V)) (k : κ) (v : V) :
    (setEntries es k v).map Prod.fst =
      if k ∈ es.map Prod.fst then es.map Prod.fst else es.map Prod.fst ++ [k] := by
  unfold setEntries
  split
  · rw [List.map_map]
    apply List.map_congr_left
    intro e _
    by_cases he : e.1 = k <;> simp [he]
  · simp

def set (m : OrderedMap κ V) (k : κ) (v : V) : OrderedMap κ V :=
  ⟨setEntries m.entries k v, by
    have hm := m.nodup
    rw [map_fst_setEntries]
    split
    · exact hm
    · rename_i hk
      simp only [List.nodup_append, hm, List.nodup_singleton, true_and, List.mem_singleton]
      rintro x hx _ rfl rfl
      exact hk hx⟩

def erase (m : OrderedMap κ V) (k : κ) : OrderedMap κ V := m.filter (· ≠ k)

/-- The pairs are set one after the other. -/
def update (m : OrderedMap κ V) (ps : List (κ × V)) : OrderedMap κ V := ps.foldl (fun m p => m.set p.1 p.2) m

def ofList (ps : List (κ × V)) : OrderedMap κ V := empty.update ps

variable {m n : OrderedMap κ V} {k j : κ} {v w : V}

theorem keys_set (m : OrderedMap κ V) (k : κ) (v : V) :
    (m.set k v).keys = if k ∈ m.keys then m.keys else m.keys ++ [k] :=
  map_fst_setEntries m.entries k v

theorem keys_erase (m : OrderedMap κ V) (k : κ) : (m.erase k).keys = m.keys.filter (· ≠ k) := keys_filter m _

theorem lookup_eq_none : m.lookup k = none ↔ k ∉ m.keys := by
  simp [lookup, keys]
  grind

/-- What is looked up is an entry. -/
theorem lookup_eq_some : m.lookup k = some v ↔ (k, v) ∈ m.entries := by
  constructor
  · intro h
    obtain ⟨l, r, he, -⟩ := List.lookup_eq_some_iff.mp h
    simp [he]
  · intro h
    cases hl : m.lookup k with
    | none => exact absurd (mem_keys_of_mem h) (lookup_eq_none.mp hl)
    | some w =>
      obtain ⟨l, r, he, -⟩ := List.lookup_eq_some_iff.mp hl
      rw [value_unique h (by simp [he] : (k, w) ∈ m.entries)]

theorem mem_keys : k ∈ m.keys ↔ ∃ v, m.lookup k = some v := by
  constructor
  · intro h
    obtain ⟨v, hv⟩ := exists_of_mem_keys h
    exact ⟨v, lookup_eq_some.mpr hv⟩
  · rintro ⟨v, hv⟩
    exact mem_keys_of_mem (lookup_eq_some.mp hv)

theorem mem_entries_set : (j, w) ∈ (m.set k v).entries ↔ if j = k then w = v else (j, w) ∈ m.entries := by
  show (j, w) ∈ setEntries m.entries k v ↔ _
  unfold setEntries
  by_cases hk : k ∈ m.entries.map Prod.fst
  · rw [if_pos hk, List.mem_map]
    obtain ⟨e, he, rfl⟩ := List.mem_map.mp hk
    by_cases hj : j = e.1
    · rw [if_pos hj]
      constructor
      · rintro ⟨f, -, hf⟩
        split at hf <;> simp_all
      · rintro rfl
        exact ⟨e, he, by simp [hj]⟩
    · rw [if_neg hj]
      constructor
      · rintro ⟨f, hf, hfe⟩
        split at hfe <;> simp_all
      · exact fun h => ⟨_, h, by simp [hj]⟩
  · rw [if_neg hk]
    by_cases hj : j = k
    · have hmem : (j, w) ∉ m.entries := fun h => hk (hj ▸ List.mem_map.mpr ⟨_, h, rfl⟩)
      simp [hj, hj ▸ hmem]
    · simp [hj]

theorem lookup_set (m : OrderedMap κ V) (k j : κ) (v : V) :
    (m.set k v).lookup j = if j = k then some v else m.lookup j := by
  ext w
  rw [lookup_eq_some, mem_entries_set]
  split
  · simp [eq_comm]
  · exact lookup_eq_some.symm

theorem lookup_erase (m : OrderedMap κ V) (k j : κ) :
    (m.erase k).lookup j = if j = k then none else m.lookup j := by
  ext w
  rw [lookup_eq_some]
  split
  · simp_all [erase, filter]
  · simp_all [erase, filter, lookup_eq_some]

@[simp] theorem update_nil (m : OrderedMap κ V) : m.update [] = m := rfl

@[simp] theorem update_cons (m : OrderedMap κ V) (p : κ × V) (ps : List (κ × V)) :
    m.update (p :: ps) = (m.set p.1 p.2).update ps := rfl

/-- Pairs with new, distinct keys go to the end. -/
theorem entries_update {ps : List (κ × V)} (hn : (m.keys ++ ps.map Prod.fst).Nodup) :
    (m.update ps).entries = m.entries ++ ps := by
  induction ps generalizing m with
  | nil => simp
  | cons p ps ih =>
    have hp : p.1 ∉ m.entries.map Prod.fst := by
      have hdis := (List.nodup_append.mp hn).2.2
      exact fun hmem => hdis _ hmem p.1 (by simp) rfl
    have hset : (m.set p.1 p.2).entries = m.entries ++ [p] := by
      show setEntries m.entries p.1 p.2 = _
      rw [setEntries, if_neg hp]
    rw [update_cons, ih, hset]
    · simp
    · rw [keys, hset]
      simpa [keys] using hn

theorem update_append (m : OrderedMap κ V) (ps qs : List (κ × V)) : m.update (ps ++ qs) = (m.update ps).update qs :=
  List.foldl_append

/-- The last pair with a key gives it its value. -/
theorem lookup_update (m : OrderedMap κ V) (ps : List (κ × V)) (k : κ) :
    (m.update ps).lookup k = (ps.reverse.lookup k).or (m.lookup k) := by
  induction ps using List.reverseRecOn with
  | nil => simp
  | append_singleton ps p ih =>
    rw [update_append, update_cons, update_nil, lookup_set, ih, List.reverse_append, List.reverse_singleton,
      List.singleton_append, List.lookup_cons]
    by_cases hk : k = p.1
    · simp [hk]
    · have hb : (k == p.1) = false := by simpa using hk
      simp [hk, hb]

/-- The keys stand where they were first mentioned. -/
theorem keys_ofList (ps : List (κ × V)) : (ofList ps).keys = (ps.map Prod.fst).reverse.dedup.reverse := by
  induction ps using List.reverseRecOn with
  | nil => rfl
  | append_singleton ps p ih =>
    rw [ofList] at ih ⊢
    rw [update_append, update_cons, update_nil, keys_set, ih, List.map_append, List.map_singleton,
      List.reverse_append, List.reverse_singleton, List.singleton_append]
    by_cases hp : p.1 ∈ ps.map Prod.fst
    · rw [if_pos (by simpa using hp), List.dedup_cons_of_mem (by simpa using hp)]
    · rw [if_neg (by simpa using hp), List.dedup_cons_of_notMem (by simpa using hp), List.reverse_cons]

/-- A map is made again from its entries. -/
theorem ofList_entries (m : OrderedMap κ V) : ofList m.entries = m := by
  apply ext
  rw [ofList, entries_update]
  · rfl
  · simpa using m.nodup

end OrderedMap
