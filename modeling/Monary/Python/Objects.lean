import Monary.Python.Queries

/-!
# Pipelines as objects

* `PyObject`, `Heap` : lists and dictionaries by reference; `readObject` : the value of an object;
* `getPipelineObject`, `deepcopy`, `appendObject` : what `aggregate` does to the object of its pipeline;
  `countObjects` : all of it, up to the call of itself and the encodings, which only read;
* `Kept` : objects that were there were not changed; `deepcopy_spec` : a copy is new, and so is all it was made of;
* `PipelineKept`, `pipelineKept` : the objects of the caller are as they were, and the usable form has its value.
-/

namespace Monary

/-- A list, a dictionary, or an object that nothing changes. -/
inductive PyObject where
  | list (items : List Nat)
  | dict (items : List (String × Nat))
  | atom (v : PyValue)

abbrev Heap := List PyObject

/-- The value of an object whose parts are nested less than `n` deep. -/
def readObject (heap : Heap) : Nat → Nat → Option PyValue
  | 0, _ => none
  | n + 1, r =>
    match heap[r]? with
    | none => none
    | some (.atom v) => some v
    | some (.list xs) => (xs.mapM (readObject heap n)).map .list
    | some (.dict d) => (d.mapM fun p => (readObject heap n p.2).map fun v => (p.1, v)).map .dict

/-! ## What `aggregate` does -/

/-- A new object. -/
def newObject (o : PyObject) (heap : Heap) : Nat × Heap := (heap.length, heap ++ [o])

/-- `get_pipeline` of an object. -/
def getPipelineObject (r : Nat) (heap : Heap) : Except PyExn (Nat × Heap) :=
  match heap[r]? with
  | some (.list _) => .ok (newObject (.dict [("pipeline", r)]) heap)
  | some (.dict d) =>
    if d.any (·.1 == "pipeline") then .ok (r, heap)
    else
      let (stages, heap) := newObject (.list [r]) heap
      .ok (newObject (.dict [("pipeline", stages)]) heap)
  | _ => .error ⟨.typeError, "Pipeline must be a dict or a list", []⟩

/-- `y.append(r)`. -/
def appendObject (y r : Nat) (heap : Heap) : Except PyExn Heap :=
  match heap[y]? with
  | some (.list xs) => .ok (heap.set y (.list (xs ++ [r])))
  | _ => .error ⟨.attributeError, "object has no attribute 'append'", []⟩

/-- `y[key] = r`, the key being new. -/
def setObject (y : Nat) (key : String) (r : Nat) (heap : Heap) : Except PyExn Heap :=
  match heap[y]? with
  | some (.dict d) => .ok (heap.set y (.dict (d ++ [(key, r)])))
  | _ => .error ⟨.typeError, "object does not support item assignment", []⟩

/-- The objects that were copied, with their copies. -/
abbrev Memo := List (Nat × Nat)

/-- The loop of `_deepcopy_list`; `copy` is the call of `deepcopy`. -/
def copyItems (copy : Nat → Memo → Heap → Except PyExn (Nat × Memo × Heap)) (y : Nat) :
    List Nat → Memo → Heap → Except PyExn (Memo × Heap)
  | [], memo, heap => .ok (memo, heap)
  | r :: xs, memo, heap => do
    let (r', memo, heap) ← copy r memo heap
    let heap ← appendObject y r' heap
    copyItems copy y xs memo heap

/-- The loop of `_deepcopy_dict`. -/
def copyEntries (copy : Nat → Memo → Heap → Except PyExn (Nat × Memo × Heap)) (y : Nat) :
    List (String × Nat) → Memo → Heap → Except PyExn (Memo × Heap)
  | [], memo, heap => .ok (memo, heap)
  | (key, r) :: d, memo, heap => do
    let (r', memo, heap) ← copy r memo heap
    let heap ← setObject y key r' heap
    copyEntries copy y d memo heap

/-- `copy.deepcopy`; the first argument is the number of calls that may still be nested. -/
def deepcopy : Nat → Nat → Memo → Heap → Except PyExn (Nat × Memo × Heap)
  | 0, _, _, _ => .error ⟨.other, "maximum recursion depth exceeded", []⟩
  | n + 1, r, memo, heap =>
    match memo.lookup r with
    | some r' => .ok (r', memo, heap)
    | none =>
      match heap[r]? with
      | some (.list xs) => do
        let (y, heap) := newObject (.list []) heap
        let (memo, heap) ← copyItems (deepcopy n) y xs ((r, y) :: memo) heap
        return (y, memo, heap)
      | some (.dict d) => do
        let (y, heap) := newObject (.dict []) heap
        let (memo, heap) ← copyEntries (deepcopy n) y d ((r, y) :: memo) heap
        return (y, memo, heap)
      | _ => .ok (r, memo, heap)

/-- `{"$group" : {"_id" : 1, "count" : {"$sum" : 1}}}`. -/
def countStageObject (heap : Heap) : Nat × Heap :=
  let (one, heap) := newObject (.atom (.int 1)) heap
  let (sum, heap) := newObject (.dict [("$sum", one)]) heap
  let (group, heap) := newObject (.dict [("_id", one), ("count", sum)]) heap
  newObject (.dict [("$group", group)]) heap

/-- `pipe_copy["pipeline"].append(count_stage)`. -/
def appendStageObject (copy stage : Nat) (heap : Heap) : Except PyExn Heap :=
  match heap[copy]? with
  | some (.dict d) =>
    match d.lookup "pipeline" with
    | some stages => appendObject stages stage heap
    | none => .error ⟨.keyError, "pipeline", []⟩
  | _ => .error ⟨.typeError, "object is not subscriptable", []⟩

/-- The pipeline in its usable form and the one that counts, as objects. -/
def countObjects (depth r : Nat) (heap : Heap) : Except PyExn (Nat × Nat × Heap) := do
  let (pipeline, heap) ← getPipelineObject r heap
  let (stage, heap) := countStageObject heap
  let (copy, _, heap) ← deepcopy depth pipeline [] heap
  let heap ← appendStageObject copy stage heap
  -- the call of `aggregate` that counts
  let (copy, heap) ← getPipelineObject copy heap
  return (pipeline, copy, heap)

/-! ## What it leaves as it was -/

/-- The objects below `base` are as they were. -/
structure Kept (base : Nat) (heap heap' : Heap) : Prop where
  length : heap.length ≤ heap'.length
  below : ∀ i < base, heap'[i]? = heap[i]?

theorem Kept.refl (base : Nat) (heap : Heap) : Kept base heap heap := ⟨le_refl _, fun _ _ => rfl⟩

theorem Kept.trans {base : Nat} {h₁ h₂ h₃ : Heap} (a : Kept base h₁ h₂) (b : Kept base h₂ h₃) : Kept base h₁ h₃ :=
  ⟨a.length.trans b.length, fun i hi => (b.below i hi).trans (a.below i hi)⟩

theorem kept_new {base : Nat} {heap : Heap} (h : base ≤ heap.length) (o : PyObject) :
    Kept base heap (newObject o heap).2 := by
  refine ⟨by simp [newObject], fun i hi => ?_⟩
  exact List.getElem?_append_left (by omega)

theorem kept_set {base y : Nat} {heap : Heap} (hy : base ≤ y) (o : PyObject) : Kept base heap (heap.set y o) := by
  refine ⟨by simp, fun i hi => ?_⟩
  exact List.getElem?_set_ne (by omega)

/-- An object that is new, or that nothing changes. -/
def Owned (base : Nat) (heap : Heap) (r : Nat) : Prop := base ≤ r ∨ ∃ v, heap[r]? = some (.atom v)

def PyObject.refs : PyObject → List Nat
  | list xs => xs
  | dict d => d.map (·.2)
  | atom _ => []

/-- The new objects refer to new ones, or to some that nothing changes; so do the copies that were made. -/
structure Closed (base : Nat) (memo : Memo) (heap : Heap) : Prop where
  length : base ≤ heap.length
  refs : ∀ i o, base ≤ i → heap[i]? = some o → ∀ r ∈ o.refs, Owned base heap r
  memo : ∀ r y, (r, y) ∈ memo → base ≤ y

theorem Owned.mono {base r : Nat} {heap heap' : Heap} (h : Owned base heap r) (hk : Kept base heap heap') :
    Owned base heap' r := by
  rcases h with h | ⟨v, h⟩
  · exact Or.inl h
  · by_cases hr : base ≤ r
    · exact Or.inl hr
    · exact Or.inr ⟨v, (hk.below r (by omega)).trans h⟩

theorem Owned.le {base r : Nat} {heap : Heap} {o : PyObject} (h : Owned base heap r) (ho : heap[r]? = some o)
    (hne : ∀ v, o ≠ .atom v) : base ≤ r := by
  rcases h with h | ⟨v, h⟩
  · exact h
  · exact absurd (Option.some.inj (ho.symm.trans h)) (hne v)

section Closed
variable {base : Nat} {memo : Memo} {heap : Heap}

theorem closed_new (h : Closed base memo heap) {o : PyObject} (ho : o.refs = []) (r : Nat) :
    Closed base ((r, heap.length) :: memo) (newObject o heap).2 := by
  have hk := kept_new h.length o
  refine ⟨h.length.trans hk.length, ?_, ?_⟩
  · intro i o' hi ho' r' hr'
    have hheap : (heap ++ [o])[i]? = some o' := ho'
    rw [List.getElem?_append] at hheap
    split at hheap
    · exact (h.refs i o' hi hheap r' hr').mono hk
    · obtain rfl : o = o' := List.mem_singleton.mp (List.mem_of_getElem? hheap) |>.symm
      rw [ho] at hr'
      cases hr'
  · intro r' y hy
    rcases List.mem_cons.mp hy with heq | hy
    · cases heq
      exact h.length
    · exact h.memo r' y hy

theorem closed_set (h : Closed base memo heap) {y : Nat} (hy : base ≤ y) {o : PyObject}
    (ho : ∀ r ∈ o.refs, Owned base heap r) : Closed base memo (heap.set y o) := by
  have hk : Kept base heap (heap.set y o) := kept_set hy o
  refine ⟨h.length.trans hk.length, ?_, h.memo⟩
  intro i o' hi ho' r hr
  rw [List.getElem?_set] at ho'
  split at ho'
  · split at ho'
    · cases ho'
      exact (ho r hr).mono hk
    · cases ho'
  · exact (h.refs i o' hi ho' r hr).mono hk

theorem appendObject_spec (h : Closed base memo heap) {y r : Nat} (hy : base ≤ y) (hr : Owned base heap r)
    {heap' : Heap} (happ : appendObject y r heap = .ok heap') : Kept base heap heap' ∧ Closed base memo heap' := by
  unfold appendObject at happ
  split at happ
  · next xs hxs =>
    cases happ
    refine ⟨kept_set hy _, closed_set h hy ?_⟩
    intro r' hr'
    rcases List.mem_append.mp hr' with hr' | hr'
    · exact h.refs y _ hy hxs r' hr'
    · rwa [List.mem_singleton.mp hr']
  · cases happ

theorem setObject_spec (h : Closed base memo heap) {y r : Nat} {key : String} (hy : base ≤ y) (hr : Owned base heap r)
    {heap' : Heap} (hset : setObject y key r heap = .ok heap') : Kept base heap heap' ∧ Closed base memo heap' := by
  unfold setObject at hset
  split at hset
  · next d hd =>
    cases hset
    refine ⟨kept_set hy _, closed_set h hy ?_⟩
    intro r' hr'
    obtain ⟨p, hp, rfl⟩ := List.mem_map.mp hr'
    rcases List.mem_append.mp hp with hp | hp
    · exact h.refs y _ hy hd p.2 (List.mem_map_of_mem hp)
    · rwa [List.mem_singleton.mp hp]
  · cases hset

/-- A copy is new, and so is all that it was made of. -/
def CopySpec (base : Nat) (copy : Nat → Memo → Heap → Except PyExn (Nat × Memo × Heap)) : Prop :=
  ∀ r memo heap y memo' heap', Closed base memo heap → copy r memo heap = .ok (y, memo', heap') →
    Kept base heap heap' ∧ Closed base memo' heap' ∧ Owned base heap' y

variable {copy : Nat → Memo → Heap → Except PyExn (Nat × Memo × Heap)} {y : Nat} {memo' : Memo} {heap' : Heap}

theorem copyItems_spec (hcopy : CopySpec base copy) (hy : base ≤ y) {xs : List Nat} (h : Closed base memo heap)
    (hrun : copyItems copy y xs memo heap = .ok (memo', heap')) : Kept base heap heap' ∧ Closed base memo' heap' := by
  induction xs generalizing memo heap with
  | nil =>
    cases hrun
    exact ⟨.refl _ _, h⟩
  | cons r xs ih =>
    obtain ⟨⟨r', memo₁, heap₁⟩, hr, hrun⟩ := bind_eq_ok hrun
    obtain ⟨heap₂, happ, hrun⟩ := bind_eq_ok hrun
    obtain ⟨hk₁, hc₁, ho⟩ := hcopy _ _ _ _ _ _ h hr
    obtain ⟨hk₂, hc₂⟩ := appendObject_spec hc₁ hy ho happ
    obtain ⟨hk₃, hc₃⟩ := ih hc₂ hrun
    exact ⟨(hk₁.trans hk₂).trans hk₃, hc₃⟩

theorem copyEntries_spec (hcopy : CopySpec base copy) (hy : base ≤ y) {d : List (String × Nat)}
    (h : Closed base memo heap) (hrun : copyEntries copy y d memo heap = .ok (memo', heap')) :
    Kept base heap heap' ∧ Closed base memo' heap' := by
  induction d generalizing memo heap with
  | nil =>
    cases hrun
    exact ⟨.refl _ _, h⟩
  | cons p d ih =>
    obtain ⟨⟨r', memo₁, heap₁⟩, hr, hrun⟩ := bind_eq_ok hrun
    obtain ⟨heap₂, hset, hrun⟩ := bind_eq_ok hrun
    obtain ⟨hk₁, hc₁, ho⟩ := hcopy _ _ _ _ _ _ h hr
    obtain ⟨hk₂, hc₂⟩ := setObject_spec hc₁ hy ho hset
    obtain ⟨hk₃, hc₃⟩ := ih hc₂ hrun
    exact ⟨(hk₁.trans hk₂).trans hk₃, hc₃⟩

theorem deepcopy_spec (base n : Nat) : CopySpec base (deepcopy n) := by
  induction n with
  | zero =>
    intro r memo heap y memo' heap' _ hrun
    cases hrun
  | succ n ih =>
    intro r memo heap y memo' heap' h hrun
    unfold deepcopy at hrun
    split at hrun
    · next r' hr' =>
      cases hrun
      refine ⟨.refl _ _, h, Or.inl (h.memo r y ?_)⟩
      obtain ⟨l₁, l₂, hl, -⟩ := List.lookup_eq_some_iff.mp hr'
      rw [hl]
      simp
    · split at hrun
      · obtain ⟨⟨memo₁, heap₁⟩, hitems, hrun⟩ := bind_eq_ok hrun
        cases hrun
        obtain ⟨hk, hc⟩ := copyItems_spec ih h.length (closed_new h rfl r) hitems
        exact ⟨(kept_new h.length _).trans hk, hc, Or.inl h.length⟩
      · obtain ⟨⟨memo₁, heap₁⟩, hentries, hrun⟩ := bind_eq_ok hrun
        cases hrun
        obtain ⟨hk, hc⟩ := copyEntries_spec ih h.length (closed_new h rfl r) hentries
        exact ⟨(kept_new h.length _).trans hk, hc, Or.inl h.length⟩
      · next hlist hdict =>
        cases hrun
        refine ⟨.refl _ _, h, ?_⟩
        rcases ho : heap[r]? with _ | (xs | d | v)
        · exact Or.inl (h.length.trans (List.getElem?_eq_none_iff.mp ho))
        · exact absurd ho (hlist xs)
        · exact absurd ho (hdict d)
        · exact Or.inr ⟨v, ho⟩

end Closed

theorem Kept.weaken {base base' : Nat} {heap heap' : Heap} (h : Kept base heap heap') (hle : base' ≤ base) :
    Kept base' heap heap' := ⟨h.length, fun i hi => h.below i (by omega)⟩

theorem kept_getPipelineObject {r p : Nat} {heap heap' : Heap} (h : getPipelineObject r heap = .ok (p, heap')) :
    Kept heap.length heap heap' := by
  unfold getPipelineObject at h
  split at h
  · cases h
    exact kept_new (le_refl _) _
  · split at h
    · cases h
      exact .refl _ _
    · cases h
      exact (kept_new (le_refl _) _).trans (kept_new (by simp [newObject]) _)
  · cases h

theorem kept_countStageObject (heap : Heap) : Kept heap.length heap (countStageObject heap).2 := by
  unfold countStageObject
  refine (((kept_new (le_refl _) _).trans (kept_new ?_ _)).trans (kept_new ?_ _)).trans (kept_new ?_ _) <;>
  · simp only [newObject, List.length_append, List.length_singleton]
    omega

/-- The stage is appended to a list of the copy. -/
theorem appendStageObject_kept {base copy stage : Nat} {memo : Memo} {heap heap' : Heap} (h : Closed base memo heap)
    (hcopy : Owned base heap copy) (happ : appendStageObject copy stage heap = .ok heap') : Kept base heap heap' := by
  unfold appendStageObject at happ
  split at happ
  · next d hd =>
    split at happ
    · next stages hstages =>
      have hmem : stages ∈ (PyObject.dict d).refs := by
        obtain ⟨l₁, l₂, rfl, -⟩ := List.lookup_eq_some_iff.mp hstages
        simp [PyObject.refs]
      have howned := h.refs copy _ (hcopy.le hd nofun) hd stages hmem
      unfold appendObject at happ
      split at happ
      · next xs hxs =>
        cases happ
        exact kept_set (howned.le hxs nofun) _
      · cases happ
    · cases happ
  · cases happ

/-- Behind the usable form, no object that was there is changed. -/
theorem countObjects_spec {depth r p copy : Nat} {heap heap' : Heap}
    (h : countObjects depth r heap = .ok (p, copy, heap')) :
    ∃ heap₁, getPipelineObject r heap = .ok (p, heap₁) ∧ Kept heap₁.length heap₁ heap' := by
  obtain ⟨⟨p₁, heap₁⟩, hp, h⟩ := bind_eq_ok h
  obtain ⟨⟨copy₁, memo, heap₃⟩, hcopy, h⟩ := bind_eq_ok h
  obtain ⟨heap₄, happ, h⟩ := bind_eq_ok h
  obtain ⟨⟨copy₂, heap₅⟩, hagain, h⟩ := bind_eq_ok h
  cases h
  have hk₂ := kept_countStageObject heap₁
  obtain ⟨hk₃, hc₃, ho₃⟩ := deepcopy_spec (countStageObject heap₁).2.length depth _ _ _ _ _ _
    ⟨le_refl _, fun i o hi ho => absurd (List.getElem?_eq_none hi) (by rw [ho]; simp), by simp⟩ hcopy
  have hk₄ := appendStageObject_kept hc₃ ho₃ happ
  have hk₅ := kept_getPipelineObject hagain
  have h₂ := hk₂.length
  have h₃ := hk₃.length
  have h₄ := hk₄.length
  refine ⟨heap₁, hp, ?_⟩
  exact ((hk₂.trans (hk₃.weaken h₂)).trans (hk₄.weaken h₂)).trans (hk₅.weaken (by omega))

/-! ## Values -/

theorem mapM_of_imp {α β : Type} {f g : α → Option β} {l : List α} {bs : List β}
    (h : ∀ a ∈ l, ∀ b, f a = some b → g a = some b) (hf : l.mapM f = some bs) : l.mapM g = some bs := by
  induction l generalizing bs with
  | nil => exact hf
  | cons a l ih =>
    rw [List.mapM_cons] at hf ⊢
    obtain ⟨b, hb, hf⟩ := Option.bind_eq_some_iff.mp hf
    obtain ⟨bs', hbs, hf⟩ := Option.bind_eq_some_iff.mp hf
    rw [h a (by simp) b hb]
    show (l.mapM g >>= fun bs => pure (b :: bs)) = _
    rw [ih (fun a' ha' => h a' (by simp [ha'])) hbs]
    exact hf

/-- An object that was not changed has the value it had. -/
theorem readObject_kept {heap heap' : Heap} (hk : Kept heap.length heap heap') {n r : Nat} {v : PyValue}
    (h : readObject heap n r = some v) : readObject heap' n r = some v := by
  induction n generalizing r v with
  | zero => cases h
  | succ n ih =>
    rw [readObject] at h ⊢
    rcases ho : heap[r]? with _ | o
    · rw [ho] at h
      cases h
    · obtain ⟨hr, -⟩ := List.getElem?_eq_some_iff.mp ho
      rw [hk.below r hr, ho]
      rw [ho] at h
      rcases o with xs | d | w
      · obtain ⟨vs, hvs, hv⟩ := Option.map_eq_some_iff.mp h
        dsimp only
        rw [mapM_of_imp (fun a _ b hb => ih hb) hvs, ← hv]
        rfl
      · obtain ⟨vs, hvs, hv⟩ := Option.map_eq_some_iff.mp h
        dsimp only
        rw [mapM_of_imp (fun a _ b hb => ?_) hvs, ← hv]
        · rfl
        · obtain ⟨w, hw, hb⟩ := Option.map_eq_some_iff.mp hb
          rw [ih hw, ← hb]
          rfl
      · exact h

theorem any_of_mapM {f : Nat → Option PyValue} {d : List (String × Nat)} {vs : List (String × PyValue)}
    (h : (d.mapM fun p => (f p.2).map fun v => (p.1, v)) = some vs) (key : String) :
    vs.any (·.1 == key) = d.any (·.1 == key) := by
  induction d generalizing vs with
  | nil =>
    obtain rfl : [] = vs := Option.some.inj h
    rfl
  | cons p d ih =>
    rw [List.mapM_cons] at h
    obtain ⟨b, hb, h⟩ := Option.bind_eq_some_iff.mp h
    obtain ⟨bs, hbs, h⟩ := Option.bind_eq_some_iff.mp h
    obtain rfl : b :: bs = vs := Option.some.inj h
    obtain ⟨w, -, rfl⟩ := Option.map_eq_some_iff.mp hb
    rw [List.any_cons, List.any_cons, ih hbs]

theorem readObject_entry {heap : Heap} {n r p : Nat} {key : String} {v : PyValue}
    (hp : heap[p]? = some (.dict [(key, r)])) (h : readObject heap n r = some v) :
    readObject heap (n + 1) p = some (.dict [(key, v)]) := by
  rw [readObject, hp]
  simp [h]

theorem readObject_item {heap : Heap} {n r p : Nat} {v : PyValue} (hp : heap[p]? = some (.list [r]))
    (h : readObject heap n r = some v) : readObject heap (n + 1) p = some (.list [v]) := by
  rw [readObject, hp]
  simp [h]

/-- The usable form of a pipeline, as an object and as a value. -/
theorem readObject_getPipelineObject {heap heap' : Heap} {n r p : Nat} {v : PyValue} (h : readObject heap n r = some v)
    (hp : getPipelineObject r heap = .ok (p, heap')) :
    ∃ w, getPipeline v = .ok w ∧ ∃ m, readObject heap' m p = some w := by
  have hv := readObject_kept (kept_getPipelineObject hp) h
  rcases n with _ | n
  · cases h
  rw [readObject] at h
  unfold getPipelineObject at hp
  rcases ho : heap[r]? with _ | (xs | d | w)
  · rw [ho] at hp
    cases hp
  · rw [ho] at h hp
    obtain ⟨vs, -, rfl⟩ := Option.map_eq_some_iff.mp h
    cases hp
    exact ⟨_, rfl, n + 2, readObject_entry List.getElem?_concat_length hv⟩
  · rw [ho] at h hp
    obtain ⟨vs, hvs, rfl⟩ := Option.map_eq_some_iff.mp h
    have hany := any_of_mapM hvs "pipeline"
    unfold getPipeline
    dsimp only at hp ⊢
    rw [hany]
    split at hp
    · next hkey =>
      cases hp
      rw [if_pos hkey]
      exact ⟨_, rfl, n + 1, hv⟩
    · next hkey =>
      cases hp
      rw [if_neg hkey]
      refine ⟨_, rfl, n + 3, readObject_entry List.getElem?_concat_length (readObject_item ?_ hv)⟩
      simp [newObject]
  · rw [ho] at hp
    cases hp

/-- Whatever objects have the value of the pipeline, they are not changed, and the usable form has the value that
`get_pipeline` makes of it. -/
def PipelineKept (v : PyValue) : Prop :=
  ∀ depth n r heap p copy heap', readObject heap n r = some v → countObjects depth r heap = .ok (p, copy, heap') →
    (∀ i < heap.length, heap'[i]? = heap[i]?) ∧ readObject heap' n r = some v ∧
      ∃ w m, getPipeline v = .ok w ∧ readObject heap' m p = some w

theorem pipelineKept (v : PyValue) : PipelineKept v := by
  intro depth n r heap p copy heap' hread hrun
  obtain ⟨heap₁, hp, hk⟩ := countObjects_spec hrun
  have hk₁ := kept_getPipelineObject hp
  have hkept := hk₁.trans (hk.weaken hk₁.length)
  obtain ⟨w, hw, m, hm⟩ := readObject_getPipelineObject hread hp
  exact ⟨hkept.below, readObject_kept hkept hread, w, m, hw, readObject_kept hk hm⟩

/-- A list of stages that the caller has twice. -/
example : countObjects 5 2 [.atom (.int 1), .dict [("$limit", 0)], .list [1, 1]] =
    .ok (3, 8, [.atom (.int 1), .dict [("$limit", 0)], .list [1, 1], .dict [("pipeline", 2)], .atom (.int 1),
      .dict [("$sum", 4)], .dict [("_id", 4), ("count", 5)], .dict [("$group", 6)], .dict [("pipeline", 9)],
      .list [10, 10, 7], .dict [("$limit", 0)]]) := by rfl

end Monary
