import Monary.Python.OrderedDict

/-!
# What an ordered dictionary represents

* `Represents d m cells` : `d` is the map `m`; `cells` are its links with their keys, and the links are a
  circle, forwards and backwards;
* `setItem_spec`, `delItem_spec`, `popitem_spec`, `clear_spec` : the methods do to the dictionary what their
  names say of the map, and touch no other links;
* `iterNext_cell`, `iterNext_root` : a step of a generator; `forEach_spec` : a loop that only reads;
* `keys_spec`, `reversed_spec`, `values_spec`, `items_spec`, `len_eq`.
-/

namespace Monary.OrderedDict
open Effect Linked

variable {κ V β : Type} {d : OrderedDict κ V} {r n s p i : Nat} {l : Link κ}

def nextOf (d : OrderedDict κ V) (r : Nat) : Option Nat := (d.links r).map Link.next

def prevOf (d : OrderedDict κ V) (r : Nat) : Option Nat := (d.links r).map Link.prev

def keyOf (d : OrderedDict κ V) (r : Nat) : Option κ := (d.links r).bind Link.key

/-- `d` with `n` for the successor of `r` and `p` for the predecessor of `s`. -/
def relink (d : OrderedDict κ V) (r n s p : Nat) : OrderedDict κ V :=
  { d with
    links := fun i =>
      (d.links i).map fun l => ⟨if i = s then p else l.prev, if i = r then n else l.next, l.key⟩ }

/-- The dictionary once a new link was allocated. -/
def withNew (d : OrderedDict κ V) (l : Link κ) : OrderedDict κ V :=
  { d with links := Function.update d.links d.fresh (some l), fresh := d.fresh + 1 }

theorem nextOf_withNew : (d.withNew l).nextOf = Function.update d.nextOf d.fresh (some l.next) := by
  funext i
  by_cases hi : i = d.fresh <;> simp [nextOf, withNew, hi]

theorem prevOf_withNew : (d.withNew l).prevOf = Function.update d.prevOf d.fresh (some l.prev) := by
  funext i
  by_cases hi : i = d.fresh <;> simp [prevOf, withNew, hi]

theorem exists_link (h : (d.nextOf r).isSome) : ∃ l, d.links r = some l ∧ d.nextOf r = some l.next ∧
    d.prevOf r = some l.prev ∧ d.keyOf r = l.key := by
  cases hl : d.links r with
  | none => simp [nextOf, hl] at h
  | some l => exact ⟨l, rfl, by simp [nextOf, hl], by simp [prevOf, hl], by simp [keyOf, hl]⟩

@[simp] theorem keyOf_relink : (d.relink r n s p).keyOf i = d.keyOf i := by
  simp [keyOf, relink, Option.bind_map]

theorem nextOf_relink (h : (d.nextOf r).isSome) :
    (d.relink r n s p).nextOf = Function.update d.nextOf r (some n) := by
  obtain ⟨l, hl, -⟩ := exists_link h
  funext i
  by_cases hi : i = r
  · simp [nextOf, relink, hi, hl]
  · simp [nextOf, relink, hi, Function.comp_def]

theorem prevOf_relink (h : (d.nextOf s).isSome) :
    (d.relink r n s p).prevOf = Function.update d.prevOf s (some p) := by
  obtain ⟨l, hl, -⟩ := exists_link h
  funext i
  by_cases hi : i = s
  · simp [prevOf, relink, hi, hl]
  · simp [prevOf, relink, hi, Function.comp_def]

theorem linkAt_of_some (h : d.links r = some l) : linkAt r d = (.returned l, d) := by
  simp [linkAt, h]

theorem keyAt_apply {k : κ} (h : d.keyOf r = some k) : keyAt r d = (.returned k, d) := by
  cases hl : d.links r with
  | none => simp [keyOf, hl] at h
  | some l =>
    simp only [keyOf, hl, Option.bind_some] at h
    rw [keyAt, bind_of_returned (linkAt_of_some hl), h]
    rfl

theorem unpack_of_some (h : d.links r = some l) : unpack r d = (.returned l, d) := by
  simp [unpack, h]

/-- The two assignments that every change of the list ends with. -/
theorem setNext_setPrev (hr : (d.nextOf r).isSome) (hs : (d.nextOf s).isSome) (n p : Nat) :
    ∃ d', setNext r n d = (.returned (), d') ∧ setPrev s p d' = (.returned (), d.relink r n s p) := by
  obtain ⟨l, hl, -⟩ := exists_link hr
  obtain ⟨t, ht, -⟩ := exists_link hs
  refine ⟨{ d with links := Function.update d.links r (some { l with next := n }) }, ?_, ?_⟩
  · rw [setNext, bind_of_returned (linkAt_of_some hl)]
    rfl
  rw [setPrev]
  by_cases hrs : s = r
  · obtain rfl : l = t := by simpa [hrs, hl] using ht
    rw [bind_of_returned (linkAt_of_some (l := { l with next := n }) (by simp [hrs])), putLink, modify_apply]
    simp only [relink, Prod.mk.injEq, OrderedDict.mk.injEq, true_and, and_true]
    funext i
    by_cases hi : i = r
    · simp [hi, hrs, hl]
    · cases hli : d.links i <;> simp [hi, hrs, hli]
  · rw [bind_of_returned (linkAt_of_some (l := t) (by simp [hrs, ht])), putLink, modify_apply]
    simp only [relink, Prod.mk.injEq, OrderedDict.mk.injEq, true_and, and_true]
    funext i
    by_cases hi : i = s
    · simp [hi, hrs, ht]
    · by_cases hir : i = r
      · simp [hir, hl, Ne.symm hrs]
      · cases hli : d.links i <;> simp [hi, hir, hli]

/-- What every method leaves: the sentinel, the names in use, and the links that were emptied. -/
structure Later (d d' : OrderedDict κ V) : Prop where
  root : d'.root = d.root
  fresh : d.fresh ≤ d'.fresh
  emptied : ∀ i < d.fresh, d.links i = none → d'.links i = none

theorem Later.refl (d : OrderedDict κ V) : Later d d := ⟨rfl, le_refl _, fun _ _ h => h⟩

theorem Later.trans {d' d'' : OrderedDict κ V} (h : Later d d') (h' : Later d' d'') : Later d d'' where
  root := h'.root.trans h.root
  fresh := h.fresh.trans h'.fresh
  emptied := fun i hi hn => h'.emptied i (Nat.lt_of_lt_of_le hi h.fresh) (h.emptied i hi hn)

theorem later_relink (d : OrderedDict κ V) (r n s p : Nat) : Later d (d.relink r n s p) :=
  ⟨rfl, le_refl _, fun i _ hn => by simp [relink, hn]⟩

theorem later_withNew (d : OrderedDict κ V) (l : Link κ) : Later d (d.withNew l) where
  root := rfl
  fresh := Nat.le_succ _
  emptied := by
    intro i hi hn
    show Function.update d.links d.fresh (some l) i = none
    rw [Function.update_of_ne (Nat.ne_of_lt hi), hn]

variable {cells xs ys : List (Nat × κ)} {k : κ}

/-! ## Steps of a generator -/

section Steps
variable {step : Link κ → Nat} {curr fuel : Nat} {body : κ → DictProg κ V β}

theorem exists_of_step (h : (d.links curr).map step = some n) : ∃ l, linkAt curr d = (.returned l, d) ∧ step l = n := by
  obtain ⟨l, hl, hn⟩ := Option.map_eq_some_iff.mp h
  exact ⟨l, linkAt_of_some hl, hn⟩

theorem iterNext_root (h : (d.links curr).map step = some d.root) :
    iterNext step curr d = (.returned none, d) := by
  obtain ⟨l, hl, hn⟩ := exists_of_step h
  rw [iterNext, bind_of_returned (read_apply d), bind_of_returned hl, if_pos hn]
  rfl

theorem iterNext_cell (h : (d.links curr).map step = some r) (hr : r ≠ d.root) (hk : d.keyOf r = some k) :
    iterNext step curr d = (.returned (some (k, r)), d) := by
  obtain ⟨l, hl, rfl⟩ := exists_of_step h
  rw [iterNext, bind_of_returned (read_apply d), bind_of_returned hl, if_neg hr, bind_of_returned (keyAt_apply hk)]
  rfl

theorem forEach_root (h : (d.links curr).map step = some d.root) :
    forEach step body (fuel + 1) curr d = (.returned [], d) := by
  rw [forEach, bind_of_returned (iterNext_root h)]
  rfl

theorem forEach_cell {b : β} {d' : OrderedDict κ V} (h : (d.links curr).map step = some r) (hr : r ≠ d.root)
    (hk : d.keyOf r = some k) (hb : body k d = (.returned b, d')) :
    forEach step body (fuel + 1) curr d = (forEach step body fuel r >>= fun bs => pure (b :: bs)) d' := by
  rw [forEach, bind_of_returned (iterNext_cell h hr hk)]
  exact bind_of_returned hb _

/-- A loop that leaves the dictionary as it is goes through the cells once. -/
theorem forEach_spec {bs : List β} (hp : Path (fun r => (d.links r).map step) curr (cells.map Prod.fst) d.root)
    (hkey : ∀ c ∈ cells, c.1 ≠ d.root ∧ d.keyOf c.1 = some c.2)
    (hbody : List.Forall₂ (fun c b => body c.2 d = (.returned b, d)) cells bs) (hfuel : cells.length < fuel) :
    forEach step body fuel curr d = (.returned bs, d) := by
  induction hbody generalizing curr fuel with
  | nil =>
    obtain ⟨fuel, rfl⟩ := Nat.exists_eq_add_of_lt hfuel
    exact forEach_root hp
  | @cons c b cells bs hc _ ih =>
    obtain ⟨fuel, rfl⟩ : ∃ i, fuel = i + 1 := ⟨fuel - 1, by omega⟩
    obtain ⟨hr, hk⟩ := hkey c List.mem_cons_self
    rw [forEach_cell hp.1 hr hk hc]
    have hrest := ih hp.2 (fun e he => hkey e (List.mem_cons_of_mem _ he)) (by simpa using hfuel)
    rw [bind_of_returned hrest]
    rfl

end Steps

/-! ## The representation -/

variable [DecidableEq κ] {m : OrderedMap κ V} {v : V}

structure Represents (d : OrderedDict κ V) (m : OrderedMap κ V) (cells : List (Nat × κ)) : Prop where
  forwards : Path d.nextOf d.root (cells.map Prod.fst) d.root
  backwards : Path d.prevOf d.root (cells.map Prod.fst).reverse d.root
  nodup : (d.root :: cells.map Prod.fst).Nodup
  bound : ∀ r ∈ d.root :: cells.map Prod.fst, r < d.fresh
  key : ∀ c ∈ cells, d.keyOf c.1 = some c.2
  keys : m.keys = cells.map Prod.snd
  map : ∀ k r, d.map.lookup k = some r ↔ (r, k) ∈ cells
  dict : ∀ k, d.dict.lookup k = m.lookup k

theorem represents_new : Represents (new : OrderedDict κ V) .empty [] where
  forwards := by simp [new, nextOf]
  backwards := by simp [new, prevOf]
  nodup := by simp
  bound := by simp [new]
  key := by simp
  keys := by simp
  map := by simp [new]
  dict := by simp [new, OrderedMap.empty, OrderedMap.lookup]

namespace Represents

theorem isSome_nextOf (h : Represents d m cells) (hr : r ∈ d.root :: cells.map Prod.fst) :
    (d.nextOf r).isSome :=
  h.forwards.isSome r hr

theorem nodup_reverse (h : Represents d m cells) : (d.root :: (cells.map Prod.fst).reverse).Nodup := by
  rw [List.nodup_cons, List.mem_reverse, List.nodup_reverse, ← List.nodup_cons]
  exact h.nodup

theorem mem_dict (h : Represents d m cells) : k ∈ d.dict ↔ k ∈ m.keys := by
  rw [Finmap.mem_iff, OrderedMap.mem_keys]
  simp [h.dict]

/-- The cells split at a key. -/
theorem exists_cell (h : Represents d m cells) (hk : k ∈ m.keys) : ∃ xs r ys, cells = xs ++ (r, k) :: ys := by
  rw [h.keys] at hk
  obtain ⟨⟨r, j⟩, hc, rfl⟩ := List.mem_map.mp hk
  obtain ⟨xs, ys, he⟩ := List.append_of_mem hc
  exact ⟨xs, r, ys, he⟩

theorem mem_keys (h : Represents d m (xs ++ (r, k) :: ys)) : k ∈ m.keys := by
  simp [h.keys]

/-- The links around a cell. -/
theorem neighbours (h : Represents d m (xs ++ (r, k) :: ys)) :
    ∃ l, d.links r = some l ∧ l.key = some k ∧ l.prev = (d.root :: xs.map Prod.fst).getLast (by simp) ∧
      l.next = (d.root :: (ys.map Prod.fst).reverse).getLast (by simp) := by
  have hf := h.forwards
  have hb := h.backwards
  rw [List.map_append, List.map_cons] at hf hb
  rw [List.reverse_append, List.reverse_cons, List.append_assoc, List.singleton_append] at hb
  have hnext := (path_append.mp hf).2
  have hprev := (path_append.mp hb).2
  obtain ⟨l, hl, hln, hlp, hlk⟩ := exists_link (hnext.isSome r (by simp))
  rw [h.key (r, k) (by simp)] at hlk
  rw [hprev.head_reverse] at hlp
  rw [← List.reverse_reverse (ys.map Prod.fst)] at hnext
  rw [hnext.head_reverse] at hln
  exact ⟨l, hl, hlk.symm, (Option.some.inj hlp).symm, (Option.some.inj hln).symm⟩

theorem isSome_prev (h : Represents d m (xs ++ (r, k) :: ys)) (hl : d.links r = some l) :
    (d.nextOf l.prev).isSome := by
  obtain ⟨t, ht, -, htp, -⟩ := h.neighbours
  obtain rfl : l = t := Option.some.inj (hl.symm.trans ht)
  apply h.isSome_nextOf
  rw [htp, List.map_append, ← List.cons_append]
  exact List.mem_append_left _ (List.getLast_mem _)

theorem isSome_next (h : Represents d m (xs ++ (r, k) :: ys)) (hl : d.links r = some l) :
    (d.nextOf l.next).isSome := by
  obtain ⟨t, ht, -, -, htn⟩ := h.neighbours
  obtain rfl : l = t := Option.some.inj (hl.symm.trans ht)
  apply h.isSome_nextOf
  have hlast := List.getLast_mem (l := d.root :: (ys.map Prod.fst).reverse) (by simp)
  rw [← htn] at hlast
  simp only [List.mem_cons, List.mem_reverse, List.map_append, List.map_cons, List.mem_append] at hlast ⊢
  tauto

/-- A link taken out of the list and of both dictionaries. -/
theorem remove (h : Represents d m (xs ++ (r, k) :: ys)) (hl : d.links r = some l) :
    Represents { d.relink l.prev l.next l.next l.prev with dict := d.dict.erase k, map := d.map.erase k }
      (m.erase k) (xs ++ ys) := by
  obtain ⟨t, ht, -, htp, htn⟩ := h.neighbours
  obtain rfl : l = t := Option.some.inj (hl.symm.trans ht)
  have hnext : d.nextOf r = some l.next := by simp [nextOf, hl]
  have hprev : d.prevOf r = some l.prev := by simp [prevOf, hl]
  have hmem : ∀ c ∈ xs ++ ys, c ∈ xs ++ (r, k) :: ys := by
    intro c hc
    simp only [List.mem_append, List.mem_cons] at hc ⊢
    tauto
  have hsub : (d.root :: (xs ++ ys).map Prod.fst).Sublist (d.root :: (xs ++ (r, k) :: ys).map Prod.fst) := by
    simp
  have hkeys := m.nodup_keys
  rw [h.keys, List.map_append, List.map_cons] at hkeys
  have hk : k ∉ (xs ++ ys).map Prod.snd := by
    rw [List.map_append]
    exact fun hc => (List.nodup_middle.mp hkeys).notMem hc
  constructor
  case forwards =>
    have hf := h.forwards
    have hn := h.nodup
    rw [List.map_append, List.map_cons] at hf hn
    have hskip := hf.skip hn
    rw [← htp, hnext, ← nextOf_relink (h.isSome_prev hl)] at hskip
    rwa [List.map_append]
  case backwards =>
    have hb := h.backwards
    have hn := h.nodup_reverse
    rw [List.map_append, List.map_cons, List.reverse_append, List.reverse_cons, List.append_assoc,
      List.singleton_append] at hb hn
    have hskip := hb.skip hn
    rw [← htn, hprev, ← prevOf_relink (h.isSome_next hl)] at hskip
    rwa [List.map_append, List.reverse_append]
  case nodup => exact h.nodup.sublist hsub
  case bound => exact fun q hq => h.bound q (hsub.subset hq)
  case key =>
    intro c hc
    rw [← h.key c (hmem c hc)]
    exact keyOf_relink
  case keys =>
    rw [OrderedMap.keys_erase, h.keys]
    have hfilter : ∀ c ∈ (xs ++ ys).map Prod.snd, c ≠ k := fun c hc he => hk (he ▸ hc)
    simp only [List.map_append, List.mem_append] at hfilter ⊢
    simp only [List.map_cons, List.filter_append, List.filter_cons, ne_eq, not_true_eq_false, decide_false]
    rw [List.filter_eq_self.mpr fun c hc => by simpa using hfilter c (.inl hc)]
    rw [List.filter_eq_self.mpr fun c hc => by simpa using hfilter c (.inr hc)]
    simp
  case map =>
    intro j q
    by_cases hj : j = k
    · subst hj
      have hq : (q, j) ∉ xs ++ ys := fun hc => hk (List.mem_map.mpr ⟨_, hc, rfl⟩)
      simp [hq]
    · show (d.map.erase k).lookup j = some q ↔ _
      rw [Finmap.lookup_erase_ne hj, h.map]
      simp [hj]
  case dict =>
    intro j
    rw [OrderedMap.lookup_erase]
    by_cases hj : j = k
    · rw [if_pos hj, hj]
      exact Finmap.lookup_erase k d.dict
    · show (d.dict.erase k).lookup j = _
      rw [Finmap.lookup_erase_ne hj, h.dict, if_neg hj]

theorem fresh_notMem (h : Represents d m cells) : d.fresh ∉ d.root :: cells.map Prod.fst :=
  fun hf => Nat.lt_irrefl _ (h.bound _ hf)

theorem isSome_withNew (h : Represents d m cells) (hr : r ∈ d.root :: cells.map Prod.fst) :
    ((d.withNew l).nextOf r).isSome := by
  have hne : r ≠ d.fresh := fun he => h.fresh_notMem (he ▸ hr)
  rw [nextOf_withNew, Function.update_of_ne hne]
  exact h.isSome_nextOf hr

/-- The link before the sentinel. -/
theorem last (h : Represents d m cells) : ∃ l, d.links d.root = some l ∧
    l.prev = (d.root :: cells.map Prod.fst).getLast (by simp) := by
  obtain ⟨l, hl, -, hlp, -⟩ := exists_link (h.isSome_nextOf List.mem_cons_self)
  rw [h.backwards.head_reverse] at hlp
  exact ⟨l, hl, (Option.some.inj hlp).symm⟩

theorem last_mem (h : Represents d m cells) (hl : d.links d.root = some l) :
    l.prev ∈ d.root :: cells.map Prod.fst := by
  obtain ⟨t, ht, htp⟩ := h.last
  obtain rfl : l = t := Option.some.inj (hl.symm.trans ht)
  rw [htp]
  exact List.getLast_mem _

/-- A new link at the end of the list. -/
theorem insert (h : Represents d m cells) (hk : k ∉ m.keys) (v : V) (hl : d.links d.root = some l) :
    Represents
      { (d.withNew ⟨l.prev, d.root, some k⟩).relink l.prev d.fresh d.root d.fresh with
        dict := d.dict.insert k v, map := d.map.insert k d.fresh } (m.set k v) (cells ++ [(d.fresh, k)]) := by
  obtain ⟨t, ht, htp⟩ := h.last
  obtain rfl : l = t := Option.some.inj (hl.symm.trans ht)
  constructor
  case forwards =>
    have hnext : ((d.withNew ⟨l.prev, d.root, some k⟩).relink l.prev d.fresh d.root d.fresh).nextOf =
        Function.update (Function.update d.nextOf d.fresh (some d.root)) l.prev (some d.fresh) := by
      rw [nextOf_relink (h.isSome_withNew (h.last_mem hl)), nextOf_withNew]
    have hsnoc := h.forwards.snoc h.nodup h.fresh_notMem
    rw [← htp, ← hnext] at hsnoc
    rwa [List.map_append]
  case backwards =>
    have hprev : ((d.withNew ⟨l.prev, d.root, some k⟩).relink l.prev d.fresh d.root d.fresh).prevOf =
        Function.update (Function.update d.prevOf d.fresh (d.prevOf d.root)) d.root (some d.fresh) := by
      rw [prevOf_relink (h.isSome_withNew List.mem_cons_self), prevOf_withNew, prevOf, hl]
      rfl
    have henter := h.backwards.enter h.nodup_reverse (c := d.fresh) (by simpa using h.fresh_notMem)
    rw [← hprev] at henter
    rwa [List.map_append, List.reverse_append]
  case nodup =>
    rw [List.map_append, ← List.cons_append, List.nodup_append]
    refine ⟨h.nodup, by simp, fun q hq c hc => ?_⟩
    obtain rfl : c = d.fresh := by simpa using hc
    exact fun he => h.fresh_notMem (he ▸ hq)
  case bound =>
    intro r hr
    rw [List.map_append, ← List.cons_append, List.mem_append] at hr
    rcases hr with hr | hr
    · exact Nat.lt_succ_of_lt (h.bound r hr)
    · obtain rfl : r = d.fresh := by simpa using hr
      exact Nat.lt_succ_self _
  case key =>
    intro c hc
    apply keyOf_relink.trans
    rcases List.mem_append.mp hc with hc | hc
    · have hne : c.1 ≠ d.fresh := fun he =>
        h.fresh_notMem (he ▸ List.mem_cons_of_mem _ (List.mem_map_of_mem hc))
      rw [← h.key c hc]
      simp [keyOf, withNew, hne]
    · obtain rfl : c = (d.fresh, k) := by simpa using hc
      simp [keyOf, withNew]
  case keys =>
    rw [OrderedMap.keys_set, if_neg hk, h.keys]
    simp
  case map =>
    intro j q
    show (d.map.insert k d.fresh).lookup j = some q ↔ _
    rw [List.mem_append, List.mem_singleton, Prod.mk.injEq]
    by_cases hj : j = k
    · have hnot : (q, j) ∉ cells := fun hc => hk (by
        rw [h.keys, ← hj]
        exact List.mem_map.mpr ⟨_, hc, rfl⟩)
      rw [hj] at hnot ⊢
      simp [Finmap.lookup_insert, hnot, eq_comm]
    · rw [Finmap.lookup_insert_of_ne _ hj, h.map]
      simp [hj]
  case dict =>
    intro j
    rw [OrderedMap.lookup_set]
    by_cases hj : j = k
    · rw [if_pos hj, hj]
      exact Finmap.lookup_insert d.dict
    · show (d.dict.insert k v).lookup j = _
      rw [Finmap.lookup_insert_of_ne _ hj, h.dict, if_neg hj]

/-- A new value for a key that is there. -/
theorem assign (h : Represents d m cells) (hk : k ∈ m.keys) (v : V) :
    Represents { d with dict := d.dict.insert k v } (m.set k v) cells where
  forwards := h.forwards
  backwards := h.backwards
  nodup := h.nodup
  bound := h.bound
  key := h.key
  keys := by rw [OrderedMap.keys_set, if_pos hk, h.keys]
  map := h.map
  dict := by
    intro j
    rw [OrderedMap.lookup_set]
    by_cases hj : j = k
    · rw [if_pos hj, hj]
      exact Finmap.lookup_insert d.dict
    · show (d.dict.insert k v).lookup j = _
      rw [Finmap.lookup_insert_of_ne _ hj, h.dict, if_neg hj]

/-- There are fewer cells than links. -/
theorem length_lt (h : Represents d m cells) : cells.length < d.fresh := by
  have hcard := Finset.card_le_card (s := (d.root :: cells.map Prod.fst).toFinset) (t := Finset.range d.fresh) <| by
    intro r hr
    exact Finset.mem_range.mpr (h.bound r (List.mem_toFinset.mp hr))
  rw [List.toFinset_card_of_nodup h.nodup, Finset.card_range, List.length_cons, List.length_map] at hcard
  exact hcard

theorem len_eq (h : Represents d m cells) : d.len = m.entries.length := by
  have hkeys : d.dict.keys = m.keys.toFinset := by
    ext k
    rw [Finmap.mem_keys, h.mem_dict, List.mem_toFinset]
  have hcard := congrArg Finset.card hkeys
  rw [List.toFinset_card_of_nodup m.nodup_keys] at hcard
  simpa [len, Finmap.keys, OrderedMap.keys, Multiset.keys] using hcard

theorem len_eq_zero (h : Represents d m cells) : d.len = 0 ↔ cells = [] := by
  have hlen := congrArg List.length h.keys
  rw [h.len_eq, ← List.length_eq_zero_iff]
  simp only [OrderedMap.keys, List.length_map] at hlen
  rw [hlen]

theorem getItem_eq (h : Represents d m cells) (hv : m.lookup k = some v) : getItem k d = (.returned v, d) := by
  have hd : d.dict.lookup k = some v := by rw [h.dict, hv]
  simp [getItem, bind_apply, hd]

theorem getItem_missing (h : Represents d m cells) (hk : k ∉ m.keys) :
    getItem k d = (.raised (.keyError k), d) := by
  have hd : d.dict.lookup k = none := by rw [h.dict, OrderedMap.lookup_eq_none.mpr hk]
  simp [getItem, bind_apply, hd]

end Represents

/-! ## The methods -/

theorem appendLink_apply (h : Represents d m cells) (k : κ) (hl : d.links d.root = some l) :
    appendLink k d = (.returned (),
      { (d.withNew ⟨l.prev, d.root, some k⟩).relink l.prev d.fresh d.root d.fresh with
        map := d.map.insert k d.fresh }) := by
  have hnew : newLink ⟨l.prev, d.root, some k⟩ d = (.returned d.fresh, d.withNew ⟨l.prev, d.root, some k⟩) := rfl
  obtain ⟨d', hset, hback⟩ := setNext_setPrev
    (h.isSome_withNew (l := ⟨l.prev, d.root, some k⟩) (h.last_mem hl)) (h.isSome_withNew List.mem_cons_self)
    d.fresh d.fresh
  rw [appendLink, bind_of_returned (read_apply d), bind_of_returned (linkAt_of_some hl), bind_of_returned hnew,
    bind_of_returned hset, bind_of_returned hback, modify_apply]
  rfl

theorem setItem_spec (h : Represents d m cells) (k : κ) (v : V) : ∃ d', setItem k v d = (.returned (), d') ∧
    Represents d' (m.set k v) (if k ∈ m.keys then cells else cells ++ [(d.fresh, k)]) ∧ Later d d' := by
  rw [setItem, bind_of_returned (read_apply d)]
  by_cases hk : k ∈ m.keys
  · rw [if_pos hk, if_neg (not_not.mpr (h.mem_dict.mpr hk))]
    exact ⟨_, rfl, h.assign hk v, rfl, le_refl _, fun _ _ hn => hn⟩
  · obtain ⟨l, hl, hlp⟩ := h.last
    rw [if_neg hk, if_pos (h.mem_dict.not.mpr hk), bind_of_returned (appendLink_apply h k hl)]
    have hlater := (later_withNew d ⟨l.prev, d.root, some k⟩).trans (later_relink _ l.prev d.fresh d.root d.fresh)
    exact ⟨_, rfl, h.insert hk v hl, hlater.root, hlater.fresh, hlater.emptied⟩

/-- `dict.pop`, of a key that is there. -/
theorem dictPop_apply (h : d.dict.lookup k = some v) :
    dictPop k d = (.returned v, { d with dict := d.dict.erase k }) := by
  have hget : getItem k d = (.returned v, d) := by simp [getItem, bind_apply, h]
  rw [dictPop, bind_of_returned hget]
  rfl

theorem mapPop_apply (h : d.map.lookup k = some r) :
    mapPop k d = (.returned r, { d with map := d.map.erase k }) := by
  simp [mapPop, bind_apply, h]

/-- The dictionary without a link; the link still leads on. -/
theorem delItem_spec (h : Represents d m (xs ++ (r, k) :: ys)) : ∃ d', delItem k d = (.returned (), d') ∧
    Represents d' (m.erase k) (xs ++ ys) ∧ Later d d' ∧ d'.nextOf r = d.nextOf r := by
  obtain ⟨l, hl, -, hlp, -⟩ := h.neighbours
  obtain ⟨v, hv⟩ := Finmap.mem_iff.mp (h.mem_dict.mpr h.mem_keys)
  have hmap : d.map.lookup k = some r := (h.map k r).mpr (by simp)
  obtain ⟨d', hset, hback⟩ := setNext_setPrev
    (d := { d with dict := d.dict.erase k, map := d.map.erase k }) (h.isSome_prev hl) (h.isSome_next hl)
    l.next l.prev
  have hlater := later_relink d l.prev l.next l.next l.prev
  refine ⟨_, ?_, h.remove hl, ⟨hlater.root, hlater.fresh, hlater.emptied⟩, ?_⟩
  · have hpop := mapPop_apply (d := { d with dict := d.dict.erase k }) hmap
    have hunpack := unpack_of_some (d := { d with dict := d.dict.erase k, map := d.map.erase k }) hl
    rw [delItem, bind_of_returned (dictPop_apply hv), bind_of_returned hpop, bind_of_returned hunpack,
      bind_of_returned hset, hback]
    rfl
  · have hne : r ≠ l.prev := by
      have hn := h.nodup
      rw [List.map_append, List.map_cons, ← List.cons_append] at hn
      intro he
      rw [hlp] at he
      exact (List.nodup_append.mp hn).2.2 _ (List.getLast_mem _) r List.mem_cons_self he.symm
    show (d.relink l.prev l.next l.next l.prev).nextOf r = _
    rw [nextOf_relink (h.isSome_prev hl), Function.update_of_ne hne]

theorem dictPop_missing (h : Represents d m cells) (hk : k ∉ m.keys) :
    dictPop k d = (.raised (.keyError k), d) := by
  rw [dictPop, bind_apply, h.getItem_missing hk, andThen_raised]

theorem delItem_missing (h : Represents d m cells) (hk : k ∉ m.keys) :
    delItem k d = (.raised (.keyError k), d) := by
  rw [delItem, bind_apply, dictPop_missing h hk, andThen_raised]

theorem takeLast_apply (h : Represents d m (xs ++ [(r, k)])) (hl : d.links r = some l) :
    takeLast d = (.returned r, d.relink l.prev l.next l.next l.prev) := by
  obtain ⟨t, ht, -, -, htn⟩ := h.neighbours
  obtain rfl : l = t := Option.some.inj (hl.symm.trans ht)
  obtain ⟨lr, hlr, hlast⟩ := h.last
  obtain rfl : lr.prev = r := by simpa using hlast
  obtain ⟨d', hset, hback⟩ := setNext_setPrev (h.isSome_prev hl) (h.isSome_next hl) l.next l.prev
  obtain hroot : l.next = d.root := by simpa using htn
  rw [hroot] at hset hback
  rw [takeLast, bind_of_returned (read_apply d), bind_of_returned (linkAt_of_some hlr),
    bind_of_returned (linkAt_of_some hl), bind_of_returned hset, bind_of_returned hback, hroot]
  rfl

theorem takeFirst_apply (h : Represents d m ((r, k) :: ys)) (hl : d.links r = some l) :
    takeFirst d = (.returned r, d.relink l.prev l.next l.next l.prev) := by
  have h' : Represents d m ([] ++ (r, k) :: ys) := h
  obtain ⟨t, ht, -, htp, -⟩ := h'.neighbours
  obtain rfl : l = t := Option.some.inj (hl.symm.trans ht)
  obtain ⟨lr, hlr, hnext, -⟩ := exists_link (h.isSome_nextOf List.mem_cons_self)
  obtain rfl : lr.next = r := by
    have hfirst := h.forwards.1
    rw [hnext] at hfirst
    exact Option.some.inj hfirst
  obtain ⟨d', hset, hback⟩ := setNext_setPrev (h'.isSome_prev hl) (h'.isSome_next hl) l.next l.prev
  obtain hroot : l.prev = d.root := by simpa using htp
  rw [hroot] at hset hback
  rw [takeFirst, bind_of_returned (read_apply d), bind_of_returned (linkAt_of_some hlr),
    bind_of_returned (linkAt_of_some hl), bind_of_returned hset, bind_of_returned hback, hroot]
  rfl

/-- `popitem`, of the last item or of the first. -/
theorem popitem_spec {last : Bool} (h : Represents d m (xs ++ (r, k) :: ys))
    (hlast : if last then ys = [] else xs = []) (hv : m.lookup k = some v) :
    ∃ d', popitem last d = (.returned (k, v), d') ∧ Represents d' (m.erase k) (xs ++ ys) ∧ Later d d' := by
  obtain ⟨l, hl, -⟩ := h.neighbours
  have hlen : d.len ≠ 0 := fun hd => by simpa using h.len_eq_zero.mp hd
  have htake : takeLink last d = (.returned r, d.relink l.prev l.next l.next l.prev) := by
    cases last with
    | true =>
      obtain rfl : ys = [] := by simpa using hlast
      exact takeLast_apply h hl
    | false =>
      obtain rfl : xs = [] := by simpa using hlast
      exact takeFirst_apply h hl
  have hkey : (d.relink l.prev l.next l.next l.prev).keyOf r = some k := by
    rw [keyOf_relink]
    exact h.key (r, k) (by simp)
  have hmap : d.map.lookup k = some r := (h.map k r).mpr (by simp)
  have hdict : d.dict.lookup k = some v := by rw [h.dict, hv]
  have hlater := later_relink d l.prev l.next l.next l.prev
  refine ⟨_, ?_, h.remove hl, hlater.root, hlater.fresh, hlater.emptied⟩
  rw [popitem, bind_of_returned (read_apply d), if_neg hlen, bind_of_returned htake,
    bind_of_returned (keyAt_apply hkey),
    bind_of_returned (mapPop_apply (d := d.relink l.prev l.next l.next l.prev) hmap)]
  exact bind_of_returned (dictPop_apply (d := { d.relink l.prev l.next l.next l.prev with map := d.map.erase k }) hdict) _

theorem popitem_empty {last : Bool} (h : Represents d m []) : popitem last d = (.raised .noItem, d) := by
  rw [popitem, bind_of_returned (read_apply d), if_pos (h.len_eq_zero.mpr rfl), raise_apply]

/-- `clear` starts again, and the links that there were are emptied. -/
theorem clear_spec (h : Represents d m cells) : ∃ d', clear d = (.returned (), d') ∧
    Represents d' .empty [] ∧ Later d d' ∧ ∀ c ∈ cells, d'.links c.1 = none := by
  refine ⟨_, rfl, ?_, ⟨rfl, le_refl _, ?_⟩, ?_⟩
  · constructor <;> simp [nextOf, prevOf, OrderedMap.empty, OrderedMap.keys, OrderedMap.lookup]
    exact h.bound d.root List.mem_cons_self
  · intro i _ hn
    obtain ⟨l, hl, -⟩ := h.last
    have hroot : i ≠ d.root := fun he => by simp [he, hl] at hn
    simp [hroot, emptied, hn]
  · intro c hc
    have hroot : c.1 ≠ d.root := fun he =>
      (List.nodup_cons.mp h.nodup).1 (he ▸ List.mem_map_of_mem hc)
    have hmem : c.1 ∈ d.map.entries.map Sigma.snd :=
      Multiset.mem_map.mpr ⟨⟨c.2, c.1⟩, Finmap.lookup_eq_some_iff.mp ((h.map c.2 c.1).mpr hc), rfl⟩
    simp [hroot, emptied, hmem]

theorem pop_spec (h : Represents d m (xs ++ (r, k) :: ys)) (hv : m.lookup k = some v) (default : Option V) :
    ∃ d', pop k default d = (.returned v, d') ∧ Represents d' (m.erase k) (xs ++ ys) ∧ Later d d' := by
  obtain ⟨d', hdel, h', hlater, -⟩ := delItem_spec h
  refine ⟨d', ?_, h', hlater⟩
  unfold pop
  rw [bind_of_returned (read_apply d), if_pos (h.mem_dict.mpr h.mem_keys), bind_of_returned (h.getItem_eq hv),
    bind_of_returned hdel]
  rfl

theorem pop_missing (h : Represents d m cells) (hk : k ∉ m.keys) (default : Option V) :
    pop k default d = (default.elim (.raised (.keyError k)) .returned, d) := by
  unfold pop
  rw [bind_of_returned (read_apply d), if_neg (h.mem_dict.not.mpr hk)]
  cases default <;> rfl

theorem setdefault_spec (h : Represents d m cells) (hv : m.lookup k = some v) (default : V) :
    setdefault k default d = (.returned v, d) := by
  have hk := OrderedMap.mem_keys.mpr ⟨v, hv⟩
  rw [setdefault, bind_of_returned (read_apply d), if_pos (h.mem_dict.mpr hk), h.getItem_eq hv]

theorem setdefault_missing (h : Represents d m cells) (hk : k ∉ m.keys) (default : V) :
    ∃ d', setdefault k default d = (.returned default, d') ∧
      Represents d' (m.set k default) (cells ++ [(d.fresh, k)]) ∧ Later d d' := by
  obtain ⟨d', hset, h', hlater⟩ := setItem_spec h k default
  rw [if_neg hk] at h'
  refine ⟨d', ?_, h', hlater⟩
  rw [setdefault, bind_of_returned (read_apply d), if_neg (h.mem_dict.not.mpr hk), bind_of_returned hset]
  rfl

/-! ## What is read off -/

theorem Represents.cell (h : Represents d m cells) {c : Nat × κ} (hc : c ∈ cells) :
    c.1 ≠ d.root ∧ d.keyOf c.1 = some c.2 := by
  refine ⟨fun he => (List.nodup_cons.mp h.nodup).1 (he ▸ List.mem_map_of_mem hc), h.key c hc⟩

/-- A reading loop forwards. -/
theorem collect_next {body : κ → DictProg κ V β} {bs : List β} (h : Represents d m cells)
    (hbody : List.Forall₂ (fun k b => body k d = (.returned b, d)) m.keys bs) :
    collect Link.next body d = (.returned bs, d) := by
  rw [h.keys, List.forall₂_map_left_iff] at hbody
  rw [collect, bind_of_returned (read_apply d)]
  exact forEach_spec h.forwards (fun c hc => h.cell hc) hbody (Nat.lt_succ_of_lt h.length_lt)

/-- A reading loop backwards. -/
theorem collect_prev {body : κ → DictProg κ V β} {bs : List β} (h : Represents d m cells)
    (hbody : List.Forall₂ (fun k b => body k d = (.returned b, d)) m.keys.reverse bs) :
    collect Link.prev body d = (.returned bs, d) := by
  have hp := h.backwards
  rw [← List.map_reverse] at hp
  rw [h.keys, ← List.map_reverse, List.forall₂_map_left_iff] at hbody
  have hfuel : cells.reverse.length < d.fresh + 1 := by
    simpa using Nat.lt_succ_of_lt h.length_lt
  rw [collect, bind_of_returned (read_apply d)]
  exact forEach_spec hp (fun c hc => h.cell (List.mem_reverse.mp hc)) hbody hfuel

theorem keys_spec (h : Represents d m cells) : keys d = (.returned m.keys, d) := by
  apply collect_next h
  exact List.forall₂_same.mpr fun k _ => rfl

theorem reversed_spec (h : Represents d m cells) : reversed d = (.returned m.keys.reverse, d) := by
  apply collect_prev h
  exact List.forall₂_same.mpr fun k _ => rfl

theorem items_spec (h : Represents d m cells) : items d = (.returned m.entries, d) := by
  apply collect_next h
  rw [OrderedMap.keys, List.forall₂_map_left_iff, List.forall₂_same]
  intro e he
  rw [bind_of_returned (h.getItem_eq (OrderedMap.lookup_eq_some.mpr he))]
  rfl

theorem values_spec (h : Represents d m cells) : values d = (.returned m.values, d) := by
  apply collect_next h
  rw [OrderedMap.keys, OrderedMap.values, List.forall₂_map_left_iff, List.forall₂_map_right_iff, List.forall₂_same]
  intro e he
  exact h.getItem_eq (OrderedMap.lookup_eq_some.mpr he)

end Monary.OrderedDict
