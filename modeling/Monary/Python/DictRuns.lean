import Monary.Python.DictInvariant
import Monary.Python.Queries

/-!
# Runs of an ordered dictionary

* `DictCall` : the calls of its methods; `runCall` : what the code does;
  `callMeaning` : what the call means of a map that remembers the order of insertion;
* `run_spec` : the code does what the call means, and every link whose key stays is kept;
* `DictAct`, `actStep` : the dictionary with a suspended generator over its keys, forwards or backwards;
  `meaningStep` : what that is of a map and of the key the generator stands at;
* `actRun_eq` : the two agree over every run that does not take the generator's key away;
* `callRun_eq` : so they do over the calls alone;
* `forEach_deleteIf` : a loop that deletes keys as it visits them;
* `copyOf_spec`, `eqOrdered_spec`, `dict_eq_iff` : two dictionaries; `foldl_dictSet` : the dictionaries of the
  queries.
-/

namespace Monary
open Effect Linked OrderedDict

variable {κ V β : Type}

inductive DictCall (κ V : Type) where
  | setItem (key : κ) (value : V)
  | delItem (key : κ)
  | popitem (last : Bool)
  | pop (key : κ) (default : Option V)
  | setdefault (key : κ) (default : V)
  | update (ps : List (κ × V))
  | clear
  | getItem (key : κ)
  | contains (key : κ)
  | len
  | keys
  | reversed
  | values
  | items

inductive DictResult (κ V : Type) where
  | none
  | value (v : V)
  | item (k : κ) (v : V)
  | bool (b : Bool)
  | size (n : Nat)
  | keys (ks : List κ)
  | values (vs : List V)
  | items (ps : List (κ × V))
  deriving DecidableEq

def dictOutcome : Except (DictExn κ) β → Outcome (DictExn κ) Empty DictFault β
  | .ok b => .returned b
  | .error e => .raised e

variable [DecidableEq κ]

def runCall : DictCall κ V → DictProg κ V (DictResult κ V)
  | .setItem key value => do setItem key value; pure .none
  | .delItem key => do delItem key; pure .none
  | .popitem last => do
    let p ← popitem last
    pure (.item p.1 p.2)
  | .pop key default => do
    let v ← OrderedDict.pop key default
    pure (.value v)
  | .setdefault key default => do
    let v ← setdefault key default
    pure (.value v)
  | .update ps => do update ps; pure .none
  | .clear => do clear; pure .none
  | .getItem key => do
    let v ← getItem key
    pure (.value v)
  | .contains key => do
    let d ← read
    pure (.bool (key ∈ d.dict))
  | .len => do
    let d ← read
    pure (.size d.len)
  | .keys => do
    let ks ← OrderedDict.keys
    pure (.keys ks)
  | .reversed => do
    let ks ← reversed
    pure (.keys ks)
  | .values => do
    let vs ← values
    pure (.values vs)
  | .items => do
    let ps ← items
    pure (.items ps)

/-- The item that `popitem` is about. -/
def lastItem (m : OrderedMap κ V) (last : Bool) : Option (κ × V) :=
  if last then m.entries.getLast? else m.entries.head?

def callMeaning (m : OrderedMap κ V) : DictCall κ V → Except (DictExn κ) (DictResult κ V) × OrderedMap κ V
  | .setItem key value => (.ok .none, m.set key value)
  | .delItem key => if key ∈ m.keys then (.ok .none, m.erase key) else (.error (.keyError key), m)
  | .popitem last =>
    match lastItem m last with
    | some (k, v) => (.ok (.item k v), m.erase k)
    | none => (.error .noItem, m)
  | .pop key default =>
    match m.lookup key with
    | some v => (.ok (.value v), m.erase key)
    | none => (default.elim (.error (.keyError key)) fun v => .ok (.value v), m)
  | .setdefault key default =>
    match m.lookup key with
    | some v => (.ok (.value v), m)
    | none => (.ok (.value default), m.set key default)
  | .update ps => (.ok .none, m.update ps)
  | .clear => (.ok .none, .empty)
  | .getItem key =>
    match m.lookup key with
    | some v => (.ok (.value v), m)
    | none => (.error (.keyError key), m)
  | .contains key => (.ok (.bool (key ∈ m.keys)), m)
  | .len => (.ok (.size m.entries.length), m)
  | .keys => (.ok (.keys m.keys), m)
  | .reversed => (.ok (.keys m.keys.reverse), m)
  | .values => (.ok (.values m.values), m)
  | .items => (.ok (.items m.entries), m)

variable {d : OrderedDict κ V} {m : OrderedMap κ V} {cells xs ys : List (Nat × κ)} {r : Nat} {k : κ} {v : V}

theorem update_spec (h : Represents d m cells) (ps : List (κ × V)) :
    ∃ d' cells', update ps d = (.returned (), d') ∧ Represents d' (m.update ps) cells' ∧ Later d d' ∧
      cells ⊆ cells' := by
  induction ps generalizing d m cells with
  | nil => exact ⟨d, cells, rfl, h, .refl d, fun _ hc => hc⟩
  | cons p ps ih =>
    obtain ⟨d', hset, h', hlater⟩ := setItem_spec h p.1 p.2
    obtain ⟨d'', cells'', hups, h'', hlater', hsub⟩ := ih h'
    refine ⟨d'', cells'', ?_, h'', hlater.trans hlater', fun c hc => hsub ?_⟩
    · rw [update, bind_of_returned hset, hups]
    · split
      · exact hc
      · exact List.mem_append_left _ hc

/-- A call does what it means; the links of the keys that stay are kept. -/
def Meets (d : OrderedDict κ V) (m : OrderedMap κ V) (cells : List (Nat × κ)) (c : DictCall κ V) : Prop :=
  ∃ d' cells', runCall c d = (dictOutcome (callMeaning m c).1, d') ∧ Represents d' (callMeaning m c).2 cells' ∧ Later d d' ∧
    ∀ cell ∈ cells, cell.2 ∈ (callMeaning m c).2.keys → cell ∈ cells'

/-- A call that changes nothing. -/
theorem meets_of_eq (h : Represents d m cells) {c : DictCall κ V} (hm : (callMeaning m c).2 = m)
    (hrun : runCall c d = (dictOutcome (callMeaning m c).1, d)) : Meets d m cells c :=
  ⟨d, cells, hrun, by rwa [hm], .refl d, fun _ hc _ => hc⟩

theorem mem_of_erase {c : Nat × κ} (hc : c ∈ xs ++ (r, k) :: ys) (hk : c.2 ∈ (m.erase k).keys) : c ∈ xs ++ ys := by
  rw [OrderedMap.keys_erase, List.mem_filter] at hk
  have hne : c ≠ (r, k) := fun he => by simp [he] at hk
  simpa [hne] using hc

/-- A call that takes the key `k` away. -/
theorem meets_of_erase {c : DictCall κ V} {d' : OrderedDict κ V} {b : DictResult κ V}
    (hm : callMeaning m c = (.ok b, m.erase k)) (hrun : runCall c d = (.returned b, d'))
    (h' : Represents d' (m.erase k) (xs ++ ys)) (hlater : Later d d') : Meets d m (xs ++ (r, k) :: ys) c := by
  refine ⟨d', xs ++ ys, ?_, ?_, hlater, ?_⟩
  · rw [hm, hrun]
    rfl
  · rwa [hm]
  · rw [hm]
    exact fun c hc hk => mem_of_erase hc hk

theorem meets_setItem (h : Represents d m cells) (k : κ) (v : V) : Meets d m cells (.setItem k v) := by
  obtain ⟨d', hset, h', hlater⟩ := setItem_spec h k v
  refine ⟨d', _, ?_, h', hlater, fun c hc _ => ?_⟩
  · rw [runCall, bind_of_returned hset]
    rfl
  · split
    · exact hc
    · exact List.mem_append_left _ hc

theorem meets_delItem (h : Represents d m cells) (k : κ) : Meets d m cells (.delItem k) := by
  by_cases hk : k ∈ m.keys
  · obtain ⟨xs, r, ys, rfl⟩ := h.exists_cell hk
    obtain ⟨d', hdel, h', hlater, -⟩ := delItem_spec h
    apply meets_of_erase (by rw [callMeaning, if_pos hk]) _ h' hlater
    rw [runCall, bind_of_returned hdel]
    rfl
  · have hm : callMeaning m (DictCall.delItem k) = (.error (.keyError k), m) := by rw [callMeaning, if_neg hk]
    apply meets_of_eq h (by rw [hm])
    rw [hm, runCall, bind_apply, delItem_missing h hk]
    rfl

theorem meets_pop (h : Represents d m cells) (k : κ) (default : Option V) : Meets d m cells (.pop k default) := by
  cases hv : m.lookup k with
  | some v =>
    obtain ⟨xs, r, ys, rfl⟩ := h.exists_cell (OrderedMap.mem_keys.mpr ⟨v, hv⟩)
    obtain ⟨d', hpop, h', hlater⟩ := pop_spec h hv default
    apply meets_of_erase (by rw [callMeaning, hv]) _ h' hlater
    rw [runCall, bind_of_returned hpop]
    rfl
  | none =>
    apply meets_of_eq h (by rw [callMeaning, hv])
    rw [runCall, bind_apply, pop_missing h (OrderedMap.lookup_eq_none.mp hv), callMeaning, hv]
    cases default <;> rfl

theorem meets_setdefault (h : Represents d m cells) (k : κ) (default : V) :
    Meets d m cells (.setdefault k default) := by
  cases hv : m.lookup k with
  | some v =>
    apply meets_of_eq h (by rw [callMeaning, hv])
    rw [runCall, bind_of_returned (setdefault_spec h hv default), callMeaning, hv]
    rfl
  | none =>
    obtain ⟨d', hset, h', hlater⟩ := setdefault_missing h (OrderedMap.lookup_eq_none.mp hv) default
    have hm : callMeaning m (DictCall.setdefault k default) = (.ok (.value default), m.set k default) := by
      rw [callMeaning, hv]
    refine ⟨d', _, ?_, by rwa [hm], hlater, fun c hc _ => List.mem_append_left _ hc⟩
    rw [hm, runCall, bind_of_returned hset]
    rfl

/-- The item that `popitem` is about, and its cell. -/
theorem exists_lastItem {last : Bool} (h : Represents d m cells) (hi : lastItem m last = some (k, v)) :
    m.lookup k = some v ∧ ∃ xs r ys, cells = xs ++ (r, k) :: ys ∧ if last then ys = [] else xs = [] := by
  have hk := h.keys
  cases last with
  | true =>
    obtain ⟨es, he⟩ := List.getLast?_eq_some_iff.mp hi
    rw [OrderedMap.keys, he, List.map_append, List.map_singleton] at hk
    obtain ⟨xs, l, rfl, -, hl⟩ := List.map_eq_append_iff.mp hk.symm
    obtain ⟨c, rfl, rfl⟩ := List.map_eq_singleton_iff.mp hl
    exact ⟨OrderedMap.lookup_eq_some.mpr (by simp [he]), xs, c.1, [], rfl, rfl⟩
  | false =>
    obtain ⟨es, he⟩ := List.head?_eq_some_iff.mp hi
    rw [OrderedMap.keys, he, List.map_cons] at hk
    obtain ⟨c, ys, rfl, rfl, -⟩ := List.map_eq_cons_iff.mp hk.symm
    exact ⟨OrderedMap.lookup_eq_some.mpr (by simp [he]), [], c.1, ys, rfl, rfl⟩

theorem meets_popitem (h : Represents d m cells) (last : Bool) : Meets d m cells (.popitem last) := by
  cases hi : lastItem m last with
  | some p =>
    obtain ⟨hv, xs, r, ys, rfl, hlast⟩ := exists_lastItem h hi
    obtain ⟨d', hpop, h', hlater⟩ := popitem_spec h hlast hv
    apply meets_of_erase (by rw [callMeaning, hi]) _ h' hlater
    rw [runCall, bind_of_returned hpop]
    rfl
  | none =>
    have hcells : cells = [] := by
      have hk := h.keys
      rw [OrderedMap.keys, show m.entries = [] by cases last <;> simpa [lastItem] using hi] at hk
      simpa using hk
    subst hcells
    apply meets_of_eq h (by rw [callMeaning, hi])
    rw [runCall, bind_apply, popitem_empty h, callMeaning, hi]
    rfl

theorem run_spec (h : Represents d m cells) (c : DictCall κ V) : Meets d m cells c := by
  cases c with
  | setItem k v => exact meets_setItem h k v
  | delItem k => exact meets_delItem h k
  | popitem last => exact meets_popitem h last
  | pop k default => exact meets_pop h k default
  | setdefault k default => exact meets_setdefault h k default
  | update ps =>
    obtain ⟨d', cells', hups, h', hlater, hsub⟩ := update_spec h ps
    refine ⟨d', cells', ?_, h', hlater, fun c hc _ => hsub hc⟩
    rw [runCall, bind_of_returned hups]
    rfl
  | clear =>
    obtain ⟨d', hclear, h', hlater, -⟩ := clear_spec h
    refine ⟨d', [], ?_, h', hlater, fun c _ hk => by simp [callMeaning] at hk⟩
    rw [runCall, bind_of_returned hclear]
    rfl
  | getItem k =>
    cases hv : m.lookup k with
    | some v =>
      apply meets_of_eq h (by rw [callMeaning, hv])
      rw [runCall, bind_of_returned (h.getItem_eq hv), callMeaning, hv]
      rfl
    | none =>
      apply meets_of_eq h (by rw [callMeaning, hv])
      rw [runCall, bind_apply, h.getItem_missing (OrderedMap.lookup_eq_none.mp hv), callMeaning, hv]
      rfl
  | contains k =>
    apply meets_of_eq h rfl
    rw [runCall, bind_of_returned (read_apply d)]
    simp [callMeaning, dictOutcome, h.mem_dict]
  | len =>
    apply meets_of_eq h rfl
    rw [runCall, bind_of_returned (read_apply d), h.len_eq]
    rfl
  | keys =>
    apply meets_of_eq h rfl
    rw [runCall, bind_of_returned (keys_spec h)]
    rfl
  | reversed =>
    apply meets_of_eq h rfl
    rw [runCall, bind_of_returned (reversed_spec h)]
    rfl
  | values =>
    apply meets_of_eq h rfl
    rw [runCall, bind_of_returned (values_spec h)]
    rfl
  | items =>
    apply meets_of_eq h rfl
    rw [runCall, bind_of_returned (items_spec h)]
    rfl

/-! ## A dictionary with a suspended generator -/

/-- A generator over the keys; `finished` once it stopped or raised. -/
inductive Gen where
  | running (curr : Nat)
  | finished

inductive DictAct (κ V : Type) where
  | call (c : DictCall κ V)
  | next

inductive DictReply (κ V : Type) where
  | result (r : DictResult κ V)
  | key (k : κ)
  /-- `StopIteration`. -/
  | stop
  deriving DecidableEq

/-- The exception that ends a call or a step, or what it replies. -/
abbrev DictOutput (κ V : Type) := Outcome (DictExn κ) Empty DictFault (DictReply κ V)

def reply (r : Outcome (DictExn κ) Empty DictFault (DictResult κ V)) : DictOutput κ V :=
  match r with
  | .returned a => .returned (.result a)
  | .raised e => .raised e
  | .fault f => .fault f

/-- `__iter__` follows `Link.next`, `__reversed__` follows `Link.prev`. -/
def stepOf (backwards : Bool) : Link κ → Nat := if backwards then Link.prev else Link.next

/-- `next(generator)`. -/
def genNext (backwards : Bool) (d : OrderedDict κ V) : Gen → DictOutput κ V × OrderedDict κ V × Gen
  | .finished => (.returned .stop, d, .finished)
  | .running curr =>
    match iterNext (stepOf backwards) curr d with
    | (.returned (some (k, r)), d) => (.returned (.key k), d, .running r)
    | (.returned none, d) => (.returned .stop, d, .finished)
    | (.raised e, d) => (.raised e, d, .finished)
    | (.fault f, d) => (.fault f, d, .finished)

def actStep (backwards : Bool) (s : OrderedDict κ V × Gen) : DictAct κ V → DictOutput κ V × OrderedDict κ V × Gen
  | .call c => (reply (runCall c s.1).1, (runCall c s.1).2, s.2)
  | .next => genNext backwards s.1 s.2

def actRun (backwards : Bool) : OrderedDict κ V × Gen → List (DictAct κ V) → List (DictOutput κ V)
  | _, [] => []
  | s, act :: acts => (actStep backwards s act).1 :: actRun backwards (actStep backwards s act).2 acts

/-- Where a generator stands: before its first key, at a key, at a link that was emptied, or nowhere. -/
inductive GenAt (κ : Type) where
  | start
  | atKey (key : κ)
  | cleared
  | finished

/-- The key that comes after `k`. -/
def keyAfter (ks : List κ) (k : κ) : Option κ := (ks.dropWhile (· ≠ k)).tail.head?

/-- The keys in the order of the generator. -/
def orderOf (backwards : Bool) (m : OrderedMap κ V) : List κ := if backwards then m.keys.reverse else m.keys

def arrive : Option κ → Except (DictExn κ) (DictReply κ V) × GenAt κ
  | some k => (.ok (.key k), .atKey k)
  | none => (.ok .stop, .finished)

def meaningNext (ks : List κ) : GenAt κ → Except (DictExn κ) (DictReply κ V) × GenAt κ
  | .start => arrive ks.head?
  | .atKey k => arrive (keyAfter ks k)
  | .cleared => (.error .indexError, .finished)
  | .finished => (.ok .stop, .finished)

/-- What a call makes of the generator: `clear` empties the link it holds. -/
def meaningCall (c : DictCall κ V) (g : GenAt κ) : GenAt κ :=
  match c, g with
  | .clear, .atKey _ => .cleared
  | _, g => g

def meaningStep (backwards : Bool) (m : OrderedMap κ V) (g : GenAt κ) :
    DictAct κ V → Except (DictExn κ) (DictReply κ V) × OrderedMap κ V × GenAt κ
  | .call c => ((callMeaning m c).1.map .result, (callMeaning m c).2, meaningCall c g)
  | .next => ((meaningNext (orderOf backwards m) g).1, m, (meaningNext (V := V) (orderOf backwards m) g).2)

def meaningRun (backwards : Bool) : OrderedMap κ V × GenAt κ → List (DictAct κ V) →
    List (Except (DictExn κ) (DictReply κ V))
  | _, [] => []
  | s, act :: acts =>
    (meaningStep backwards s.1 s.2 act).1 :: meaningRun backwards (meaningStep backwards s.1 s.2 act).2 acts

/-- No call but `clear` takes away the key that the generator stands at. -/
def Undisturbed (backwards : Bool) : OrderedMap κ V × GenAt κ → List (DictAct κ V) → Prop
  | _, [] => True
  | s, act :: acts =>
    (∀ k, (meaningStep backwards s.1 s.2 act).2.2 = .atKey k → k ∈ (meaningStep backwards s.1 s.2 act).2.1.keys) ∧
      Undisturbed backwards (meaningStep backwards s.1 s.2 act).2 acts

inductive Stands (d : OrderedDict κ V) (cells : List (Nat × κ)) : Gen → GenAt κ → Prop
  | start : Stands d cells (.running d.root) .start
  | atKey {r : Nat} {k : κ} : (r, k) ∈ cells → Stands d cells (.running r) (.atKey k)
  | cleared {r : Nat} : r < d.fresh → d.links r = none → Stands d cells (.running r) .cleared
  | finished : Stands d cells .finished .finished

variable {backwards : Bool} {g : Gen} {a : GenAt κ}

theorem keyAfter_append {ks js : List κ} (hk : k ∉ ks) : keyAfter (ks ++ k :: js) k = js.head? := by
  induction ks with
  | nil => simp [keyAfter]
  | cons j ks ih =>
    have hj : j ≠ k := fun he => hk (by simp [he])
    rw [← ih fun hmem => hk (List.mem_cons_of_mem _ hmem)]
    simp [keyAfter, hj]

/-- The cells in the order of the generator. -/
theorem exists_walk (h : Represents d m cells) (backwards : Bool) :
    ∃ ordered : List (Nat × κ), (∀ c, c ∈ ordered ↔ c ∈ cells) ∧ orderOf backwards m = ordered.map Prod.snd ∧
      Path (fun r => (d.links r).map (stepOf backwards)) d.root (ordered.map Prod.fst) d.root := by
  cases backwards with
  | false => exact ⟨cells, by simp, h.keys, h.forwards⟩
  | true =>
    have hp := h.backwards
    rw [← List.map_reverse] at hp
    exact ⟨cells.reverse, by simp, by simp [orderOf, h.keys], hp⟩

/-- A step of a generator that holds a link from which the cells `ys` follow. -/
theorem genNext_of_path (h : Represents d m cells) {curr : Nat} (hsub : ∀ c ∈ ys, c ∈ cells)
    (hp : Path (fun r => (d.links r).map (stepOf backwards)) curr (ys.map Prod.fst) d.root) :
    ∃ g', genNext backwards d (.running curr) = (dictOutcome (arrive (ys.map Prod.snd).head?).1, d, g') ∧
      Stands d cells g' (arrive (V := V) (ys.map Prod.snd).head?).2 := by
  cases ys with
  | nil =>
    refine ⟨.finished, ?_, .finished⟩
    rw [genNext, iterNext_root hp]
    rfl
  | cons c ys =>
    obtain ⟨hroot, hkey⟩ := h.cell (hsub c List.mem_cons_self)
    refine ⟨.running c.1, ?_, .atKey (hsub c List.mem_cons_self)⟩
    rw [genNext, iterNext_cell hp.1 hroot hkey]
    rfl

theorem genNext_spec (backwards : Bool) (h : Represents d m cells) (hs : Stands d cells g a) :
    ∃ g', genNext backwards d g = (dictOutcome (meaningNext (orderOf backwards m) a).1, d, g') ∧
      Stands d cells g' (meaningNext (V := V) (orderOf backwards m) a).2 := by
  obtain ⟨ordered, hmem, hkeys, hp⟩ := exists_walk h backwards
  cases hs with
  | start =>
    rw [hkeys]
    exact genNext_of_path h (fun c hc => (hmem c).mp hc) hp
  | @atKey r k hc =>
    obtain ⟨xs, ys, rfl⟩ := List.append_of_mem ((hmem _).mpr hc)
    have hnodup : (orderOf backwards m).Nodup := by
      cases backwards with
      | false => exact m.nodup_keys
      | true => exact List.nodup_reverse.mpr m.nodup_keys
    rw [hkeys, List.map_append, List.map_cons] at hnodup ⊢
    have hk : k ∉ xs.map Prod.snd := fun hx => (List.nodup_append.mp hnodup).2.2 k hx k List.mem_cons_self rfl
    rw [List.map_append, List.map_cons] at hp
    rw [meaningNext, keyAfter_append hk]
    exact genNext_of_path h (fun c hc => (hmem c).mp (by simp [hc])) (path_append.mp hp).2
  | @cleared r hr hn =>
    have hlink : linkAt r d = (.raised .indexError, d) := by simp [linkAt, hn]
    refine ⟨.finished, ?_, .finished⟩
    rw [genNext, iterNext, bind_of_returned (read_apply d), bind_apply, hlink]
    rfl
  | finished => exact ⟨.finished, rfl, .finished⟩

omit [DecidableEq κ] in
theorem meaningCall_eq (c : DictCall κ V) (ha : ∀ k, a ≠ .atKey k) : meaningCall c a = a := by
  cases c <;> cases a <;> simp_all [meaningCall]

omit [DecidableEq κ] in
theorem meaningCall_atKey (c : DictCall κ V) (k : κ) :
    c = .clear ∧ meaningCall c (.atKey k) = .cleared ∨ meaningCall c (.atKey k) = .atKey k := by
  cases c <;> simp [meaningCall]

/-- A call, and where it leaves the generator. -/
theorem call_spec (h : Represents d m cells) (hs : Stands d cells g a) (c : DictCall κ V)
    (hkeep : ∀ k, meaningCall c a = .atKey k → k ∈ (callMeaning m c).2.keys) :
    ∃ d' cells', runCall c d = (dictOutcome (callMeaning m c).1, d') ∧ Represents d' (callMeaning m c).2 cells' ∧
      Stands d' cells' g (meaningCall c a) := by
  obtain ⟨d', cells', hrun, h', hlater, hkept⟩ := run_spec h c
  cases hs with
  | start =>
    refine ⟨d', cells', hrun, h', ?_⟩
    rw [meaningCall_eq c (by simp), ← hlater.root]
    exact .start
  | @atKey r k hc =>
    rcases meaningCall_atKey c k with ⟨rfl, hat⟩ | hat
    · obtain ⟨d', hclear, h', hlater, hnone⟩ := clear_spec h
      refine ⟨d', [], ?_, h', ?_⟩
      · rw [runCall, bind_of_returned hclear]
        rfl
      · rw [hat]
        exact .cleared (Nat.lt_of_lt_of_le (h.bound r (by simpa using .inr ⟨k, hc⟩)) hlater.fresh) (hnone _ hc)
    · refine ⟨d', cells', hrun, h', ?_⟩
      rw [hat]
      exact .atKey (hkept _ hc (hkeep k hat))
  | @cleared r hr hn =>
    refine ⟨d', cells', hrun, h', ?_⟩
    rw [meaningCall_eq c (by simp)]
    exact .cleared (Nat.lt_of_lt_of_le hr hlater.fresh) (hlater.emptied r hr hn)
  | finished =>
    refine ⟨d', cells', hrun, h', ?_⟩
    rw [meaningCall_eq c (by simp)]
    exact .finished

omit [DecidableEq κ] in
theorem reply_dictOutcome (x : Except (DictExn κ) (DictResult κ V)) : reply (dictOutcome x) = dictOutcome (x.map .result) := by
  cases x <;> rfl

/-- Over every run that leaves the generator its key, code and meaning give the same outputs. -/
theorem actRun_eq (h : Represents d m cells) (hs : Stands d cells g a) (acts : List (DictAct κ V))
    (hu : Undisturbed backwards (m, a) acts) :
    actRun backwards (d, g) acts = (meaningRun backwards (m, a) acts).map dictOutcome := by
  induction acts generalizing d m cells g a with
  | nil => rfl
  | cons act acts ih =>
    rw [actRun, meaningRun, List.map_cons]
    cases act with
    | call c =>
      obtain ⟨d', cells', hrun, h', hs'⟩ := call_spec h hs c hu.1
      simp only [actStep, meaningStep, hrun, reply_dictOutcome]
      rw [ih h' hs' hu.2]
    | next =>
      obtain ⟨g', hrun, hs'⟩ := genNext_spec backwards h hs
      simp only [actStep, meaningStep, hrun]
      rw [ih h hs' hu.2]

/-- Whatever is called while a generator is suspended, as long as its key stays it goes on to the key that
comes after it then; once the dictionary was cleared it raises. -/
theorem actRun_new (backwards : Bool) (acts : List (DictAct κ V)) (hu : Undisturbed backwards (.empty, .start) acts) :
    actRun backwards (new, .running (new : OrderedDict κ V).root) acts =
      (meaningRun backwards (.empty, .start) acts).map dictOutcome :=
  actRun_eq represents_new .start acts hu

theorem actRun_new_deleted :
    actRun false (new, .running (new : OrderedDict Nat Bool).root)
        [.call (.update [(1, true), (2, true), (3, true)]), .next, .call (.delItem 2), .next] =
      [.returned (.result .none), .returned (.key 1), .returned (.result .none), .returned (.key 3)] := by
  rw [actRun_new]
  · rfl
  · simp [Undisturbed, meaningStep, callMeaning, meaningCall, orderOf, meaningNext, arrive, keyAfter,
      OrderedMap.update, OrderedMap.keys, OrderedMap.set, OrderedMap.setEntries, OrderedMap.empty,
      OrderedMap.erase, OrderedMap.filter]

/-! ## Runs of calls -/

/-- The dictionary after some calls. -/
def afterCalls (d : OrderedDict κ V) (calls : List (DictCall κ V)) : OrderedDict κ V :=
  calls.foldl (fun d c => (runCall c d).2) d

def meaningAfter (m : OrderedMap κ V) (calls : List (DictCall κ V)) : OrderedMap κ V :=
  calls.foldl (fun m c => (callMeaning m c).2) m

/-- What the calls of a run return or raise. -/
def callRun (d : OrderedDict κ V) : List (DictCall κ V) → List (Outcome (DictExn κ) Empty DictFault (DictResult κ V))
  | [] => []
  | c :: calls => (runCall c d).1 :: callRun (runCall c d).2 calls

def meaningCalls (m : OrderedMap κ V) : List (DictCall κ V) → List (Except (DictExn κ) (DictResult κ V))
  | [] => []
  | c :: calls => (callMeaning m c).1 :: meaningCalls (callMeaning m c).2 calls

theorem represents_after (h : Represents d m cells) (calls : List (DictCall κ V)) :
    ∃ cells', Represents (afterCalls d calls) (meaningAfter m calls) cells' := by
  induction calls generalizing d m cells with
  | nil => exact ⟨cells, h⟩
  | cons c calls ih =>
    obtain ⟨d', cells', hrun, h', -⟩ := run_spec h c
    have hd : (runCall c d).2 = d' := by rw [hrun]
    rw [afterCalls, List.foldl_cons, hd]
    exact ih h'

theorem callRun_eq (h : Represents d m cells) (calls : List (DictCall κ V)) :
    callRun d calls = (meaningCalls m calls).map dictOutcome := by
  induction calls generalizing d m cells with
  | nil => rfl
  | cons c calls ih =>
    obtain ⟨d', cells', hrun, h', -⟩ := run_spec h c
    rw [callRun, meaningCalls, List.map_cons, hrun, ih h']

/-- Every run of calls of a new dictionary returns and raises what the calls mean, in order, of a map that
remembers the order of insertion. -/
theorem callRun_new (calls : List (DictCall κ V)) :
    callRun (new : OrderedDict κ V) calls = (meaningCalls .empty calls).map dictOutcome :=
  callRun_eq represents_new calls

/-! ## A loop that deletes -/

/-- `if p(key): del self[key]`. -/
def deleteIf (p : κ → Bool) (key : κ) : DictProg κ V κ := do
  if p key then delItem key else pure ()
  pure key

theorem deleteIf_kept {p : κ → Bool} (hp : p k = false) : deleteIf p k d = (.returned k, d) := by
  simp [deleteIf, hp]

theorem deleteIf_deleted {p : κ → Bool} {d' : OrderedDict κ V} (hp : p k = true)
    (hdel : delItem k d = (.returned (), d')) : deleteIf p k d = (.returned k, d') := by
  simp [deleteIf, hp, bind_apply, hdel]

theorem decide_mem_cons {j : κ} {ks : List κ} (hj : j ≠ k) : decide (j ∈ k :: ks) = decide (j ∈ ks) :=
  decide_eq_decide.mpr (by simp [hj])

/-- The loop at a link from which the cells `todo` follow. -/
theorem forEach_deleteIf {p : κ → Bool} {done todo : List (Nat × κ)} {curr fuel : Nat}
    (h : Represents d m (done ++ todo)) (hcurr : Path d.nextOf curr (todo.map Prod.fst) d.root)
    (hfuel : todo.length < fuel) :
    ∃ d' cells', forEach Link.next (deleteIf p) fuel curr d = (.returned (todo.map Prod.snd), d') ∧
      Represents d' (m.filter fun j => !(p j && j ∈ todo.map Prod.snd)) cells' := by
  induction todo generalizing d m done curr fuel with
  | nil =>
    obtain ⟨fuel, rfl⟩ := Nat.exists_eq_add_of_lt hfuel
    refine ⟨d, done ++ [], forEach_root hcurr, ?_⟩
    rwa [OrderedMap.filter_eq_self (by simp)]
  | cons c todo ih =>
    obtain ⟨fuel, rfl⟩ : ∃ i, fuel = i + 1 := ⟨fuel - 1, by omega⟩
    obtain ⟨hroot, hkey⟩ := h.cell (List.mem_append_right done List.mem_cons_self)
    have hfuel' : todo.length < fuel := by simpa using hfuel
    cases hp : p c.2 with
    | false =>
      rw [forEach_cell hcurr.1 hroot hkey (deleteIf_kept hp)]
      rw [List.append_cons] at h
      obtain ⟨d', cells', hrun, h'⟩ := ih h hcurr.2 hfuel'
      refine ⟨d', cells', ?_, ?_⟩
      · rw [bind_of_returned hrun]
        rfl
      · have hfilter : (fun j => !(p j && decide (j ∈ (c :: todo).map Prod.snd))) =
            fun j => !(p j && decide (j ∈ todo.map Prod.snd)) := by
          funext j
          by_cases hj : j = c.2
          · simp [hj, hp]
          · rw [List.map_cons, decide_mem_cons hj]
        rwa [hfilter]
    | true =>
      obtain ⟨d₁, hdel, h₁, hlater, hnext⟩ := delItem_spec h
      have hrest : Path d₁.nextOf c.1 (todo.map Prod.fst) d₁.root := by
        -- the link of `c` was taken out, and still leads to the rest
        have hforwards := h₁.forwards
        rw [hlater.root, List.map_append] at hforwards
        rw [hlater.root]
        cases todo with
        | nil => exact hnext.trans hcurr.2
        | cons e todo => exact ⟨hnext.trans hcurr.2.1, (path_append.mp hforwards).2⟩
      rw [forEach_cell hcurr.1 hroot hkey (deleteIf_deleted hp hdel)]
      obtain ⟨d', cells', hrun, h'⟩ := ih h₁ hrest hfuel'
      refine ⟨d', cells', ?_, ?_⟩
      · rw [bind_of_returned hrun]
        rfl
      · have hfilter : (fun j => !(p j && decide (j ∈ (c :: todo).map Prod.snd))) =
            fun j => !(p j && decide (j ∈ todo.map Prod.snd)) && decide (j ≠ c.2) := by
          funext j
          by_cases hj : j = c.2
          · simp [hj, hp]
          · rw [List.map_cons, decide_mem_cons hj]
            simp [hj]
        rwa [hfilter, ← OrderedMap.filter_filter]

/-- After any calls, a loop over the keys may delete the keys it visits: it visits every key once, in order,
and leaves the others. -/
theorem deleteLoop_after (calls : List (DictCall κ V)) (p : κ → Bool) (fuel : Nat)
    (hfuel : (afterCalls (new : OrderedDict κ V) calls).len < fuel) :
    ∃ d' : OrderedDict κ V,
      forEach Link.next (deleteIf p) fuel (afterCalls new calls).root (afterCalls new calls) =
        (.returned (meaningAfter .empty calls : OrderedMap κ V).keys, d') ∧
      items d' = (.returned ((meaningAfter .empty calls : OrderedMap κ V).entries.filter fun e => !p e.1), d') := by
  obtain ⟨cells, h⟩ := represents_after (represents_new (κ := κ) (V := V)) calls
  have hlen := congrArg List.length h.keys
  rw [h.len_eq] at hfuel
  simp only [OrderedMap.keys, List.length_map] at hlen
  have h' : Represents (afterCalls new calls) (meaningAfter .empty calls) ([] ++ cells) := h
  obtain ⟨d', cells', hrun, hd⟩ := forEach_deleteIf (p := p) h' h.forwards (by omega : cells.length < fuel)
  refine ⟨d', ?_, ?_⟩
  · rw [hrun, h.keys]
  · rw [items_spec hd]
    congr 2
    apply List.filter_congr
    intro e he
    have hmem : e.1 ∈ cells.map Prod.snd := h.keys ▸ List.mem_map_of_mem he
    simp [hmem]

theorem deleteLoop_after_two :
    ∃ d' : OrderedDict Nat Bool,
      forEach Link.next (deleteIf (· == 2)) 4
          (afterCalls (new : OrderedDict Nat Bool) [.update [(1, true), (2, true), (3, false)]]).root
          (afterCalls new [.update [(1, true), (2, true), (3, false)]]) = (.returned [1, 2, 3], d') ∧
        items d' = (.returned [(1, true), (3, false)], d') :=
  deleteLoop_after [.update [(1, true), (2, true), (3, false)]] (· == 2) 4 (by decide)

/-! ## Two dictionaries -/

variable {d' : OrderedDict κ V} {m' : OrderedMap κ V} {cells' : List (Nat × κ)}

theorem copyOf_spec (h : Represents d m cells) :
    ∃ d' cells', copyOf d = (.returned (), d') ∧ Represents d' m cells' := by
  have hitems : onOther d items new = (.returned m.entries, new) := by rw [onOther, items_spec h]
  obtain ⟨d', cells', hups, h', -⟩ := update_spec represents_new m.entries
  refine ⟨d', cells', ?_, ?_⟩
  · rw [copyOf, updateFrom, bind_of_returned hitems, hups]
  · rwa [← OrderedMap.ofList_entries m]

theorem eqOrdered_spec [DecidableEq V] (h : Represents d m cells) (h' : Represents d' m' cells') :
    eqOrdered d' d = (.returned (decide (m.entries = m'.entries)), d) := by
  rw [eqOrdered, bind_of_returned (read_apply d), h.len_eq, h'.len_eq]
  by_cases hlen : m.entries.length = m'.entries.length
  · have hitems : onOther d' items d = (.returned m'.entries, d) := by rw [onOther, items_spec h']
    rw [if_pos hlen, bind_of_returned (items_spec h), bind_of_returned hitems]
    rfl
  · have hne : m.entries ≠ m'.entries := fun he => hlen (by rw [he])
    rw [if_neg hlen, decide_eq_false hne]
    rfl

/-- The inherited dictionaries are equal when the items are, in any order. -/
theorem dict_eq_iff (h : Represents d m cells) (h' : Represents d' m' cells') :
    d.dict = d'.dict ↔ m.entries.Perm m'.entries := by
  rw [List.perm_ext_iff_of_nodup m.nodup.of_map m'.nodup.of_map]
  constructor
  · rintro he ⟨k, v⟩
    rw [← OrderedMap.lookup_eq_some, ← OrderedMap.lookup_eq_some, ← h.dict, ← h'.dict, he]
  · intro hmem
    apply Finmap.ext_lookup
    intro k
    rw [h.dict, h'.dict]
    ext v
    rw [OrderedMap.lookup_eq_some, OrderedMap.lookup_eq_some, hmem]

/-- After any two runs: two ordered dictionaries are equal exactly when they have the same items in the same
order, and equal to one another's inherited dictionaries exactly when they have the same items; a copy is equal
to what it was copied from. -/
theorem eq_after [DecidableEq V] (calls calls' : List (DictCall κ V)) :
    let d := afterCalls new calls
    let d' := afterCalls new calls'
    let es := (meaningAfter .empty calls : OrderedMap κ V).entries
    let es' := (meaningAfter .empty calls' : OrderedMap κ V).entries
    (eqOrdered d' d).1 = .returned (decide (es = es')) ∧ (eqDict d'.dict d).1 = .returned (decide (es.Perm es')) ∧
      (eqOrdered (copyOf d).2 d).1 = .returned true := by
  intro d d' es es'
  obtain ⟨cells, h⟩ := represents_after (represents_new (κ := κ) (V := V)) calls
  obtain ⟨cells', h'⟩ := represents_after (represents_new (κ := κ) (V := V)) calls'
  obtain ⟨dc, cellsc, hcopy, hc⟩ := copyOf_spec h
  refine ⟨?_, ?_, ?_⟩
  · rw [eqOrdered_spec h h']
  · rw [eqDict, bind_of_returned (read_apply d)]
    simp only [pure_apply, Outcome.returned.injEq, decide_eq_decide]
    exact dict_eq_iff h h'
  · rw [hcopy, eqOrdered_spec h hc]
    simp

/-! ## The dictionaries of the queries -/

theorem dictSet_eq (es : List (String × PyValue)) (key : String) (value : PyValue) :
    dictSet es key value = OrderedMap.setEntries es key value := by
  have hany : es.any (fun e => e.1 == key) = true ↔ key ∈ es.map Prod.fst := by simp
  rw [dictSet, OrderedMap.setEntries]
  by_cases hkey : key ∈ es.map Prod.fst
  · rw [if_pos hkey, if_pos (hany.mpr hkey)]
    simp
  · rw [if_neg hkey, if_neg (hany.not.mpr hkey)]

theorem foldl_dictSet (m : OrderedMap String PyValue) (ps : List (String × PyValue)) :
    ps.foldl (fun d p => dictSet d p.1 p.2) m.entries = (m.update ps).entries := by
  induction ps generalizing m with
  | nil => rfl
  | cons p ps ih =>
    rw [List.foldl_cons, dictSet_eq]
    exact ih (m.set p.1 p.2)

/-- An ordering from a list of pairs: the dictionary that the pairs are put in has every column once, where it
was first mentioned, with the direction that was given for it last. -/
theorem getOrderingDict_items {xs : List PyValue} {ordering : PyValue} (h : getOrderingDict (.list xs) = .ok ordering) :
    ∃ ps es d, xs.mapM orderedPair = .ok ps ∧ update ps new = (.returned (), d) ∧ items d = (.returned es, d) ∧
      ordering = .dict es ∧ es.map Prod.fst = (ps.map Prod.fst).reverse.dedup.reverse ∧
      ∀ column, es.lookup column = ps.reverse.lookup column := by
  cases hps : xs.mapM orderedPair with
  | error e =>
    rw [getOrderingDict, orderedDict, hps] at h
    cases h
  | ok ps =>
    rw [getOrderingDict, orderedDict, hps] at h
    have hfold := foldl_dictSet .empty ps
    obtain ⟨d, cells, hups, hd, -⟩ := update_spec represents_new ps
    refine ⟨ps, (OrderedMap.ofList ps).entries, d, rfl, hups, items_spec hd, ?_, OrderedMap.keys_ofList ps, ?_⟩
    · rw [OrderedMap.ofList, ← hfold]
      exact (Except.ok.inj h).symm
    · intro column
      have hlookup := OrderedMap.lookup_update OrderedMap.empty ps column
      rw [OrderedMap.lookup_empty, Option.or_none] at hlookup
      exact hlookup

theorem getOrderingDict_items_mentioned :
    ∃ ps es d, [PyValue.tuple [.str "b", .int 1], .tuple [.str "a", .int 1], .tuple [.str "b", .int (-1)]].mapM
        orderedPair = .ok ps ∧ update ps new = (.returned (), d) ∧ items d = (.returned es, d) ∧
      PyValue.dict [("b", .int (-1)), ("a", .int 1)] = .dict es ∧
      es.map Prod.fst = (ps.map Prod.fst).reverse.dedup.reverse ∧
      ∀ column, es.lookup column = ps.reverse.lookup column :=
  getOrderingDict_items rfl

end Monary
