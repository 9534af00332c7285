import Monary.Python.Sizing
import Monary.System.Clients

/-!
# Column data, collections and cursors are given back

* `resourceOps` : what a call does to them, a cursor needing its collection and its column data;
* `Balanced` : what was acquired is released exactly once, unless it is held open, and a cursor before what it needs;
* `Accepting` : no column is refused by an action once its column data is allocated, and no count is negative;
* `ResourceState`, `ResourceKept` : what is live is held by the suspended generators; kept by every accepting action
  (`resourceKept_step`);
* `balanced_of_run` : in every run of accepting actions the resources are balanced.

A column that is refused leaves its column data behind.
-/

namespace Monary
open Effect Handles

/-! ## What is acquired and released -/

inductive Handle where
  | coldata (d : Nat)
  | collection (k : CollectionHandle)
  | cursor (c : CursorHandle)
  deriving DecidableEq, Repr

/-- The number that a handle was given out with. -/
def Handle.id : Handle → Nat
  | coldata d => d
  | collection k => k.id
  | cursor c => c.id

/-- What a call does to column data, collections and cursors. -/
def resourceOps : Event → List (Op Handle)
  | .connect _ | .disconnect _ => []
  | .useCollection _ k => k.elim [] fun k => [.acquire (.collection k)]
  | .destroyCollection k => [.release (.collection k)]
  | .allocColumnData d => d.elim [] fun d => [.acquire (.coldata d)]
  | .freeColumnData d => [.release (.coldata d)]
  | .queryCount k => [.use (.collection k)]
  | .initCursor k _ c => .use (.collection k) :: c.elim [] fun c => [.acquire (.cursor c)]
  | .loadQuery c _ => [.use (.cursor c)]
  | .closeQuery c => [.release (.cursor c)]

/-- A cursor needs its collection and its column data. -/
def Needs : Handle → Handle → Prop
  | .cursor c, .collection k => c.collection = k
  | .cursor c, .coldata d => c.coldata = some d
  | _, _ => False

/-- All that was acquired, and is not held open, was released exactly once, what is open was not, and a cursor was
released before what it needs. -/
structure Balanced (log : List Event) (isOpen : Handle → Prop) : Prop where
  released : ∀ h, .acquire h ∈ log.flatMap resourceOps → ¬ isOpen h → (log.flatMap resourceOps).count (.release h) = 1
  kept : ∀ h, isOpen h → (log.flatMap resourceOps).count (.release h) = 0
  order : ∀ c h pre post, Needs c h → .acquire c ∈ log.flatMap resourceOps →
    log.flatMap resourceOps = pre ++ .release h :: post → .release c ∈ pre

/-- The handles of the sessions with these cursors. -/
def live (cursors : Set CursorHandle) : Set Handle :=
  {h | ∃ c ∈ cursors, h = .cursor c ∨ Needs (.cursor c) h}

/-- Different cursors need different things. -/
def Apart (cursors : Set CursorHandle) : Prop :=
  ∀ c ∈ cursors, ∀ c' ∈ cursors, c.collection = c'.collection ∨ c.coldata = c'.coldata → c = c'

theorem mem_live_insert {c : CursorHandle} {cursors : Set CursorHandle} {h : Handle} :
    h ∈ live (insert c cursors) ↔ (h = .cursor c ∨ Needs (.cursor c) h) ∨ h ∈ live cursors := by
  unfold live
  simp only [Set.mem_ofPred_eq, Set.exists_mem_insert]

theorem needs_session {s : Session} {h : Handle} :
    Needs (.cursor s.cursor) h ↔ h = .collection s.collection ∨ h = .coldata s.coldata := by
  rcases h with d | k | c
  · simp [Needs, Session.cursor, eq_comm]
  · simp [Needs, Session.cursor, eq_comm]
  · simp [Needs]

theorem balanced_of_custody {log : List Event} {cursors : Set CursorHandle}
    (hc : Custody Needs (log.flatMap resourceOps) (live cursors)) : Balanced log (· ∈ live cursors) := by
  refine ⟨?_, ?_, ?_⟩
  · intro h hacq hopen
    rcases hc.releases_eq h with ⟨hlive, -⟩ | ⟨hnot, -⟩ | ⟨-, -, h1⟩
    · exact absurd hlive hopen
    · exact absurd hacq hnot
    · exact h1
  · intro h hopen
    exact List.count_eq_zero.mpr (hc.not_released hopen)
  · intro c h pre post hneeds hacq hlog
    rw [hlog] at hc hacq
    exact hc.released_before hneeds hacq

/-! ## Sessions -/

/-- The log is in custody of what these cursors hold, and the next handle is new. -/
structure ResourceState (log : List Event) (fresh : Nat) (cursors : Set CursorHandle) : Prop where
  custody : Custody Needs (log.flatMap resourceOps) (live cursors)
  apart : Apart cursors
  fresh : ∀ h, .acquire h ∈ log.flatMap resourceOps → h.id < fresh

namespace ResourceState
variable {log : List Event} {fresh : Nat} {cursors : Set CursorHandle}

theorem mono (hs : ResourceState log fresh cursors) (n : Nat) : ResourceState log (fresh + n) cursors :=
  ⟨hs.custody, hs.apart, fun h hacq => (hs.fresh h hacq).trans_le (Nat.le_add_right _ _)⟩

theorem id_lt (hs : ResourceState log fresh cursors) {h : Handle} (hh : h ∈ live cursors) : h.id < fresh :=
  hs.fresh h (hs.custody.acquired hh)

/-- A load with a cursor that is open. -/
theorem load (hs : ResourceState log fresh cursors) {c : CursorHandle} (hc : c ∈ cursors) (record : Option LoadRecord) :
    ResourceState (log ++ [.loadQuery c record]) fresh cursors := by
  have hlive : Handle.cursor c ∈ live cursors := ⟨c, hc, Or.inl rfl⟩
  refine ⟨?_, hs.apart, ?_⟩
  · rw [List.flatMap_append]
    exact hs.custody.use hlive
  · intro h hacq
    rw [List.flatMap_append] at hacq
    rcases List.mem_append.mp hacq with hacq | hacq
    · exact hs.fresh h hacq
    · simp [resourceOps] at hacq

theorem open_session (hs : ResourceState log fresh cursors) {connection : Option Nat} {h : Session}
    (ho : h.OpenedFrom connection fresh) :
    ResourceState (log ++ h.opening) (fresh + 3) (insert h.cursor cursors) ∧ h.cursor ∉ cursors := by
  have hd : h.coldata = fresh := ho.coldata
  have hk : h.collection.id = fresh + 1 := ho.collection
  have hi : h.id = fresh + 2 := ho.cursor
  have hnew : h.cursor ∉ cursors := by
    intro hmem
    have hlt := hs.id_lt (h := .cursor h.cursor) ⟨_, hmem, Or.inl rfl⟩
    have hlt : h.id < fresh := hlt
    omega
  have hops : h.opening.flatMap resourceOps =
      [Op.acquire (Handle.coldata h.coldata)] ++ [Op.acquire (Handle.collection h.collection)] ++
        [Op.use (Handle.collection h.collection)] ++ [Op.acquire (Handle.cursor h.cursor)] := rfl
  have hfresh {g : Handle} (hg : fresh ≤ g.id) : Op.acquire g ∉ log.flatMap resourceOps := by
    intro hacq
    exact absurd (hs.fresh g hacq) (by omega)
  refine ⟨⟨?_, ?_, ?_⟩, hnew⟩
  · rw [List.flatMap_append, hops, ← List.append_assoc, ← List.append_assoc, ← List.append_assoc]
    have h₁ := hs.custody.acquire (h := .coldata h.coldata) (hfresh (by show fresh ≤ h.coldata; omega)) nofun
    have h₂ := h₁.acquire (h := .collection h.collection) (by
      rw [List.mem_append, not_or]
      refine ⟨hfresh (by show fresh ≤ h.collection.id; omega), by simp⟩) nofun
    have h₃ := h₂.use (h := .collection h.collection) (Set.mem_insert _ _)
    have h₄ := h₃.acquire (h := .cursor h.cursor) (by
      simp only [List.mem_append, not_or]
      exact ⟨⟨⟨hfresh (by show fresh ≤ h.id; omega), by simp⟩, by simp⟩, by simp⟩) (by
      intro d hneeds
      rcases d with d | k | c
      · obtain rfl := Option.some.inj hneeds
        exact Set.mem_insert_of_mem _ (Set.mem_insert _ _)
      · obtain rfl : h.collection = k := hneeds
        exact Set.mem_insert _ _
      · exact hneeds.elim)
    have hlive : live (insert h.cursor cursors) = insert (Handle.cursor h.cursor) (insert (.collection h.collection)
        (insert (.coldata h.coldata) (live cursors))) := by
      ext x
      rw [mem_live_insert, needs_session]
      simp only [Set.mem_insert_iff, or_assoc]
    rw [hlive]
    exact h₄
  · have hnone {c : CursorHandle} (hc : c ∈ cursors) : ¬ (h.collection = c.collection ∨ some h.coldata = c.coldata) := by
      rintro (heq | heq)
      · have hlt := hs.id_lt (h := .collection c.collection) ⟨c, hc, Or.inr rfl⟩
        have hlt : c.collection.id < fresh := hlt
        rw [← heq] at hlt
        omega
      · have hlt := hs.id_lt (h := .coldata h.coldata) ⟨c, hc, Or.inr heq.symm⟩
        have hlt : h.coldata < fresh := hlt
        omega
    rintro c (rfl | hc) c' (rfl | hc') hor
    · rfl
    · exact absurd hor (hnone hc')
    · exact absurd (hor.imp Eq.symm Eq.symm) (hnone hc)
    · exact hs.apart c hc c' hc' hor
  · intro g hacq
    rw [List.flatMap_append, hops] at hacq
    rcases List.mem_append.mp hacq with hacq | hacq
    · exact (hs.fresh g hacq).trans_le (Nat.le_add_right _ _)
    · simp at hacq
      rcases hacq with rfl | rfl | rfl
      · show h.coldata < fresh + 3
        omega
      · show h.collection.id < fresh + 3
        omega
      · show h.id < fresh + 3
        omega

/-- What a session gives back, when its cursor is open. -/
theorem close_session (hs : ResourceState log fresh cursors) {h : Session} (hc : h.cursor ∈ cursors) :
    ResourceState (log ++ h.closing) fresh (cursors \ {h.cursor}) := by
  have hops : h.closing.flatMap resourceOps =
      [Op.release (Handle.cursor h.cursor)] ++ [Op.release (Handle.collection h.collection)] ++
        [Op.release (Handle.coldata h.coldata)] := rfl
  have hlive {x : Handle} (hx : x = .cursor h.cursor ∨ Needs (.cursor h.cursor) x) : x ∈ live cursors := ⟨_, hc, hx⟩
  -- no other cursor needs what the session gives back
  have honly {g x : Handle} (hg : g ∈ live cursors) (hne : g ≠ .cursor h.cursor) (hx : Needs (.cursor h.cursor) x) :
      ¬ Needs g x := by
    intro hneeds
    rcases g with d | k | c
    · exact hneeds.elim
    · exact hneeds.elim
    · have hmem : c ∈ cursors := by
        obtain ⟨c', hc', heq | heq⟩ := hg
        · obtain rfl := Handle.cursor.inj heq
          exact hc'
        · exact heq.elim
      have hor : c.collection = h.cursor.collection ∨ c.coldata = h.cursor.coldata := by
        rcases needs_session.mp hx with rfl | rfl
        · exact Or.inl hneeds
        · exact Or.inr hneeds
      exact hne (congrArg Handle.cursor (hs.apart c hmem _ hc hor))
  refine ⟨?_, fun c hc c' hc' => hs.apart c hc.1 c' hc'.1, ?_⟩
  · rw [List.flatMap_append, hops, ← List.append_assoc, ← List.append_assoc]
    have h₁ := hs.custody.release (h := .cursor h.cursor) (hlive (Or.inl rfl)) (by
      rintro (d | k | c) _ hneeds
      · exact hneeds
      · exact hneeds
      · exact hneeds)
    have h₂ := h₁.release (h := .collection h.collection) ⟨hlive (Or.inr (needs_session.mpr (Or.inl rfl))), by simp⟩
      fun g hg => honly hg.1 hg.2 (needs_session.mpr (Or.inl rfl))
    have h₃ := h₂.release (h := .coldata h.coldata) ⟨⟨hlive (Or.inr (needs_session.mpr (Or.inr rfl))), by simp⟩, by simp⟩
      fun g hg => honly hg.1.1 hg.1.2 (needs_session.mpr (Or.inr rfl))
    have hset : live (cursors \ {h.cursor}) = ((live cursors \ {.cursor h.cursor}) \ {.collection h.collection}) \
        {.coldata h.coldata} := by
      ext x
      constructor
      · rintro ⟨c, ⟨hmem, hne⟩, hx⟩
        have hcur : Handle.cursor c ∈ live cursors := ⟨c, hmem, Or.inl rfl⟩
        have hne : Handle.cursor c ≠ .cursor h.cursor := fun heq => hne (Handle.cursor.inj heq)
        have hnot {y : Handle} (hy : Needs (.cursor h.cursor) y) : x ≠ y := by
          rintro rfl
          rcases hx with rfl | hx
          · exact hy.elim
          · exact honly hcur hne hy hx
        refine ⟨⟨⟨⟨c, hmem, hx⟩, ?_⟩, hnot (needs_session.mpr (Or.inl rfl))⟩, hnot (needs_session.mpr (Or.inr rfl))⟩
        rintro rfl
        rcases hx with hx | hx
        · exact hne hx.symm
        · exact hx.elim
      · rintro ⟨⟨⟨⟨c, hmem, hx⟩, hcur⟩, hcol⟩, hdat⟩
        refine ⟨c, ⟨hmem, ?_⟩, hx⟩
        rintro rfl
        rcases hx with hx | hx
        · exact hcur hx
        · rcases needs_session.mp hx with hx | hx
          · exact hcol hx
          · exact hdat hx
    rw [hset]
    exact h₃
  · intro g hacq
    rw [List.flatMap_append, hops] at hacq
    rcases List.mem_append.mp hacq with hacq | hacq
    · exact hs.fresh g hacq
    · simp at hacq

/-- A session that is opened, perhaps loads, and is closed. -/
theorem whole_session (hs : ResourceState log fresh cursors) {connection : Option Nat} {h : Session}
    (ho : h.OpenedFrom connection fresh) {loads : List Event}
    (hl : ∀ e ∈ loads, ∃ record, e = .loadQuery h.cursor record) :
    ResourceState (log ++ (h.opening ++ loads ++ h.closing)) (fresh + 3) cursors := by
  obtain ⟨hopen, hnew⟩ := hs.open_session ho
  have hloads : ResourceState (log ++ h.opening ++ loads) (fresh + 3) (insert h.cursor cursors) := by
    clear hs
    generalize log ++ h.opening = log at hopen ⊢
    induction loads generalizing log with
    | nil => rwa [List.append_nil]
    | cons e loads ih =>
      obtain ⟨record, rfl⟩ := hl e List.mem_cons_self
      rw [List.append_cons]
      exact ih (fun e he => hl e (List.mem_cons_of_mem _ he)) _ (hopen.load (Set.mem_insert _ _) record)
  have hclosed := hloads.close_session (Set.mem_insert _ _)
  have hset : insert h.cursor cursors \ {h.cursor} = cursors := by
    rw [Set.insert_sdiff_of_mem _ (Set.mem_singleton _), Set.sdiff_singleton_eq_self hnew]
  rw [hset, List.append_assoc, List.append_assoc, ← List.append_assoc h.opening] at hclosed
  exact hclosed

theorem nothing (hs : ResourceState log fresh cursors) {t : List Event} (ht : t.flatMap resourceOps = []) :
    ResourceState (log ++ t) fresh cursors := by
  have hops : (log ++ t).flatMap resourceOps = log.flatMap resourceOps := by
    rw [List.flatMap_append, ht, List.append_nil]
  refine ⟨?_, hs.apart, ?_⟩
  · rw [hops]
    exact hs.custody
  · rw [hops]
    exact hs.fresh

/-- A handle that is new is neither live nor needed. -/
theorem not_live (hs : ResourceState log fresh cursors) {h : Handle} (hid : fresh ≤ h.id) :
    .acquire h ∉ log.flatMap resourceOps ∧ h ∉ live cursors ∧ ∀ g ∈ live cursors, ¬ Needs g h := by
  refine ⟨fun hacq => ?_, fun hh => ?_, fun g hg hneeds => ?_⟩
  · exact absurd (hs.fresh h hacq) (by omega)
  · exact absurd (hs.id_lt hh) (by omega)
  · obtain ⟨c, hc, rfl | hx⟩ := hg
    · exact absurd (hs.id_lt (h := h) ⟨c, hc, Or.inr hneeds⟩) (by omega)
    · rcases g with d | k | c'
      · exact hneeds.elim
      · exact hneeds.elim
      · exact hx.elim

/-- A collection that is used and destroyed. -/
theorem bracket_collection (hs : ResourceState log fresh cursors) {k : CollectionHandle} (hid : fresh ≤ k.id)
    {extra : List Handle} (hextra : ∀ h ∈ extra, h.id < k.id ∧ ∀ d, ¬ Needs h d)
    (hc : Custody Needs (log.flatMap resourceOps ++ extra.map Op.acquire) (live cursors ∪ {h | h ∈ extra}))
    {t : List (Op Handle)} (ht : ∀ op ∈ t, op = .use (.collection k)) :
    Custody Needs (log.flatMap resourceOps ++ extra.map Op.acquire ++ [Op.acquire (Handle.collection k)] ++ t ++
      [Op.release (Handle.collection k)]) (live cursors ∪ {h | h ∈ extra}) := by
  obtain ⟨hnew, hnot, hfree⟩ := hs.not_live (h := .collection k) hid
  have hne {h : Handle} (hh : h ∈ extra) : h ≠ .collection k := by
    rintro rfl
    exact absurd (hextra _ hh).1 (Nat.lt_irrefl _)
  refine Custody.bracket ?_ nofun ?_ ?_
  · rintro (hh | hh)
    · exact hnot hh
    · exact hne hh rfl
  · rintro g (hg | hg)
    · exact hfree g hg
    · exact (hextra g hg).2 _
  · have hacq := hc.acquire (h := .collection k) (by
      rw [List.mem_append, not_or, List.mem_map]
      refine ⟨hnew, ?_⟩
      rintro ⟨h, hh, heq⟩
      exact hne hh (Op.acquire.inj heq)) nofun
    exact hacq.uses fun op hop => ⟨_, Set.mem_insert _ _, ht op hop⟩

theorem counted (hs : ResourceState log fresh cursors) {connection : Option Nat} {t : List Event} {n : Nat}
    (h : Counted connection fresh t n) : ResourceState (log ++ t) (fresh + n) cursors := by
  rcases h with _ | ⟨client, -⟩ | ⟨k, asked, -, hk, ha⟩
  · exact (hs.nothing rfl).mono 0
  · exact (hs.nothing rfl).mono 0
  · have hops : ([Event.useCollection k.client (some k)] ++ asked ++ [Event.destroyCollection k]).flatMap resourceOps =
        [Op.acquire (Handle.collection k)] ++ asked.flatMap resourceOps ++ [Op.release (Handle.collection k)] := by
      rw [List.flatMap_append, List.flatMap_append]
      rfl
    have hasked : ∀ op ∈ asked.flatMap resourceOps, op = .use (.collection k) := by
      rcases ha with rfl | rfl <;> simp [resourceOps]
    have hnone : ∀ h ∈ ([] : List Handle), h.id < k.id ∧ ∀ d, ¬ Needs h d := nofun
    have hcust := hs.bracket_collection (k := k) (by omega) hnone (by simpa using hs.custody) hasked
    refine ⟨?_, hs.apart, ?_⟩
    · rw [List.flatMap_append, hops]
      simpa using hcust
    · intro g hacq
      rw [List.flatMap_append, hops] at hacq
      rcases List.mem_append.mp hacq with hacq | hacq
      · exact (hs.fresh g hacq).trans_le (Nat.le_add_right _ _)
      · rcases ha with rfl | rfl
        · simp at hacq
          rw [hacq]
          show k.id < fresh + 1
          omega
        · simp [resourceOps] at hacq
          rw [hacq]
          show k.id < fresh + 1
          omega

/-- Column data that is allocated and freed, with operations between that leave it live. -/
theorem bracket_coldata (hs : ResourceState log fresh cursors) {t : List (Op Handle)}
    (ht : Custody Needs (log.flatMap resourceOps ++ [Op.acquire (Handle.coldata fresh)] ++ t)
      (live cursors ∪ {h | h ∈ [Handle.coldata fresh]})) :
    Custody Needs (log.flatMap resourceOps ++ [Op.acquire (Handle.coldata fresh)] ++ t ++
      [Op.release (Handle.coldata fresh)]) (live cursors) := by
  obtain ⟨-, hnot, hfree⟩ := hs.not_live (h := .coldata fresh) (le_refl fresh)
  have hset : live cursors ∪ {h | h ∈ [Handle.coldata fresh]} = insert (Handle.coldata fresh) (live cursors) := by
    ext x
    simp [or_comm]
  rw [hset] at ht
  exact Custody.bracket hnot nofun hfree ht

theorem acquire_coldata (hs : ResourceState log fresh cursors) :
    Custody Needs (log.flatMap resourceOps ++ [Op.acquire (Handle.coldata fresh)])
      (live cursors ∪ {h | h ∈ [Handle.coldata fresh]}) := by
  have hacq := hs.custody.acquire (h := .coldata fresh) (hs.not_live (h := .coldata fresh) (le_refl fresh)).1 nofun
  have hset : live cursors ∪ {h | h ∈ [Handle.coldata fresh]} = insert (Handle.coldata fresh) (live cursors) := by
    ext x
    simp [or_comm]
  rwa [hset]

theorem aborted (hs : ResourceState log fresh cursors) {connection : Option Nat} {leak : Prop} (hleak : ¬ leak)
    {t : List Event} {n : Nat} (h : Aborted connection fresh leak t n) : ResourceState (log ++ t) (fresh + n) cursors := by
  have hnone : ∀ g : Handle, .acquire g ∈ [Op.acquire (Handle.coldata fresh)] ++ [.release (.coldata fresh)] →
      g.id < fresh + 1 := by
    intro g hg
    simp at hg
    rw [hg]
    exact Nat.lt_succ_self fresh
  have hbracket := hs.bracket_coldata (t := []) (by rw [List.append_nil]; exact hs.acquire_coldata)
  rw [List.append_nil, List.append_assoc] at hbracket
  have hmade : ∀ t : List Event,
      t.flatMap resourceOps = [Op.acquire (Handle.coldata fresh)] ++ [.release (.coldata fresh)] →
        ResourceState (log ++ t) (fresh + 1) cursors := by
    intro t ht
    refine ⟨?_, hs.apart, ?_⟩
    · rw [List.flatMap_append, ht]
      exact hbracket
    · intro g hacq
      rw [List.flatMap_append, ht] at hacq
      rcases List.mem_append.mp hacq with hacq | hacq
      · exact (hs.fresh g hacq).trans_le (Nat.le_add_right _ _)
      · exact hnone g hacq
  rcases h with _ | h | _ | ⟨client, -⟩ | ⟨k, asked, -, hk, ha⟩ | ⟨h, ho⟩
  · exact (hs.nothing rfl).mono 0
  · exact absurd h hleak
  · exact hmade _ rfl
  · exact hmade _ rfl
  · have hops : ([Event.allocColumnData (some fresh), Event.useCollection k.client (some k)] ++ asked ++
        [Event.destroyCollection k, Event.freeColumnData fresh]).flatMap resourceOps =
          [Op.acquire (Handle.coldata fresh)] ++ ([Op.acquire (Handle.collection k)] ++ asked.flatMap resourceOps ++
            [Op.release (Handle.collection k)]) ++ [Op.release (Handle.coldata fresh)] := by
      rw [List.flatMap_append, List.flatMap_append]
      simp [resourceOps]
    have hasked : ∀ op ∈ asked.flatMap resourceOps, op = .use (.collection k) := by
      rcases ha with rfl | rfl <;> simp [resourceOps]
    have hextra : ∀ h ∈ [Handle.coldata fresh], h.id < k.id ∧ ∀ d, ¬ Needs h d := by
      intro h hh
      obtain rfl := List.mem_singleton.mp hh
      refine ⟨?_, nofun⟩
      show fresh < k.id
      omega
    have hinner := hs.bracket_collection (k := k) (by omega) hextra hs.acquire_coldata hasked
    have houter := hs.bracket_coldata (t := [Op.acquire (Handle.collection k)] ++ asked.flatMap resourceOps ++
      [Op.release (Handle.collection k)]) (by simpa using hinner)
    refine ⟨?_, hs.apart, ?_⟩
    · rw [List.flatMap_append, hops]
      simpa using houter
    · intro g hacq
      rw [List.flatMap_append, hops] at hacq
      rcases List.mem_append.mp hacq with hacq | hacq
      · exact (hs.fresh g hacq).trans_le (Nat.le_add_right _ _)
      · have hg : g = .coldata fresh ∨ g = .collection k := by
          rcases ha with rfl | rfl <;> simpa [resourceOps] using hacq
        rcases hg with rfl | rfl
        · show fresh < fresh + 2
          omega
        · show k.id < fresh + 2
          omega
  · have hnone : ∀ e ∈ ([] : List Event), ∃ record, e = .loadQuery h.cursor record := nofun
    have hwhole := hs.whole_session ho hnone
    rwa [List.append_nil] at hwhole

/-- Episodes that leave nothing behind. -/
theorem episodes {connection : Option Nat} {leak crash : Prop} (hleak : ¬ leak) (hcrash : ¬ crash) {t : List Event}
    {n : Nat} (h : Episodes connection leak crash fresh t n) :
    ∀ {log : List Event}, ResourceState log fresh cursors → ResourceState (log ++ t) (fresh + n) cursors := by
  induction h with
  | nil fresh =>
    intro log hs
    exact (hs.nothing rfl).mono 0
  | counted hc _ ih =>
    intro log hs
    rw [← List.append_assoc, ← Nat.add_assoc]
    exact ih (hs.counted hc)
  | aborted ha _ ih =>
    intro log hs
    rw [← List.append_assoc, ← Nat.add_assoc]
    exact ih (hs.aborted hleak ha)
  | loaded h r ho _ ih =>
    intro log hs
    rw [← List.append_assoc, ← Nat.add_assoc]
    refine ih (hs.whole_session ho fun e he => ?_)
    exact ⟨_, List.mem_singleton.mp he⟩
  | crashed hx => exact absurd hx hcrash
  | countCrashed _ hx => exact absurd hx hcrash

end ResourceState

/-! ## Generators -/

/-- The cursors that the suspended generators hold open. -/
def System.cursors (sys : System) : Set CursorHandle :=
  {c | ∃ i blockSize resume, ∃ h : Session, sys.generators i = .suspended blockSize h.frame resume ∧ c = h.cursor}

/-- A suspended generator has a session with this cursor. -/
def Holds (g : Generator) (c : CursorHandle) : Prop :=
  ∃ blockSize resume, ∃ h : Session, g = .suspended blockSize h.frame resume ∧ c = h.cursor

/-- Every suspended generator has a session, and no two the same. -/
structure ResourceKept (sys : System) : Prop where
  frame : sys.state.frame = Frame.start
  state : ResourceState sys.state.log sys.state.fresh sys.cursors
  sessions : ∀ i blockSize f resume, sys.generators i = .suspended blockSize f resume → ∃ h : Session, f = h.frame
  alone : ∀ i j c, Holds (sys.generators i) c → Holds (sys.generators j) c → i = j

theorem cursor_of_frame {h h' : Session} (heq : h.frame = h'.frame) : h.cursor = h'.cursor := by
  have hcur := Option.some.inj (congrArg Frame.cursor heq)
  exact congrArg Prod.fst hcur

theorem holds_suspended {blockSize : Int} {h : Session} {resume : Resume} {c : CursorHandle} :
    Holds (.suspended blockSize h.frame resume) c ↔ c = h.cursor := by
  constructor
  · rintro ⟨_, _, h', heq, rfl⟩
    simp only [Generator.suspended.injEq] at heq
    exact (cursor_of_frame heq.2.1).symm
  · rintro rfl
    exact ⟨_, _, h, rfl, rfl⟩

theorem resourceKept_init : ResourceKept System.init := by
  have hnone : System.init.cursors = ∅ := by
    ext c
    simp [System.cursors, System.init]
  have hlive : live System.init.cursors = ∅ := by
    rw [hnone]
    ext x
    simp [live]
  refine ⟨rfl, ⟨?_, ?_, ?_⟩, ?_, ?_⟩
  · rw [hlive]
    exact .nil
  · rw [hnone]
    rintro c ⟨⟩
  · rintro h ⟨⟩
  · rintro i blockSize resume next ⟨⟩
  · rintro i j c ⟨_, _, _, heq, -⟩
    cases heq

/-- What the step of generator `i` does to the cursors that are held open. -/
theorem cursors_update {sys : System} (hk : ResourceKept sys) (i : Nat) (g : Generator) (s : State) (f : Option Fault) :
    System.cursors ⟨s, Function.update sys.generators i g, f⟩ =
      (sys.cursors \ {c | Holds (sys.generators i) c}) ∪ {c | Holds g c} := by
  ext c
  constructor
  · rintro ⟨j, blockSize, resume, h, hg, rfl⟩
    dsimp only at hg
    by_cases hj : j = i
    · rw [hj, Function.update_self] at hg
      exact Or.inr ⟨blockSize, resume, h, hg, rfl⟩
    · rw [Function.update_of_ne hj] at hg
      refine Or.inl ⟨⟨j, blockSize, resume, h, hg, rfl⟩, fun hi => ?_⟩
      exact hj (hk.alone j i _ ⟨blockSize, resume, h, hg, rfl⟩ hi)
  · rintro (⟨⟨j, blockSize, resume, h, hg, rfl⟩, hnot⟩ | ⟨blockSize, resume, h, hg, rfl⟩)
    · refine ⟨j, blockSize, resume, h, ?_, rfl⟩
      dsimp only
      have hj : j ≠ i := by
        rintro rfl
        exact hnot ⟨blockSize, resume, h, hg, rfl⟩
      rw [Function.update_of_ne hj]
      exact hg
    · refine ⟨i, blockSize, resume, h, ?_, rfl⟩
      dsimp only
      rw [Function.update_self]
      exact hg

/-- A step of a generator gives back what it no longer holds, and holds nothing that another does. -/
structure Stepped (cursors : Set CursorHandle) (g g' : Generator) (s s' : State) : Prop where
  frame : s'.frame = s.frame
  state : ResourceState s'.log s'.fresh ((cursors \ {c | Holds g c}) ∪ {c | Holds g' c})
  sessions : ∀ blockSize f resume, g' = .suspended blockSize f resume → ∃ h : Session, f = h.frame
  new : ∀ c, Holds g' c → Holds g c ∨ c ∉ cursors

section Stepped
variable {cursors : Set CursorHandle} {g : Generator} {s s' : State} {h : Session} {blockSize : Int} {resume : Resume}

theorem not_holds_finished (c : CursorHandle) : ¬ Holds .finished c := by
  rintro ⟨_, _, _, heq, -⟩
  cases heq

theorem not_holds_created (hg : g.created = true) (c : CursorHandle) : ¬ Holds g c := by
  rintro ⟨_, _, _, rfl, -⟩
  cases hg

/-- Nothing was held, and nothing is. -/
theorem stepped_none (hg : ∀ c, ¬ Holds g c) (hframe : s'.frame = s.frame) (hs : ResourceState s'.log s'.fresh cursors) :
    Stepped cursors g .finished s s' := by
  refine ⟨hframe, ?_, nofun, fun c hc => absurd hc (not_holds_finished c)⟩
  have hset : (cursors \ {c | Holds g c}) ∪ {c | Holds .finished c} = cursors := by
    ext c
    simp [hg, not_holds_finished]
  rwa [hset]

/-- A session was opened, and is held. -/
theorem stepped_opened (hg : ∀ c, ¬ Holds g c) (hframe : s'.frame = s.frame) (hnew : h.cursor ∉ cursors)
    (hs : ResourceState s'.log s'.fresh (insert h.cursor cursors)) :
    Stepped cursors g (.suspended blockSize h.frame resume) s s' := by
  refine ⟨hframe, ?_, ?_, ?_⟩
  · have hset : (cursors \ {c | Holds g c}) ∪ {c | Holds (.suspended blockSize h.frame resume) c} =
        insert h.cursor cursors := by
      ext c
      simp [hg, holds_suspended, or_comm]
    rwa [hset]
  · rintro _ _ _ ⟨⟩
    exact ⟨h, rfl⟩
  · rintro c hc
    rw [holds_suspended.mp hc]
    exact Or.inr hnew

/-- The session is held on. -/
theorem stepped_held {h' : Session} {blockSize' : Int} {resume' : Resume} (hcur : h'.cursor = h.cursor)
    (hmem : h.cursor ∈ cursors) (hframe : s'.frame = s.frame) (hs : ResourceState s'.log s'.fresh cursors) :
    Stepped cursors (.suspended blockSize h.frame resume) (.suspended blockSize' h'.frame resume') s s' := by
  refine ⟨hframe, ?_, ?_, ?_⟩
  · have hset : (cursors \ {c | Holds (.suspended blockSize h.frame resume) c}) ∪
        {c | Holds (.suspended blockSize' h'.frame resume') c} = cursors := by
      ext c
      simp only [holds_suspended, hcur, Set.mem_union, Set.mem_sdiff, Set.mem_ofPred_eq]
      constructor
      · rintro (⟨hc, -⟩ | rfl)
        · exact hc
        · exact hmem
      · intro hc
        by_cases heq : c = h.cursor
        · exact Or.inr heq
        · exact Or.inl ⟨hc, heq⟩
    rwa [hset]
  · rintro _ _ _ ⟨⟩
    exact ⟨h', rfl⟩
  · intro c hc
    rw [holds_suspended, hcur] at hc
    exact Or.inl (holds_suspended.mpr hc)

/-- The session is given back. -/
theorem stepped_closed (hframe : s'.frame = s.frame) (hs : ResourceState s'.log s'.fresh (cursors \ {h.cursor})) :
    Stepped cursors (.suspended blockSize h.frame resume) .finished s s' := by
  refine ⟨hframe, ?_, nofun, fun c hc => absurd hc (not_holds_finished c)⟩
  have hset : (cursors \ {c | Holds (.suspended blockSize h.frame resume) c}) ∪ {c | Holds .finished c} =
      cursors \ {h.cursor} := by
    ext c
    simp [holds_suspended, not_holds_finished]
  rwa [hset]

variable [PyImpl] [CImpl] {env : Env}

/-- A `next()` whose columns are not refused, and that ends in no fault. -/
theorem stepped_next {g' : Generator} {o : Outcome PyExn (List MaskedArray × Resume) Fault Unit}
    (hs : ResourceState s.log s.fresh cursors) (hg : ∀ c, Holds g c → c ∈ cursors)
    (hrun : NextRun env s g (o, g', s')) (hfault : faultOf o = none)
    (hleak : ∀ p, g.created = true → g.plan env = .ok p → ¬ Refuses env p.fields p.types g.blockSize) :
    Stepped cursors g g' s s' := by
  rcases hrun with ⟨_, e, hc, -⟩ | ⟨_, p, e, t, n, hc, hp, ha⟩ | ⟨_, x, t, n, -, -⟩ | ⟨_, p, h, r, _, hc, -, hopen, ht⟩ |
    ⟨blockSize, h, e⟩ | ⟨blockSize, h, x, -⟩ | ⟨blockSize, h, r, _, -, ht⟩ | ⟨blockSize, h⟩ | _
  · exact stepped_none (not_holds_created hc) rfl hs
  · exact stepped_none (not_holds_created hc) rfl (hs.aborted (hleak p hc hp) ha)
  · cases hfault
  · obtain ⟨hopened, hnew⟩ := hs.open_session hopen.handles
    have hloaded := hopened.load (Set.mem_insert h.cursor cursors) (some ⟨r.calls, mongocCursorError r.mcursor⟩)
    rw [List.append_assoc] at hloaded
    rcases ht with _ | _ | _
    · exact stepped_opened (h := h.loaded r) (not_holds_created hc) rfl hnew hloaded
    · exact stepped_opened (h := h.loaded r) (not_holds_created hc) rfl hnew hloaded
    · have honly : ∀ e ∈ [h.loading r], ∃ record, e = .loadQuery h.cursor record :=
        fun e he => ⟨_, List.mem_singleton.mp he⟩
      have hwhole := hs.whole_session hopen.handles honly
      rw [← List.append_assoc] at hwhole
      exact stepped_none (not_holds_created hc) rfl hwhole
  · exact stepped_closed rfl (hs.close_session (hg _ (holds_suspended.mpr rfl)))
  · cases hfault
  · have hmem := hg _ (holds_suspended.mpr rfl)
    have hloaded := hs.load hmem (some ⟨r.calls, mongocCursorError r.mcursor⟩)
    rcases ht with _ | _ | _
    · have hcur : (h.loaded r).cursor = h.cursor := rfl
      exact stepped_held hcur hmem rfl hloaded
    · have hcur : (h.loaded r).cursor = h.cursor := rfl
      exact stepped_held hcur hmem rfl hloaded
    · exact stepped_closed rfl (hloaded.close_session hmem)
  · exact stepped_closed rfl (hs.close_session (hg _ (holds_suspended.mpr rfl)))
  · exact stepped_none not_holds_finished rfl hs

end Stepped

/-! ## Runs -/

section Run
variable {sys : System}

/-- A method whose calls give back what they acquire. -/
theorem resourceKept_call {α : Type} {c : Py α} (hk : ResourceKept sys) {t : List Event} {n : Nat}
    (hframe : (callMethod c sys.state).2.frame = Frame.start) (hlog : (callMethod c sys.state).2.log = sys.state.log ++ t)
    (hfresh : (callMethod c sys.state).2.fresh = sys.state.fresh + n)
    (ht : ResourceState (sys.state.log ++ t) (sys.state.fresh + n) sys.cursors) : ResourceKept (sys.call c) := by
  refine ⟨hframe, ?_, hk.sessions, hk.alone⟩
  show ResourceState (callMethod c sys.state).2.log (callMethod c sys.state).2.fresh sys.cursors
  rw [hlog, hfresh]
  exact ht

theorem resourceKept_episodes {α : Type} {c : Py α} (hk : ResourceKept sys)
    (hc : ∃ t n, Episodes sys.state.connection False False sys.state.fresh t n ∧
      (callMethod c sys.state).2 = sys.state.did t n) : ResourceKept (sys.call c) := by
  obtain ⟨t, n, he, hs⟩ := hc
  apply resourceKept_call hk (t := t) (n := n)
  · rw [hs]
    exact hk.frame
  · rw [hs]
    rfl
  · rw [hs]
    rfl
  · exact ResourceState.episodes not_false not_false he hk.state

theorem log_closed (s : State) : ∃ t, s.closed.log = s.log ++ t ∧ t.flatMap resourceOps = [] ∧ s.closed.fresh = s.fresh := by
  unfold State.closed
  rcases s.connection with _ | client
  · exact ⟨[], (List.append_nil _).symm, rfl, rfl⟩
  · exact ⟨_, rfl, rfl, rfl⟩

theorem resourceKept_close (hk : ResourceKept sys) : ResourceKept (sys.call Monary.close) := by
  obtain ⟨t, hlog, hops, hfresh⟩ := log_closed sys.state
  have hrun : callMethod Monary.close sys.state = (.returned (), sys.state.closed.within Frame.start) := by
    rw [callMethod_apply _ hk.frame, close_apply]
  apply resourceKept_call hk (t := t) (n := 0)
  · rw [hrun]
    rfl
  · rw [hrun]
    exact hlog
  · rw [hrun]
    exact hfresh
  · exact (hk.state.nothing hops).mono 0

theorem resourceKept_connect (hk : ResourceKept sys) (env : Env) (a : ConnectArgs) :
    ResourceKept (sys.call (connect env a)) := by
  obtain ⟨t, hlog, hops, hfresh⟩ := log_closed sys.state
  obtain ⟨t', n, ht', hops', hn⟩ : ∃ t' n, (connect env a sys.state).2.log = sys.state.log ++ (t ++ t') ∧
      t'.flatMap resourceOps = [] ∧ (connect env a sys.state).2.fresh = sys.state.fresh + n := by
    rcases connect_cases env a sys.state with ⟨e, h⟩ | h | h
    · rw [h]
      exact ⟨[], 0, by rw [List.append_nil]; exact hlog, rfl, hfresh⟩
    · rw [h]
      refine ⟨[.connect none], 0, ?_, rfl, hfresh⟩
      show sys.state.closed.log ++ _ = _
      rw [hlog, List.append_assoc]
    · rw [h]
      refine ⟨[.connect (some sys.state.closed.fresh)], 1, ?_, rfl, ?_⟩
      · show sys.state.closed.log ++ _ = _
        rw [hlog, List.append_assoc]
      · show sys.state.closed.fresh + 1 = _
        rw [hfresh]
  have hrun := callMethod_apply (connect env a) hk.frame
  apply resourceKept_call hk (t := t ++ t') (n := n)
  · rw [hrun]
    rfl
  · rw [hrun]
    exact ht'
  · rw [hrun]
    exact hn
  · refine (hk.state.nothing ?_).mono n
    rw [List.flatMap_append, hops, hops']
    rfl

theorem resourceKept_resume {i : Nat} {r : Outcome PyExn (List MaskedArray × Resume) Fault Unit × Generator × State}
    (hk : ResourceKept sys) (hr : Stepped sys.cursors (sys.generators i) r.2.1 sys.state r.2.2) :
    ResourceKept (sys.resume i r) := by
  refine ⟨hr.frame.trans hk.frame, ?_, ?_, ?_⟩
  · show ResourceState r.2.2.log r.2.2.fresh (System.cursors ⟨r.2.2, Function.update sys.generators i r.2.1, _⟩)
    rw [cursors_update hk]
    exact hr.state
  · intro j blockSize f resume hg
    have hg : Function.update sys.generators i r.2.1 j = .suspended blockSize f resume := hg
    by_cases hj : j = i
    · rw [hj, Function.update_self] at hg
      exact hr.sessions _ _ _ hg
    · rw [Function.update_of_ne hj] at hg
      exact hk.sessions _ _ _ _ hg
  · intro j j' c hj hj'
    have hold {j : Nat} (hji : j ≠ i) (hj : Holds (Function.update sys.generators i r.2.1 j) c) :
        Holds (sys.generators j) c := by
      rwa [Function.update_of_ne hji] at hj
    have hself {j : Nat} (hji : j = i) (hj : Holds (Function.update sys.generators i r.2.1 j) c) : Holds r.2.1 c := by
      rwa [hji, Function.update_self] at hj
    -- another generator does not hold what generator `i` has got
    have hother {j j' : Nat} (hji : j = i) (hji' : j' ≠ i) (hj : Holds (Function.update sys.generators i r.2.1 j) c)
        (hj' : Holds (Function.update sys.generators i r.2.1 j') c) : j = j' := by
      have hc' := hold hji' hj'
      rcases hr.new c (hself hji hj) with hc | hc
      · exact hji.trans (hk.alone _ _ _ hc hc')
      · obtain ⟨blockSize, resume, h, hg, rfl⟩ := hc'
        exact absurd ⟨j', blockSize, resume, h, hg, rfl⟩ hc
    by_cases hji : j = i
    · by_cases hji' : j' = i
      · rw [hji, hji']
      · exact hother hji hji' hj hj'
    · by_cases hji' : j' = i
      · exact (hother hji' hji hj' hj).symm
      · exact hk.alone _ _ _ (hold hji hj) (hold hji' hj')

variable [PyImpl] [CImpl]

/-- No column is refused once its column data is allocated, and no aggregation is counted below zero. -/
def Accepting (sys : System) : Action → Prop
  | .query env _ a _ => ∀ n, 0 ≤ n → ¬ Refuses env a.fields a.types n
  | .aggregate env inner a _ => ¬ Refuses inner ["count"] ["int64"] 1 ∧
      (∀ n, 0 ≤ n → ¬ Refuses env a.fields a.types n) ∧ ∀ m, CountRead inner a sys.state.connection m → 0 ≤ m
  | .next env i => ∀ p, (sys.generators i).created = true → (sys.generators i).plan env = .ok p →
      ¬ Refuses env p.fields p.types (sys.generators i).blockSize
  | _ => True

/-- Every accepting action that ends in no fault keeps the resources. -/
theorem resourceKept_step {a : Action} (hk : ResourceKept sys) (hen : sys.Enabled a) (hacc : Accepting sys a)
    (hfault : (sys.step a).fault = none) : ResourceKept (sys.step a) := by
  have hframe := hk.frame
  have hno {α : Type} {o : Outcome PyExn (List MaskedArray × Resume) Fault α} (ho : faultOf o = none) :
      (faultOf o).isSome → False := by
    rw [ho]
    nofun
  rcases a with ⟨env, a⟩ | _ | _ | _ | ⟨env, db, coll, query⟩ | ⟨env, inner, a, doCount⟩ | ⟨env, inner, a, doCount⟩ |
    ⟨i, g⟩ | ⟨env, i⟩ | i
  · exact resourceKept_connect hk env a
  · exact resourceKept_close hk
  · exact resourceKept_close hk
  · exact resourceKept_close hk
  · exact resourceKept_episodes hk (count_episodes (count_run env db coll query hframe) (hno hfault))
  · refine resourceKept_episodes hk (query_episodes hframe (query_run env inner a doCount hframe) ?_ (hno hfault))
    exact fun m hm => hacc _ (limited_nonneg hm)
  · obtain ⟨hinner, hcolumns, hcounted⟩ := hacc
    refine resourceKept_episodes hk (aggregate_episodes hframe (aggregate_run env inner a doCount hframe) hinner
      (fun hlim => hcolumns _ (le_of_lt hlim)) ?_ (hno hfault))
    intro encoded f h r m hopen hm
    exact hcolumns _ (limited_nonneg (hcounted m ⟨encoded, f, h, r, hopen, hm⟩))
  · obtain ⟨hcreated, hfinished⟩ := hen.2 i g rfl
    have hstepped : Stepped sys.cursors (sys.generators i) g sys.state sys.state := by
      refine ⟨rfl, ?_, ?_, fun c hc => absurd hc (not_holds_created hcreated c)⟩
      · have hset : (sys.cursors \ {c | Holds (sys.generators i) c}) ∪ {c | Holds g c} = sys.cursors := by
          ext c
          simp [hfinished, not_holds_finished, not_holds_created hcreated]
        rw [hset]
        exact hk.state
      · rintro _ _ _ rfl
        cases hcreated
    have hkept := resourceKept_resume (r := (.returned (), g, sys.state)) hk hstepped
    exact ⟨hkept.frame, hkept.state, hkept.sessions, hkept.alone⟩
  · have hrun := next_run env sys.state (hk.sessions i)
    refine resourceKept_resume hk (stepped_next hk.state ?_ hrun hfault hacc)
    rintro c ⟨blockSize, resume, h, hg, rfl⟩
    exact ⟨i, blockSize, resume, h, hg, rfl⟩
  · apply resourceKept_resume hk
    rcases hg : sys.generators i with ⟨a, blockSize⟩ | ⟨a, blockSize⟩ | ⟨blockSize, f, resume⟩ | _
    · exact stepped_none (not_holds_created rfl) rfl hk.state
    · exact stepped_none (not_holds_created rfl) rfl hk.state
    · obtain ⟨h, rfl⟩ := hk.sessions i blockSize f resume hg
      rw [close_suspended]
      exact stepped_closed rfl (hk.state.close_session ⟨i, blockSize, resume, h, hg, rfl⟩)
    · exact stepped_none not_holds_finished rfl hk.state

theorem resourceKept_of_run (h : System.Run Accepting sys) (hfault : sys.fault = none) : ResourceKept sys := by
  induction h with
  | init => exact resourceKept_init
  | step a _ hen hacc ih => exact resourceKept_step (ih hen.1) hen hacc hfault

/-- In every run in which no column is refused, what calls and generators acquired and do not hold any more was given
back, once and in order. -/
theorem balanced_of_run (h : System.Run Accepting sys) (hfault : sys.fault = none) :
    Balanced sys.state.log (· ∈ live sys.cursors) :=
  balanced_of_custody (resourceKept_of_run h hfault).state.custody

end Run

/-! ## A type that is unknown -/

section Examples

/-- A query for one document, with these columns. -/
def firstDocument (fields types : List String) : QueryArgs :=
  ⟨"", "", .bytes [5, 0, 0, 0, 0], fields, types, .none, .none, 1, 0, false⟩

/-- A connection with which the query was made. -/
def queriedOnce (fields types : List String) : System :=
  let _ := PyImpl.ascii
  let _ := CImpl.x86
  (System.init.step (.connect oneDocument localhost)).step
    (.query oneDocument oneDocument (firstDocument fields types) false)

theorem run_queriedOnce {P : System → Action → Prop} {fields types : List String}
    (hconnect : P System.init (.connect oneDocument localhost))
    (hquery : ∀ sys, P sys (.query oneDocument oneDocument (firstDocument fields types) false)) :
    @System.Run PyImpl.ascii CImpl.x86 P (queriedOnce fields types) := by
  let _ := PyImpl.ascii
  let _ := CImpl.x86
  have h₁ : System.Run P (System.init.step (.connect oneDocument localhost)) := by
    refine .step _ .init ⟨rfl, ?_⟩ hconnect
    rintro _ _ ⟨⟩
  refine .step (.query oneDocument oneDocument (firstDocument fields types) false) h₁ ⟨rfl, ?_⟩ (hquery _)
  rintro _ _ ⟨⟩

/-- A server with one document, and one document for every aggregation, which counts it. -/
def countedDocument : Env :=
  { oneDocument with
    encode := fun _ => .ok [5, 0, 0, 0, 0]
    aggregate := fun _ => some (MongocCursor.ofList [countDocument] false).reply }

def countedNumbers : AggregateArgs := ⟨"", "", .list [], ["d"], ["int8"], 0⟩

/-- The query in blocks of one row. -/
def queriedBlocks : Generator := .blockQuery (firstDocument ["d"] ["int8"]) 1

/-- A query, a generator that is closed after its first block, and an aggregation that is counted, with a column
each. -/
def queriedAll : System :=
  let _ := PyImpl.ascii
  let _ := CImpl.x86
  ((((queriedOnce ["d"] ["int8"]).step (.start 0 queriedBlocks)).step (.next oneDocument 0)).step
    (.aggregate countedDocument countedDocument countedNumbers true)).step (.closeGenerator 0)

theorem accepting_countedNumbers (sys : System) :
    @Accepting PyImpl.ascii CImpl.x86 sys (.aggregate countedDocument countedDocument countedNumbers true) := by
  let _ := PyImpl.ascii
  let _ := CImpl.x86
  have hq : countedDocument.Quiet := ⟨fun _ => rfl, rfl⟩
  have hcounts (doc : Bytes) (reply : Nat → Reply) (h : countedDocument.aggregate doc = some reply) :
      ∃ n, CountReply reply n := by
    cases h
    exact ⟨1, countDocument, yields_ofList _ _, _, rfl, Or.inl ⟨by decide, by decide⟩⟩
  refine ⟨not_refuses_of_quiet [countColumn] hq rfl (by decide), fun n hn => ?_, fun m hm => ?_⟩
  · exact not_refuses_of_quiet [⟨[0x64], .int8, 0⟩] hq rfl hn
  · exact countRead_nonneg hm hq hcounts

/-- All that was acquired was released. -/
theorem balanced_queriedAll : Balanced queriedAll.state.log (· ∈ live queriedAll.cursors) := by
  let _ := PyImpl.ascii
  let _ := CImpl.x86
  have hq : oneDocument.Quiet := ⟨fun _ => rfl, rfl⟩
  have hcolumn (n : Int) (hn : 0 ≤ n) : ¬ Refuses oneDocument ["d"] ["int8"] n :=
    not_refuses_of_quiet [⟨[0x64], .int8, 0⟩] hq rfl hn
  have h₁ : System.Run Accepting (queriedOnce ["d"] ["int8"]) := run_queriedOnce trivial fun _ => hcolumn
  have h₂ : System.Run Accepting ((queriedOnce ["d"] ["int8"]).step (.start 0 queriedBlocks)) := by
    refine h₁.step (.start 0 queriedBlocks) ⟨rfl, ?_⟩ trivial
    rintro _ _ ⟨⟩
    exact ⟨rfl, rfl⟩
  have h₃ : System.Run Accepting (((queriedOnce ["d"] ["int8"]).step (.start 0 queriedBlocks)).step
      (.next oneDocument 0)) := by
    refine h₂.step (.next oneDocument 0) ⟨rfl, nofun⟩ ?_
    rintro p - hp
    cases hp
    exact hcolumn 1 (by decide)
  have h₄ := h₃.step (.aggregate countedDocument countedDocument countedNumbers true) ⟨rfl, nofun⟩
    (accepting_countedNumbers _)
  have hfault : ((((queriedOnce ["d"] ["int8"]).step (.start 0 queriedBlocks)).step (.next oneDocument 0)).step
      (.aggregate countedDocument countedDocument countedNumbers true)).fault = none := by
    show faultOf (callMethod (aggregate countedDocument countedDocument countedNumbers true) _).1 = none
    rw [aggregate_eq]
    decide
  exact balanced_of_run (h₄.step (.closeGenerator 0) ⟨hfault, nofun⟩ trivial) (by decide)

/-- The column data of a query with a type that is unknown is not freed. -/
theorem not_forall_balanced :
    ¬ ∀ sys : System, @System.Run PyImpl.ascii CImpl.x86 (fun _ _ => True) sys → sys.fault = none →
      Balanced sys.state.log (· ∈ live sys.cursors) := by
  intro h
  have hlog : (queriedOnce ["d"] ["foo"]).state.log.flatMap resourceOps = [.acquire (.coldata 1)] := by decide
  have hbal := h (queriedOnce ["d"] ["foo"]) (run_queriedOnce trivial fun _ => trivial) (by decide)
  have hopen : Handle.coldata 1 ∉ live (queriedOnce ["d"] ["foo"]).cursors := by
    rintro ⟨c, ⟨i, blockSize, resume, h, hg, -⟩, -⟩
    cases hg
  have hreleased := hbal.released (.coldata 1) (by rw [hlog]; exact List.mem_singleton_self _) hopen
  rw [hlog] at hreleased
  exact absurd hreleased (by decide)

end Examples

end Monary
