import Monary.Lib.Custody
import Monary.System.Actions

/-!
# No use of a client after it was disconnected

* `clientOps` : what a call does to a client, directly or through a collection or a cursor of it;
* `ClientsLive` : every client is used before it is disconnected only, and disconnected at most once;
* `Calm` : the actions that disconnect do so while no generator is suspended on the client;
* `ClientState`, `ClientKept` : the client of the object is the one that is live, and the suspended
  generators are on it; kept by every calm action (`clientKept_step`);
* `clientsLive_of_run` : in every run of calm actions the clients are live when they are used.

A generator that is suspended when the connection is closed uses the client afterwards.
-/

namespace Monary
open Effect Handles

/-! ## What is used -/

/-- What a call does to a client. -/
def clientOps : Event → List (Op Nat)
  | .connect client => client.elim [] fun client => [.acquire client]
  | .disconnect client => [.release client]
  | .useCollection client _ => [.use client]
  | .destroyCollection k | .queryCount k | .initCursor k _ _ => [.use k.client]
  | .allocColumnData _ | .freeColumnData _ => []
  | .loadQuery cursor _ | .closeQuery cursor => [.use cursor.collection.client]

/-- Every use of a client, and every call of `monary_disconnect` with it, comes before the first call of
`monary_disconnect` with it. -/
def ClientsLive (log : List Event) : Prop :=
  ∀ pre op post client, log.flatMap clientOps = pre ++ op :: post → op = .use client ∨ op = .release client →
    .release client ∉ pre

/-- The calls use no client but the one of the object. -/
def UsesOnly (connection : Option Nat) (t : List Event) : Prop :=
  ∀ op ∈ t.flatMap clientOps, ∃ client, connection = some client ∧ op = .use client

theorem usesOnly_nil (connection : Option Nat) : UsesOnly connection [] := nofun

theorem usesOnly_append {connection : Option Nat} {t t' : List Event} (h : UsesOnly connection t)
    (h' : UsesOnly connection t') : UsesOnly connection (t ++ t') := by
  unfold UsesOnly
  rw [List.flatMap_append]
  exact List.forall_mem_append.mpr ⟨h, h'⟩

theorem UsesOnly.of_subset {connection : Option Nat} {t t' : List Event} (h : UsesOnly connection t')
    (hsub : t ⊆ t') : UsesOnly connection t := by
  intro op hop
  obtain ⟨e, he, hop⟩ := List.mem_flatMap.mp hop
  exact h op (List.mem_flatMap.mpr ⟨e, hsub he, hop⟩)

/-- All the calls of a session use its client. -/
theorem usesOnly_session {connection : Option Nat} {h : Session} (hc : connection = some h.collection.client)
    (x : Option LoadRecord) : UsesOnly connection (h.opening ++ [.loadQuery h.cursor x] ++ h.closing) := by
  rw [hc]
  simp [UsesOnly, Session.opening, Session.closing, clientOps, Session.cursor]

theorem usesOnly_counted {connection : Option Nat} {fresh : Nat} {t : List Event} {n : Nat}
    (h : Counted connection fresh t n) : UsesOnly connection t := by
  rcases h with _ | ⟨client, rfl⟩ | ⟨k, asked, rfl, -, rfl | rfl⟩ <;> simp [UsesOnly, clientOps]

theorem usesOnly_aborted {connection : Option Nat} {fresh : Nat} {leak : Prop} {t : List Event} {n : Nat}
    (h : Aborted connection fresh leak t n) : UsesOnly connection t := by
  rcases h with _ | _ | _ | ⟨client, rfl⟩ | ⟨k, asked, rfl, -, rfl | rfl⟩ | ⟨h, ho⟩
  · exact usesOnly_nil _
  · simp [UsesOnly, clientOps]
  · simp [UsesOnly, clientOps]
  · simp [UsesOnly, clientOps]
  · simp [UsesOnly, clientOps]
  · simp [UsesOnly, clientOps]
  · exact (usesOnly_session ho.client none).of_subset (by simp)

theorem usesOnly_crashed {connection : Option Nat} {fresh : Nat} {t : List Event} {n : Nat}
    (h : Crashed connection fresh t n) : UsesOnly connection t := by
  rcases h with ⟨k, rfl, -⟩ | ⟨h, ho⟩
  · simp [UsesOnly, clientOps]
  · exact (usesOnly_session ho.client none).of_subset (by simp)

theorem usesOnly_episodes {connection : Option Nat} {leak crash : Prop} {fresh : Nat} {t : List Event} {n : Nat}
    (h : Episodes connection leak crash fresh t n) : UsesOnly connection t := by
  induction h with
  | nil => exact usesOnly_nil _
  | counted hc _ ih => exact usesOnly_append (usesOnly_counted hc) ih
  | aborted ha _ ih => exact usesOnly_append (usesOnly_aborted ha) ih
  | loaded h r ho _ ih =>
    exact usesOnly_append (usesOnly_session ho.client _) ih
  | crashed _ hx => exact usesOnly_crashed hx
  | countCrashed k _ hk =>
    rw [hk]
    simp [UsesOnly, clientOps]

/-! ## What is kept -/

structure ClientState (s : State) : Prop where
  frame : s.frame = Frame.start
  custody : Custody (fun _ _ => False) (s.log.flatMap clientOps) {client | s.connection = some client}
  fresh : ∀ client, .acquire client ∈ s.log.flatMap clientOps → client < s.fresh

theorem ClientState.did {s : State} (hs : ClientState s) {t : List Event} (ht : UsesOnly s.connection t) (n : Nat) :
    ClientState (s.did t n) := by
  refine ⟨hs.frame, ?_, ?_⟩
  · rw [log_did, List.flatMap_append]
    exact hs.custody.uses ht
  · intro client hclient
    rw [log_did, List.flatMap_append] at hclient
    rcases List.mem_append.mp hclient with h | h
    · exact (hs.fresh client h).trans_le (Nat.le_add_right _ _)
    · obtain ⟨_, -, hop⟩ := ht _ h
      cases hop

theorem ClientState.closed {s : State} (hs : ClientState s) : ClientState s.closed := by
  obtain ⟨log, connection, fresh, frame⟩ := s
  rcases connection with _ | client
  · exact hs
  · refine ⟨hs.frame, ?_, ?_⟩
    · have hlive : {c | (none : Option Nat) = some c} = {c | some client = some c} \ {client} := by
        ext c
        simp
      show Custody _ ((log ++ [Event.disconnect client]).flatMap clientOps) {c | (none : Option Nat) = some c}
      rw [List.flatMap_append, hlive]
      exact hs.custody.release rfl fun _ _ h => h
    · intro c hc
      rw [show (State.closed ⟨log, some client, fresh, frame⟩).log = log ++ [.disconnect client] from rfl,
        List.flatMap_append] at hc
      rcases List.mem_append.mp hc with h | h
      · exact hs.fresh c h
      · simp [clientOps] at h

theorem ClientState.connected {s : State} (hs : ClientState s) (hnone : s.connection = none) :
    ClientState { s.did [.connect (some s.fresh)] 1 with connection := some s.fresh } := by
  obtain ⟨log, connection, fresh, frame⟩ := s
  dsimp only at hnone
  subst hnone
  refine ⟨hs.frame, ?_, ?_⟩
  · have hlive : {c | some fresh = some c} = insert fresh {c | (none : Option Nat) = some c} := by
      ext c
      simp [eq_comm]
    show Custody _ ((log ++ [Event.connect (some fresh)]).flatMap clientOps) {c | some fresh = some c}
    rw [List.flatMap_append, hlive]
    refine hs.custody.acquire ?_ nofun
    intro h
    exact Nat.lt_irrefl _ (hs.fresh fresh h)
  · intro c hc
    have hc : Op.acquire c ∈ (log ++ [Event.connect (some fresh)]).flatMap clientOps := hc
    rw [List.flatMap_append] at hc
    rcases List.mem_append.mp hc with h | h
    · exact (hs.fresh c h).trans (Nat.lt_succ_self _)
    · simp [clientOps] at h
      rw [h]
      exact Nat.lt_succ_self _

/-- The generator is suspended with a cursor of the client. -/
def Generator.on (client : Nat) : Generator → Prop
  | .suspended _ f _ => ∃ k, f.collection = some (some k) ∧ k.client = client
  | _ => False

def Action.disconnects : Action → Bool
  | .connect .. | .close | .exit | .del => true
  | _ => false

/-- The client of the object is not disconnected while a generator is suspended on it. -/
def Calm (sys : System) (a : Action) : Prop :=
  a.disconnects = true → ∀ client, sys.state.connection = some client → ∀ i, ¬ (sys.generators i).on client

/-- A suspended generator has a session of the client. -/
def OnClient (connection : Option Nat) (g : Generator) : Prop :=
  ∀ blockSize f resume, g = .suspended blockSize f resume →
    ∃ h : Session, f = h.frame ∧ connection = some h.collection.client

structure ClientKept (sys : System) : Prop where
  state : ClientState sys.state
  generators : ∀ i, OnClient sys.state.connection (sys.generators i)

theorem clientKept_init : ClientKept System.init := by
  refine ⟨⟨rfl, ?_, nofun⟩, nofun⟩
  have hlive : {c | System.init.state.connection = some c} = ∅ := by
    ext c
    simp [System.init]
  rw [hlive]
  exact .nil

theorem onClient_frame {connection : Option Nat} {blockSize : Int} {h : Session} {resume : Resume}
    (hg : OnClient connection (.suspended blockSize h.frame resume)) :
    connection = some h.collection.client := by
  obtain ⟨h', hf, hc⟩ := hg _ _ _ rfl
  have hk : h.collection = h'.collection := by
    have := congrArg Frame.collection hf
    exact Option.some.inj (Option.some.inj this)
  rw [hk]
  exact hc

theorem onClient_turn {blockSize numRows : Int} {h : Session} {s s' : State}
    {o : Outcome PyExn (List MaskedArray × Resume) Fault Unit} {g' : Generator}
    (ht : Turn blockSize h numRows s (o, g', s')) (hc : s.connection = some h.collection.client) :
    OnClient s.connection g' ∧ ∃ t, (t = [] ∨ t = h.closing) ∧ s' = s.did t 0 := by
  rcases ht with _ | _ | _
  · refine ⟨?_, [], Or.inl rfl, (did_nil s).symm⟩
    intro _ _ _ hg
    cases hg
    exact ⟨h, rfl, hc⟩
  · refine ⟨?_, [], Or.inl rfl, (did_nil s).symm⟩
    intro _ _ _ hg
    cases hg
    exact ⟨h, rfl, hc⟩
  · exact ⟨nofun, h.closing, Or.inr rfl, rfl⟩

/-- A `close()` of a generator uses the client of the object. -/
theorem onClient_close {g : Generator} {s : State} (hg : OnClient s.connection g) :
    OnClient s.connection (g.close s).2.1 ∧ ∃ t n, UsesOnly s.connection t ∧ (g.close s).2.2 = s.did t n := by
  rcases g with ⟨a, blockSize⟩ | ⟨a, blockSize⟩ | ⟨blockSize, f, resume⟩ | _
  · exact ⟨nofun, [], 0, usesOnly_nil _, (did_nil s).symm⟩
  · exact ⟨nofun, [], 0, usesOnly_nil _, (did_nil s).symm⟩
  · obtain ⟨h, rfl, hc⟩ := hg _ _ _ rfl
    rw [close_suspended]
    exact ⟨nofun, h.closing, 0, (usesOnly_session hc none).of_subset (by simp), rfl⟩
  · exact ⟨nofun, [], 0, usesOnly_nil _, (did_nil s).symm⟩

theorem clientState_call {α : Type} {sys : System} {c : Py α} (hk : ClientKept sys)
    (hc : ∃ t n, UsesOnly sys.state.connection t ∧ (callMethod c sys.state).2 = sys.state.did t n) :
    ClientKept (sys.call c) := by
  obtain ⟨t, n, ht, hs⟩ := hc
  refine ⟨?_, ?_⟩
  · show ClientState (callMethod c sys.state).2
    rw [hs]
    exact hk.state.did ht n
  · intro i
    show OnClient (callMethod c sys.state).2.connection _
    rw [hs]
    exact hk.generators i

/-- The code of a generator of the client of the object has run. -/
theorem clientKept_resume {sys : System} {i : Nat}
    {r : Outcome PyExn (List MaskedArray × Resume) Fault Unit × Generator × State} (hk : ClientKept sys)
    (hr : OnClient sys.state.connection r.2.1 ∧ ∃ t n, UsesOnly sys.state.connection t ∧ r.2.2 = sys.state.did t n) :
    ClientKept (sys.resume i r) := by
  obtain ⟨hon, t, n, ht, hs⟩ := hr
  have hconn : r.2.2.connection = sys.state.connection := by rw [hs, connection_did]
  refine ⟨?_, ?_⟩
  · show ClientState r.2.2
    rw [hs]
    exact hk.state.did ht n
  · intro j
    show OnClient r.2.2.connection (Function.update sys.generators i r.2.1 j)
    rw [hconn]
    by_cases hj : j = i
    · rw [hj, Function.update_self]
      exact hon
    · rw [Function.update_of_ne hj]
      exact hk.generators j

/-- A method that makes episodes of calls keeps the client. -/
theorem clientKept_episodes {α : Type} {sys : System} {c : Py α} {leak crash : Prop} (hk : ClientKept sys)
    (hc : ∃ t n, Episodes sys.state.connection leak crash sys.state.fresh t n ∧
      (callMethod c sys.state).2 = sys.state.did t n) : ClientKept (sys.call c) := by
  obtain ⟨t, n, he, hs⟩ := hc
  exact clientState_call hk ⟨t, n, usesOnly_episodes he, hs⟩

/-- While no generator is suspended on the client, none is suspended. -/
theorem onClient_of_calm {sys : System} {a : Action} (hk : ClientKept sys) (hcalm : Calm sys a)
    (ha : a.disconnects = true) (connection : Option Nat) (i : Nat) : OnClient connection (sys.generators i) := by
  intro blockSize f resume hg
  obtain ⟨h, rfl, hc⟩ := hk.generators i blockSize f resume hg
  refine absurd ?_ (hcalm ha h.collection.client hc i)
  rw [hg]
  exact ⟨h.collection, rfl, rfl⟩

/-- A method that disconnects or connects, while no generator is suspended. -/
theorem clientKept_call {α : Type} {sys : System} {c : Py α} (hs : ClientState (callMethod c sys.state).2)
    (hg : ∀ connection i, OnClient connection (sys.generators i)) : ClientKept (sys.call c) :=
  ⟨hs, hg _⟩

theorem clientState_close {s : State} (hs : ClientState s) : ClientState (callMethod close s).2 := by
  have hframe : s.closed.within Frame.start = s.closed := by
    rw [← hs.closed.frame, within_frame]
  rw [callMethod_apply _ hs.frame, close_apply, hframe]
  exact hs.closed

theorem clientState_connect {s : State} (hs : ClientState s) (env : Env) (a : ConnectArgs) :
    ClientState (callMethod (connect env a) s).2 := by
  have hclosed := hs.closed
  have hframe {s' : State} (h : ClientState s') : ClientState (s'.within Frame.start) := by
    rw [← h.frame, within_frame]
    exact h
  rw [callMethod_apply _ hs.frame]
  rcases connect_cases env a s with ⟨e, h⟩ | h | h
  · rw [h]
    exact hframe hclosed
  · rw [h]
    refine hframe (hclosed.did ?_ 0)
    simp [UsesOnly, clientOps]
  · rw [h]
    exact hframe (hclosed.connected (connection_closed s))

section Step
variable [PyImpl] [CImpl]

/-- A `next()` uses the client of the object, and suspends the generator on it. -/
theorem onClient_next {env : Env} {g g' : Generator} {s s' : State}
    {o : Outcome PyExn (List MaskedArray × Resume) Fault Unit} (h : NextRun env s g (o, g', s'))
    (hg : OnClient s.connection g) :
    OnClient s.connection g' ∧ ∃ t n, UsesOnly s.connection t ∧ s' = s.did t n := by
  rcases h with ⟨_, e, -, -⟩ | ⟨_, p, e, t, n, -, -, ha⟩ | ⟨_, x, t, n, -, hx⟩ | ⟨_, p, h, r, _, -, -, hopen, ht⟩ |
    ⟨blockSize, h, e⟩ | ⟨blockSize, h, x, -⟩ | ⟨blockSize, h, r, _, -, ht⟩ | ⟨blockSize, h⟩ | _
  · exact ⟨nofun, [], 0, usesOnly_nil _, (did_nil s).symm⟩
  · exact ⟨nofun, t, n, usesOnly_aborted ha, rfl⟩
  · exact ⟨nofun, t, n, usesOnly_crashed hx, rfl⟩
  · obtain ⟨hon, t, hclose, rfl⟩ := onClient_turn ht hopen.handles.client
    refine ⟨hon, _, _, ?_, did_did _ _ _ _ _⟩
    refine (usesOnly_session hopen.handles.client (some ⟨r.calls, mongocCursorError r.mcursor⟩)).of_subset ?_
    rcases hclose with rfl | rfl
    · rw [List.append_nil]
      exact List.subset_append_left _ _
    · exact List.Subset.refl _
  · exact ⟨nofun, h.closing, 0, (usesOnly_session (onClient_frame hg) none).of_subset (by simp), rfl⟩
  · exact ⟨nofun, _, 0, (usesOnly_session (onClient_frame hg) none).of_subset (by simp), rfl⟩
  · have hc : s.connection = some h.collection.client := onClient_frame hg
    obtain ⟨hon, t, hclose, rfl⟩ := onClient_turn ht hc
    refine ⟨hon, _, _, ?_, did_did _ _ _ _ _⟩
    refine (usesOnly_session hc (some ⟨r.calls, mongocCursorError r.mcursor⟩)).of_subset ?_
    rcases hclose with rfl | rfl
    · simp [Session.loading]
    · simp [Session.loading]
  · exact ⟨nofun, h.closing, 0, (usesOnly_session (onClient_frame hg) none).of_subset (by simp), rfl⟩
  · exact ⟨nofun, [], 0, usesOnly_nil _, (did_nil s).symm⟩

/-- Every calm action keeps the client. -/
theorem clientKept_step {sys : System} {a : Action} (hk : ClientKept sys) (hen : sys.Enabled a)
    (hcalm : Calm sys a) : ClientKept (sys.step a) := by
  have hframe := hk.state.frame
  rcases a with ⟨env, a⟩ | _ | _ | _ | ⟨env, db, coll, query⟩ | ⟨env, inner, a, doCount⟩ | ⟨env, inner, a, doCount⟩ |
    ⟨i, g⟩ | ⟨env, i⟩ | i
  · exact clientKept_call (clientState_connect hk.state env a) (onClient_of_calm hk hcalm rfl)
  · exact clientKept_call (clientState_close hk.state) (onClient_of_calm hk hcalm rfl)
  · exact clientKept_call (clientState_close hk.state) (onClient_of_calm hk hcalm rfl)
  · exact clientKept_call (clientState_close hk.state) (onClient_of_calm hk hcalm rfl)
  · exact @clientKept_episodes _ _ _ True True hk
      (count_episodes (count_run env db coll query hframe) fun _ => trivial)
  · exact @clientKept_episodes _ _ _ True True hk
      (query_episodes hframe (query_run env inner a doCount hframe) (fun _ _ _ => trivial) fun _ => trivial)
  · exact @clientKept_episodes _ _ _ True True hk
      (aggregate_episodes hframe (aggregate_run env inner a doCount hframe) (fun _ => trivial)
        (fun _ _ => trivial) (fun _ _ _ _ _ _ _ _ => trivial) fun _ => trivial)
  · refine ⟨hk.state, ?_⟩
    intro j
    show OnClient sys.state.connection (Function.update sys.generators i g j)
    by_cases hj : j = i
    · rw [hj, Function.update_self]
      intro blockSize f resume hg
      have hcreated := (hen.2 i g rfl).1
      rw [hg] at hcreated
      cases hcreated
    · rw [Function.update_of_ne hj]
      exact hk.generators j
  · have hrun := next_run env sys.state (g := sys.generators i) fun blockSize f resume hg => by
      obtain ⟨h, hf, -⟩ := hk.generators i blockSize f resume hg
      exact ⟨h, hf⟩
    exact clientKept_resume hk (onClient_next hrun (hk.generators i))
  · exact clientKept_resume hk (onClient_close (hk.generators i))

theorem clientKept_of_run {sys : System} (h : System.Run Calm sys) : ClientKept sys := by
  induction h with
  | init => exact clientKept_init
  | step a _ hen hcalm ih => exact clientKept_step ih hen hcalm

/-- In every run in which no client is disconnected while a generator is suspended on it, no client is used or
disconnected after it was disconnected. -/
theorem clientsLive_of_run {sys : System} (h : System.Run Calm sys) : ClientsLive sys.state.log := by
  intro pre op post client hlog hop
  have hcustody := (clientKept_of_run h).state.custody
  rw [hlog] at hcustody
  exact (hcustody.not_released_before hop).2

end Step

/-! ## A suspended generator -/

/-- A server that takes every URI, finds every collection and has one document for every query. -/
def oneDocument : Env where
  raises _ := none
  encode _ := .ok []
  client _ := true
  collection := true
  count _ := 1
  find _ _ _ _ := some (MongocCursor.ofList [emptyDocument] false).reply
  aggregate _ := some (MongocCursor.ofList [emptyDocument] false).reply

def localhost : ConnectArgs := ⟨"mongodb://localhost", 27017, none, none, none, []⟩

/-- A query without columns; the bytes are those of an empty document. -/
def allDocuments : QueryArgs := ⟨"", "", .bytes [5, 0, 0, 0, 0], [], [], .none, .none, 0, 0, false⟩

section Examples

/-- A connection with a generator that has yielded its first block. -/
def suspendedBlock : System :=
  let _ := PyImpl.ascii
  let _ := CImpl.x86
  ((System.init.step (.connect oneDocument localhost)).step (.start 0 (.blockQuery allDocuments 1))).step
    (.next oneDocument 0)

theorem run_suspendedBlock {P : System → Action → Prop}
    (hP : ∀ sys a, a.disconnects = false ∨ sys.state.connection = none → P sys a) :
    @System.Run PyImpl.ascii CImpl.x86 P suspendedBlock := by
  let _ := PyImpl.ascii
  let _ := CImpl.x86
  have h₁ : System.Run P (System.init.step (.connect oneDocument localhost)) := by
    refine .step _ .init ⟨rfl, ?_⟩ (hP _ _ (Or.inr rfl))
    intro _ _ h
    cases h
  have h₂ : System.Run P ((System.init.step (.connect oneDocument localhost)).step
      (.start 0 (.blockQuery allDocuments 1))) := by
    refine .step _ h₁ ⟨rfl, ?_⟩ (hP _ _ (Or.inl rfl))
    intro i g h
    cases h
    exact ⟨rfl, rfl⟩
  refine .step (.next oneDocument 0) h₂ ⟨rfl, ?_⟩ (hP _ _ (Or.inl rfl))
  intro _ _ h
  cases h

/-- The generator has ended. -/
def finishedBlock : System :=
  let _ := PyImpl.ascii
  let _ := CImpl.x86
  suspendedBlock.step (.next oneDocument 0)

theorem finished_finishedBlock (i : Nat) : finishedBlock.generators i = .finished := by
  by_cases hi : i = 0
  · subst hi
    rfl
  · show Function.update _ 0 _ i = _
    rw [Function.update_of_ne hi]
    show Function.update _ 0 _ i = _
    rw [Function.update_of_ne hi]
    show Function.update _ 0 _ i = _
    rw [Function.update_of_ne hi]
    rfl

/-- The connection was closed after that and made anew, and a second generator has yielded its first block. -/
def reconnectedBlock : System :=
  let _ := PyImpl.ascii
  let _ := CImpl.x86
  (((finishedBlock.step .close).step (.connect oneDocument localhost)).step
    (.start 1 (.blockQuery allDocuments 1))).step (.next oneDocument 1)

/-- The first client was live until it was disconnected, and the second one is. -/
theorem clientsLive_reconnectedBlock : ClientsLive reconnectedBlock.state.log := by
  let _ := PyImpl.ascii
  let _ := CImpl.x86
  have hcalm (sys : System) (a : Action) (ha : a.disconnects = false ∨ sys.state.connection = none) : Calm sys a := by
    intro hdis client hc
    rcases ha with ha | ha
    · rw [hdis] at ha
      cases ha
    · rw [hc] at ha
      cases ha
  have hfinished : System.Run Calm finishedBlock := by
    refine .step (.next oneDocument 0) (run_suspendedBlock hcalm) ⟨rfl, ?_⟩ (hcalm _ _ (Or.inl rfl))
    rintro _ _ ⟨⟩
  have hclosed : System.Run Calm (finishedBlock.step .close) := by
    refine hfinished.step .close ⟨rfl, nofun⟩ ?_
    intro _ client _ i
    rw [finished_finishedBlock i]
    nofun
  have hconnected := hclosed.step (.connect oneDocument localhost) ⟨rfl, nofun⟩ (hcalm _ _ (Or.inr rfl))
  have hstarted : System.Run Calm (((finishedBlock.step .close).step (.connect oneDocument localhost)).step
      (.start 1 (.blockQuery allDocuments 1))) := by
    refine hconnected.step (.start 1 (.blockQuery allDocuments 1)) ⟨rfl, ?_⟩ (hcalm _ _ (Or.inl rfl))
    rintro _ _ ⟨⟩
    exact ⟨rfl, rfl⟩
  exact clientsLive_of_run (hstarted.step (.next oneDocument 1) ⟨rfl, nofun⟩ (hcalm _ _ (Or.inl rfl)))

/-- The connection is closed and the generator goes on. -/
def closedUnderBlock : System :=
  let _ := PyImpl.ascii
  let _ := CImpl.x86
  (suspendedBlock.step .close).step (.next oneDocument 0)

theorem not_forall_clientsLive :
    ¬ ∀ sys : System, @System.Run PyImpl.ascii CImpl.x86 (fun _ _ => True) sys → ClientsLive sys.state.log := by
  let _ := PyImpl.ascii
  let _ := CImpl.x86
  intro h
  have hclosed : System.Run (fun _ _ => True) (suspendedBlock.step .close) := by
    refine .step _ (run_suspendedBlock fun _ _ _ => trivial) ⟨rfl, ?_⟩ trivial
    intro _ _ h
    cases h
  have hrun : System.Run (fun _ _ => True) closedUnderBlock := by
    refine .step (.next oneDocument 0) hclosed ⟨rfl, ?_⟩ trivial
    intro _ _ h
    cases h
  have hlog : closedUnderBlock.state.log.flatMap clientOps =
      [Op.acquire 0, Op.use 0, Op.use 0, Op.use 0, Op.release 0] ++ Op.use 0 :: [Op.use 0, Op.use 0] := by decide
  exact h _ hrun _ _ _ 0 hlog (Or.inl rfl) (by decide)

end Examples

end Monary
