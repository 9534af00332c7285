import Monary.Python.Blocks
import Monary.Python.Sizing

/-!
# Cursors that fail

* `FailedIn` : a load of the run ended with the cursor in error; `RaisesOnFailure` : the run then raises;
* `query_failed`, `aggregate_failed`, `consumed_failed` : a run of `query`, and of a generator to its end, raises for
  no failed cursor, and `aggregate` only when the failed cursor is the one that counts;
* `raisesOnFailure_iff` : the three of them.
-/

namespace Monary
open ByteSeq CInt Effect

/-- The cursor had failed when a load with it returned. -/
def FailedIn (t : List Event) (cursor : CursorHandle) : Prop :=
  ∃ calls, .loadQuery cursor (some ⟨calls, true⟩) ∈ t

/-- The run raises if a cursor failed in it. -/
def RaisesOnFailure {α : Type} (o : Outcome PyExn (List MaskedArray × Resume) Fault α) (t : List Event) : Prop :=
  (∃ cursor, FailedIn t cursor) → ∃ e, o = .raised e

theorem failedIn_append {t t' : List Event} {cursor : CursorHandle} :
    FailedIn (t ++ t') cursor ↔ FailedIn t cursor ∨ FailedIn t' cursor := by
  unfold FailedIn
  simp only [List.mem_append, exists_or]

/-- No load returned. -/
def NoLoad (t : List Event) : Prop := ∀ cursor record, .loadQuery cursor (some record) ∉ t

theorem NoLoad.not_failedIn {t : List Event} (h : NoLoad t) (cursor : CursorHandle) : ¬ FailedIn t cursor :=
  fun ⟨_, hmem⟩ => h _ _ hmem

theorem noLoad_counted {connection : Option Nat} {fresh : Nat} {t : List Event} {n : Nat}
    (h : Counted connection fresh t n) : NoLoad t := by
  rcases h with _ | _ | ⟨k, asked, -, -, rfl | rfl⟩ <;> simp [NoLoad]

theorem noLoad_aborted {connection : Option Nat} {fresh : Nat} {leak : Prop} {t : List Event} {n : Nat}
    (h : Aborted connection fresh leak t n) : NoLoad t := by
  rcases h with _ | _ | _ | _ | ⟨k, asked, -, -, rfl | rfl⟩ | h <;> simp [NoLoad, Session.opening, Session.closing]

theorem noLoad_crashed {connection : Option Nat} {fresh : Nat} {t : List Event} {n : Nat}
    (h : Crashed connection fresh t n) : NoLoad t := by
  rcases h with _ | _ <;> simp [NoLoad, Session.opening]

theorem failedIn_session {h : Session} {r : LoadState} {cursor : CursorHandle} :
    FailedIn (h.opening ++ [h.loading r] ++ h.closing) cursor ↔ cursor = h.cursor ∧ r.mcursor.failed = true := by
  unfold FailedIn
  simp [Session.opening, Session.closing, Session.loading, mongocCursorError]

theorem failed_of_failedIn {pre t : List Event} {h : Session} {r : LoadState} {cursor : CursorHandle} (hpre : NoLoad pre)
    (ht : NoLoad t) (hfail : FailedIn (pre ++ [h.loading r] ++ t) cursor) : r.mcursor.failed = true := by
  rcases failedIn_append.mp hfail with hfail | hfail
  · rcases failedIn_append.mp hfail with hfail | ⟨calls, hmem⟩
    · exact absurd hfail (hpre.not_failedIn cursor)
    · have heq := List.mem_singleton.mp hmem
      simp only [Session.loading, mongocCursorError, Event.loadQuery.injEq, Option.some.injEq, LoadRecord.mk.injEq] at heq
      exact heq.2.2.symm
  · exact absurd hfail (ht.not_failedIn cursor)

section Failures
variable [PyImpl] [CImpl] {env inner : Env} {s s' : State}

/-! ## `query` -/

/-- The session of `query` and `aggregate`: the calls it makes, of which only one that returns has a failed cursor. -/
theorem rowsRun_failed {p : Plan} {count : Int} {o : Outcome PyExn (List MaskedArray × Resume) Fault (List MaskedArray)}
    (h : RowsRun env p count s (o, s')) :
    ∃ t n f, s' = (s.did t n).within f ∧
      ∀ cursor, FailedIn t cursor → (∃ arrays, o = .returned arrays) ∧ cursor.id = s.fresh + 2 := by
  rcases h with ⟨e, t, n, f, ha⟩ | ⟨x, t, n, f, hx⟩ | ⟨h, r, hopen⟩
  · exact ⟨t, n, f, rfl, fun cursor hfail => absurd hfail ((noLoad_aborted ha).not_failedIn cursor)⟩
  · exact ⟨t, n, f, rfl, fun cursor hfail => absurd hfail ((noLoad_crashed hx).not_failedIn cursor)⟩
  · refine ⟨_, _, _, rfl, fun cursor hfail => ⟨⟨_, rfl⟩, ?_⟩⟩
    obtain ⟨rfl, -⟩ := failedIn_session.mp hfail
    exact hopen.handles.cursor

omit [PyImpl] [CImpl] in
theorem trace_eq {t t' : List Event} (h : s.log ++ t = s.log ++ t') : t = t' := List.append_cancel_left h

omit [PyImpl] [CImpl] in
theorem raises_iff_of_returned {α : Type} {o : Outcome PyExn (List MaskedArray × Resume) Fault α} {t : List Event}
    (h : ∀ cursor, FailedIn t cursor → ∃ a, o = .returned a) : RaisesOnFailure o t ↔ ∀ cursor, ¬ FailedIn t cursor := by
  constructor
  · intro hr cursor hfail
    obtain ⟨e, he⟩ := hr ⟨cursor, hfail⟩
    obtain ⟨a, ha⟩ := h cursor hfail
    rw [ha] at he
    cases he
  · rintro hno ⟨cursor, hfail⟩
    exact absurd hfail (hno cursor)

/-- `query` returns its arrays when its cursor has failed. -/
theorem query_failed {a : QueryArgs} {doCount : Bool} (hs : s.frame = Frame.start)
    {o : Outcome PyExn (List MaskedArray × Resume) Fault (List MaskedArray)} {t : List Event}
    (h : callMethod (query env inner a doCount) s = (o, s')) (ht : s'.log = s.log ++ t) {cursor : CursorHandle}
    (hfail : FailedIn t cursor) : ∃ arrays, o = .returned arrays := by
  have hrun := query_run env inner a doCount hs
  rw [h] at hrun
  rcases hrun with ⟨e, t', n, hc⟩ | ⟨x, k, -, -⟩ | ⟨fullQuery, m, t', n, o, s₁, -, -, hc, hrows⟩
  · obtain rfl := trace_eq ht
    exact absurd hfail ((noLoad_counted hc).not_failedIn cursor)
  · obtain rfl := trace_eq ht
    unfold FailedIn at hfail
    simp at hfail
  · obtain ⟨t'', n', f, rfl, hfailed⟩ := rowsRun_failed hrows
    have ht : (s.log ++ t') ++ t'' = s.log ++ t := ht
    rw [List.append_assoc] at ht
    obtain rfl := trace_eq ht
    rcases failedIn_append.mp hfail with hfail | hfail
    · exact absurd hfail ((noLoad_counted hc).not_failedIn cursor)
    · exact (hfailed cursor hfail).1

/-! ## `aggregate` -/

omit [PyImpl] [CImpl] in
/-- A cursor that fails has not had as many documents as it was asked for. -/
theorem length_take_of_failed {cursor : MongocCursor} {n : Nat} (hn : 0 < n) (h : (cursor.after n).failed = true) :
    (cursor.take n).length < n := by
  induction n generalizing cursor with
  | zero => omega
  | succ n ih =>
    rw [MongocCursor.take]
    rw [MongocCursor.after] at h
    rcases hnext : mongocCursorNext cursor with ⟨_ | bson, cursor'⟩
    · simp
    · rw [hnext] at h
      dsimp only at h ⊢
      rw [List.length_cons]
      rcases Nat.eq_zero_or_pos n with rfl | hpos
      · obtain ⟨hf, rfl⟩ := mongocCursorNext_pos hnext
        rw [MongocCursor.after] at h
        have h : cursor.failed = true := h
        rw [hf] at h
        cases h
      · have := ih hpos h
        omega

/-- The call that counts does not return a number when its cursor has failed. -/
theorem countOf_of_failed {a : AggregateArgs} {encoded : Bytes} {connection : Option Nat} {fresh : Nat} {h : Session}
    {r : LoadState} (hopen : Opens inner (countPlan inner a encoded) 1 connection fresh h r)
    (hf : r.mcursor.failed = true) : ∃ e, countOf ((h.loaded r).arrays 1) = .error e := by
  have h1 : (0 : Int) ≤ 1 := by decide
  have hcd := holds_accepted h1 hopen.accepts
  obtain ⟨-, cts, hcts, hcols⟩ := (accepts_iff h1).mp hopen.accepts
  have hctseq : cts = [countColumn] := by
    have htypes := acceptable_types hcts
    have hcol : [("count", "int64")].map (fun q => columnType q.1 q.2) = [countColumn].map some := rfl
    exact (List.map_injective_iff.mpr (Option.some_injective _) (hcol.symm.trans htypes)).symm
  have hrows : h.columns.numRows = 1 := by
    rw [hcols]
    rfl
  have hr := monaryLoadQuery_eq_ok hcd hopen.load
  have hnil : h.mcursor.take h.columns.numRows = [] := by
    have hlt : (h.mcursor.take h.columns.numRows).length < h.columns.numRows :=
      length_take_of_failed (by omega) (by rw [hr] at hf; exact hf)
    rw [hrows] at hlt ⊢
    exact List.eq_nil_of_length_eq_zero (by omega)
  have harrays : (h.loaded r).arrays 1 = arraysOf [countColumn] 1 [] := by
    rw [hr]
    show (h.columns.putAll 0 (h.mcursor.take h.columns.numRows)).columns.map _ = _
    rw [hnil, hcols, hctseq]
    rfl
  rw [harrays]
  exact ⟨_, countOf_none⟩

/-- The cursor is the one with which `aggregate` counts. -/
def Counting (a : AggregateArgs) (doCount : Bool) (fresh : Nat) (cursor : CursorHandle) : Prop :=
  ¬ (doCount = false ∧ a.limit > 0) ∧ cursor.id = fresh + 2

/-- `aggregate` raises when the cursor that failed is the one that counts, and returns its arrays when it is the other. -/
theorem aggregate_failed {a : AggregateArgs} {doCount : Bool} (hs : s.frame = Frame.start)
    {o : Outcome PyExn (List MaskedArray × Resume) Fault (List MaskedArray)} {t : List Event}
    (h : callMethod (aggregate env inner a doCount) s = (o, s')) (ht : s'.log = s.log ++ t) {cursor : CursorHandle}
    (hfail : FailedIn t cursor) :
    Counting a doCount s.fresh cursor ∧ (∃ e, o = .raised e) ∨
      ¬ Counting a doCount s.fresh cursor ∧ ∃ arrays, o = .returned arrays := by
  have hrun := aggregate_run env inner a doCount hs
  rw [h] at hrun
  rcases hrun with e | ⟨encoded, o, s₁, hlim, hrows⟩ | ⟨encoded, e, s₁, -, -, hrows⟩ | ⟨encoded, x, s₁, -, hrows⟩ |
    ⟨encoded, arrays, e, s₁, hlim, -, hrows⟩ | ⟨encoded, arrays, m, s₁, encoded', o, s₂, hlim, -, hrows, hm, hrows'⟩
  · have hnil : t = [] := by simpa using ht
    rw [hnil] at hfail
    obtain ⟨_, hmem⟩ := hfail
    cases hmem
  · obtain ⟨t', n, f, rfl, hfailed⟩ := rowsRun_failed hrows
    obtain rfl := trace_eq ht
    exact Or.inr ⟨fun hc => hc.1 hlim, (hfailed cursor hfail).1⟩
  · obtain ⟨t', n, f, rfl, hfailed⟩ := rowsRun_failed hrows
    obtain rfl := trace_eq ht
    obtain ⟨⟨_, harr⟩, -⟩ := hfailed cursor hfail
    cases harr
  · obtain ⟨t', n, f, rfl, hfailed⟩ := rowsRun_failed hrows
    obtain rfl := trace_eq ht
    obtain ⟨⟨_, harr⟩, -⟩ := hfailed cursor hfail
    cases harr
  · obtain ⟨t', n, f, rfl, hfailed⟩ := rowsRun_failed hrows
    obtain rfl := trace_eq ht
    exact Or.inl ⟨⟨hlim, (hfailed cursor hfail).2⟩, e, rfl⟩
  · rcases hrows with _ | _ | ⟨sess, r, hopen⟩
    obtain ⟨t', n, f, rfl, hfailed⟩ := rowsRun_failed hrows'
    have ht : (s.log ++ (sess.opening ++ [sess.loading r] ++ sess.closing)) ++ t' = s.log ++ t := ht
    rw [List.append_assoc] at ht
    obtain rfl := trace_eq ht
    rcases failedIn_append.mp hfail with hfail | hfail
    · obtain ⟨-, hf⟩ := failedIn_session.mp hfail
      obtain ⟨e, he⟩ := countOf_of_failed hopen hf
      rw [he] at hm
      cases hm
    · obtain ⟨harr, hid⟩ := hfailed cursor hfail
      refine Or.inr ⟨fun hc => ?_, harr⟩
      have hid : cursor.id = s.fresh + 3 + 2 := hid
      have hcount := hc.2
      omega

/-! ## Generators -/

/-- `for block in generator` until a `next()` yields no more: how the last one ends. -/
inductive Consumed (env : Env) :
    Generator → State → Outcome PyExn (List MaskedArray × Resume) Fault Unit → State → Prop
  | last {g g' : Generator} {s s' : State} {o : Outcome PyExn (List MaskedArray × Resume) Fault Unit} :
      g.next env s = (o, g', s') → (∀ b, o ≠ .yielded b) → Consumed env g s o s'
  | block {g g' : Generator} {s s' s'' : State} {b : List MaskedArray × Resume}
      {o : Outcome PyExn (List MaskedArray × Resume) Fault Unit} : g.next env s = (.yielded b, g', s') →
      Consumed env g' s' o s'' → Consumed env g s o s''

/-- The columns of a suspended generator are made for its blocks. -/
def Generator.Sized (g : Generator) : Prop :=
  ∀ blockSize f resume, g = .suspended blockSize f resume →
    ∃ h : Session, f = h.frame ∧ h.columns.Holds blockSize.toNat ∧ 0 < blockSize

omit [PyImpl] [CImpl] in
theorem Generator.sized_created {g : Generator} (hg : g.created = true) : g.Sized := by
  rintro _ _ _ rfl
  cases hg

omit [PyImpl] in
/-- When the cursor has failed in a load, the turn is not full. -/
theorem row_lt_of_failed {blockSize : Int} {h : Session} {r : LoadState} (hcd : h.columns.Holds blockSize.toNat)
    (hpos : 0 < blockSize) (hload : monaryLoadQuery h.columns h.mcursor = .ok r) (hf : r.mcursor.failed = true) :
    (r.row : Int) ≠ blockSize := by
  have hr := monaryLoadQuery_eq_ok hcd hload
  have hle := hcd.le
  have hrem := (remaining_take h.mcursor h.columns.numRows).le
  have hrow : r.row = (h.mcursor.take h.columns.numRows).length := by
    rw [hr]
    exact Nat.zero_add _
  rcases Nat.eq_zero_or_pos h.columns.numRows with h0 | h0
  · omega
  · have hlt : (h.mcursor.take h.columns.numRows).length < h.columns.numRows :=
      length_take_of_failed h0 (by rw [hr] at hf; exact hf)
    omega

omit [PyImpl] in
/-- A turn makes no further load, and when the cursor has failed in its load it is the last or the last but one. -/
theorem turn_failed {blockSize : Int} {h : Session} {r : LoadState} {t u : State} {g' : Generator}
    {o : Outcome PyExn (List MaskedArray × Resume) Fault Unit} (hcd : h.columns.Holds blockSize.toNat)
    (hpos : 0 < blockSize) (hload : monaryLoadQuery h.columns h.mcursor = .ok r)
    (ht : Turn blockSize (h.loaded r) r.row t (o, g', u)) :
    (∃ t', u = t.did t' 0 ∧ NoLoad t') ∧ g'.Sized ∧
      (r.mcursor.failed = true → o = .returned () ∨
        ∃ b h', o = .yielded b ∧ g' = .suspended blockSize (Session.frame h') .stop) := by
  have hr := monaryLoadQuery_eq_ok hcd hload
  have hrem := (remaining_take h.mcursor h.columns.numRows).le
  have hloaded : (h.loaded r).columns.Holds blockSize.toNat := by
    show r.coldata.Holds blockSize.toNat
    rw [hr]
    exact hcd.putAll (by rw [Nat.zero_add]; exact hrem)
  rcases ht with hfull | _ | _
  · refine ⟨⟨[], (did_nil t).symm, fun _ _ hmem => by cases hmem⟩, ?_, fun hf => ?_⟩
    · rintro _ _ _ ⟨⟩
      exact ⟨h.loaded r, rfl, hloaded, hpos⟩
    · exact absurd hfull (row_lt_of_failed hcd hpos hload hf)
  · refine ⟨⟨[], (did_nil t).symm, fun _ _ hmem => by cases hmem⟩, ?_, fun _ => Or.inr ⟨_, _, rfl, rfl⟩⟩
    rintro _ _ _ ⟨⟩
    exact ⟨h.loaded r, rfl, hloaded, hpos⟩
  · refine ⟨⟨h.closing, rfl, ?_⟩, nofun, fun _ => Or.inl rfl⟩
    simp [NoLoad, Session.closing]

/-- What a `next()` does when a cursor has failed in it: it is the last or the last but one. -/
theorem next_failed {g g' : Generator} {o : Outcome PyExn (List MaskedArray × Resume) Fault Unit} (hg : g.Sized)
    (h : g.next env s = (o, g', s')) :
    g'.Sized ∧ ∃ t n, s' = s.did t n ∧ ∀ cursor, FailedIn t cursor →
      o = .returned () ∨ ∃ b blockSize h', o = .yielded b ∧ g' = .suspended blockSize (Session.frame h') .stop := by
  have hrun := next_run env s fun blockSize f resume heq => by
    obtain ⟨h, hf, -⟩ := hg blockSize f resume heq
    exact ⟨h, hf⟩
  rw [h] at hrun
  have hnone {t : List Event} {P : Prop} (hno : NoLoad t) : ∀ cursor, FailedIn t cursor → P :=
    fun cursor hfail => absurd hfail (hno.not_failedIn cursor)
  have hno : NoLoad [] := fun _ _ hmem => by cases hmem
  clear h
  rcases hrun with ⟨_, e, -, -⟩ | ⟨_, p, e, t, n, -, -, ha⟩ | ⟨_, x, t, n, -, hx⟩ | ⟨_, p, sess, r, _, hc, -, hopen, ht⟩ |
    ⟨blockSize, sess, e⟩ | ⟨blockSize, sess, x, -⟩ | ⟨blockSize, sess, r, _, hload, ht⟩ | ⟨blockSize, sess⟩ | _
  · exact ⟨nofun, [], 0, (did_nil s).symm, hnone hno⟩
  · exact ⟨nofun, t, n, rfl, hnone (noLoad_aborted ha)⟩
  · exact ⟨nofun, t, n, rfl, hnone (noLoad_crashed hx)⟩
  · have hpos := blockSize_created hc
    have hcd := holds_accepted (by omega) hopen.accepts
    obtain ⟨⟨t', hu, hno'⟩, hsized, hfailed⟩ := turn_failed hcd hpos hopen.load ht
    refine ⟨hsized, sess.opening ++ [sess.loading r] ++ t', 3, ?_, fun cursor hfail => ?_⟩
    · rw [hu, did_did]
    · have hf := failed_of_failedIn (by simp [NoLoad, Session.opening]) hno' hfail
      rcases hfailed hf with hret | ⟨b, h', hb⟩
      · exact Or.inl hret
      · exact Or.inr ⟨b, _, h', hb⟩
  · exact ⟨nofun, sess.closing, 0, rfl, hnone (by simp [NoLoad, Session.closing])⟩
  · exact ⟨nofun, _, 0, rfl, hnone (by simp [NoLoad])⟩
  · obtain ⟨sess', hf, hcd, hpos⟩ := hg _ _ _ rfl
    have heq : sess'.columns = sess.columns :=
      (congrArg Prod.snd (Option.some.inj (congrArg Frame.coldata hf))).symm
    rw [heq] at hcd
    obtain ⟨⟨t', hu, hno'⟩, hsized, hfailed⟩ := turn_failed hcd hpos hload ht
    refine ⟨hsized, [sess.loading r] ++ t', 0, ?_, fun cursor hfail => ?_⟩
    · rw [hu, did_did]
    · have hf := failed_of_failedIn hno hno' (h := sess) (r := r) hfail
      rcases hfailed hf with hret | ⟨b, h', hb⟩
      · exact Or.inl hret
      · exact Or.inr ⟨b, _, h', hb⟩
  · exact ⟨nofun, sess.closing, 0, rfl, hnone (by simp [NoLoad, Session.closing])⟩
  · exact ⟨nofun, [], 0, (did_nil s).symm, hnone hno⟩

/-- A run of a generator to its end, in which a cursor failed, returns. -/
theorem consumed_failed {g : Generator} {o : Outcome PyExn (List MaskedArray × Resume) Fault Unit}
    (h : Consumed env g s o s') :
    g.Sized → ∃ t, s'.log = s.log ++ t ∧ ∀ cursor, FailedIn t cursor → ∃ a, o = .returned a := by
  induction h with
  | last hnext hlast =>
    intro hg
    obtain ⟨-, t, n, rfl, hfailed⟩ := next_failed hg hnext
    refine ⟨t, rfl, fun cursor hfail => ?_⟩
    rcases hfailed cursor hfail with ho | ⟨b, blockSize, h', ho, -⟩
    · exact ⟨(), ho⟩
    · exact absurd ho (hlast b)
  | @block g g' s s' s'' b o hnext hrest ih =>
    intro hg
    obtain ⟨hg', t, n, rfl, hfailed⟩ := next_failed hg hnext
    obtain ⟨t', ht', hfailed'⟩ := ih hg'
    refine ⟨t ++ t', by rw [ht', log_did, List.append_assoc], fun cursor hfail => ?_⟩
    rcases failedIn_append.mp hfail with hfail | hfail
    · -- the generator has broken off its loop
      rcases hfailed cursor hfail with ho | ⟨b, blockSize, h', -, rfl⟩
      · cases ho
      · have hstop := next_stop env blockSize h' (s.did t n)
        rcases hrest with ⟨hnext', -⟩ | ⟨hnext', -⟩
        · rw [hstop] at hnext'
          cases hnext'
          exact ⟨(), rfl⟩
        · rw [hstop] at hnext'
          cases hnext'
    · exact hfailed' cursor hfail

/-- A run raises for a cursor that failed in it only when it is the one with which `aggregate` counts. -/
theorem raisesOnFailure_iff :
    (∀ (env inner : Env) (a : QueryArgs) (doCount : Bool) (s s' : State) (t : List Event) o, s.frame = Frame.start →
      callMethod (query env inner a doCount) s = (o, s') → s'.log = s.log ++ t →
      (RaisesOnFailure o t ↔ ∀ cursor, ¬ FailedIn t cursor)) ∧
    (∀ (env inner : Env) (a : AggregateArgs) (doCount : Bool) (s s' : State) (t : List Event) o, s.frame = Frame.start →
      callMethod (aggregate env inner a doCount) s = (o, s') → s'.log = s.log ++ t →
      (RaisesOnFailure o t ↔ ∀ cursor, FailedIn t cursor → Counting a doCount s.fresh cursor)) ∧
    ∀ (env : Env) (g : Generator) (s s' : State) (t : List Event) o, g.created = true → Consumed env g s o s' →
      s'.log = s.log ++ t → (RaisesOnFailure o t ↔ ∀ cursor, ¬ FailedIn t cursor) := by
  refine ⟨?_, ?_, ?_⟩
  · intro env inner a doCount s s' t o hs h ht
    exact raises_iff_of_returned fun cursor hfail => query_failed hs h ht hfail
  · intro env inner a doCount s s' t o hs h ht
    constructor
    · intro hr cursor hfail
      obtain ⟨e, rfl⟩ := hr ⟨cursor, hfail⟩
      rcases aggregate_failed hs h ht hfail with ⟨hc, -⟩ | ⟨-, arrays, harr⟩
      · exact hc
      · cases harr
    · rintro hall ⟨cursor, hfail⟩
      rcases aggregate_failed hs h ht hfail with ⟨-, hr⟩ | ⟨hc, -⟩
      · exact hr
      · exact absurd (hall cursor hfail) hc
  · intro env g s s' t o hg h ht
    obtain ⟨t', ht', hfailed⟩ := consumed_failed h (Generator.sized_created hg)
    rw [ht] at ht'
    obtain rfl := trace_eq ht'
    exact raises_iff_of_returned hfailed

end Failures

/-! ## A cursor that fails at once -/

/-- A server whose cursors fail. -/
def failingServer : Env := { pipelineServer [] [] with aggregate := fun _ => some (MongocCursor.ofList [] true).reply }

/-- The session of a method that asks it for a column of one row. -/
def failingSession (ct : ColumnType) : Session := .first [ct] 1 0 1 (MongocCursor.ofList [] true).reply

/-- Its load. -/
def failingLoad (ct : ColumnType) : LoadState :=
  ⟨freshColumns [ct] 1, ⟨(MongocCursor.ofList [] true).reply, 0, true⟩, 0, []⟩

def failingTrace (ct : ColumnType) : List Event :=
  (failingSession ct).opening ++ [(failingSession ct).loading (failingLoad ct)] ++ (failingSession ct).closing

theorem failedIn_failingTrace {ct : ColumnType} {cursor : CursorHandle} :
    FailedIn (failingTrace ct) cursor ↔ cursor = (failingSession ct).cursor := by
  unfold failingTrace
  rw [failedIn_session]
  exact ⟨And.left, fun h => ⟨h, rfl⟩⟩

/-- Without a count the arrays are returned. -/
theorem not_forall_raisesOnFailure :
    ¬ ∀ env inner a doCount s s' t o, s.frame = Frame.start →
      callMethod (@aggregate PyImpl.ascii CImpl.x86 env inner a doCount) s = (o, s') → s'.log = s.log ++ t →
      RaisesOnFailure o t := by
  intro h
  let _ := PyImpl.ascii
  let _ := CImpl.x86
  have hrun : callMethod (aggregate failingServer failingServer (oneColumn "int8" 1) false) connectedState =
      (.returned (((failingSession ⟨[0x64], .int8, 0⟩).loaded (failingLoad ⟨[0x64], .int8, 0⟩)).arrays 1),
        connectedState.did (failingTrace ⟨[0x64], .int8, 0⟩) 3) := by
    rw [aggregate_eq]
    rfl
  obtain ⟨e, he⟩ := h _ _ _ _ _ _ _ _ rfl hrun rfl ⟨_, failedIn_failingTrace.mpr rfl⟩
  cases he

/-- With a count it is the count that fails. -/
theorem raisesOnFailure_count : ∃ e,
    (callMethod (@aggregate PyImpl.ascii CImpl.x86 failingServer failingServer (oneColumn "int8" 0) true)
      connectedState).1 = .raised e := by
  let _ := PyImpl.ascii
  let _ := CImpl.x86
  have hrun : callMethod (aggregate failingServer failingServer (oneColumn "int8" 0) true) connectedState =
      (.raised ⟨.runtimeError, "Failed to count the aggregation size", []⟩,
        connectedState.did (failingTrace countColumn) 3) := by
    rw [aggregate_eq]
    rfl
  have hcounting : ∀ cursor, FailedIn (failingTrace countColumn) cursor →
      Counting (oneColumn "int8" 0) true connectedState.fresh cursor := by
    intro cursor hfail
    obtain rfl := failedIn_failingTrace.mp hfail
    exact ⟨nofun, rfl⟩
  obtain ⟨e, he⟩ := (raisesOnFailure_iff.2.1 _ _ _ _ _ _ _ _ rfl hrun rfl).mpr hcounting
    ⟨_, failedIn_failingTrace.mpr rfl⟩
  rw [hrun]
  exact ⟨e, he⟩

end Monary
