import Monary.Python.Runs

/-!
# Calls that leave nothing open

`Episodes` : the calls of a method that is no generator, one episode after the other: a `count`, a session that
raised before its first load returned, a session whose load returned, and at the end perhaps one that
ended in a fault.

* `query_episodes`, `aggregate_episodes`, `count_episodes` : these are the calls the methods make.
-/

namespace Monary
open CInt Effect

/-- Episodes from handle `fresh` on; `leak` is what lets a session raise with a column refused, `crash` what
lets the last one end in a fault. -/
inductive Episodes (connection : Option Nat) (leak crash : Prop) : Nat → List Event → Nat → Prop
  | nil (fresh : Nat) : Episodes connection leak crash fresh [] 0
  | counted {fresh : Nat} {t t' : List Event} {n n' : Nat} : Counted connection fresh t n →
      Episodes connection leak crash (fresh + n) t' n' →
      Episodes connection leak crash fresh (t ++ t') (n + n')
  | aborted {fresh : Nat} {t t' : List Event} {n n' : Nat} : Aborted connection fresh leak t n →
      Episodes connection leak crash (fresh + n) t' n' →
      Episodes connection leak crash fresh (t ++ t') (n + n')
  | loaded {fresh : Nat} (h : Session) (r : LoadState) {t' : List Event} {n' : Nat} :
      h.OpenedFrom connection fresh → Episodes connection leak crash (fresh + 3) t' n' →
      Episodes connection leak crash fresh (h.opening ++ [h.loading r] ++ h.closing ++ t') (3 + n')
  | crashed {fresh : Nat} {t : List Event} {n : Nat} : crash → Crashed connection fresh t n →
      Episodes connection leak crash fresh t n
  | countCrashed {fresh : Nat} (k : CollectionHandle) : crash → connection = some k.client → k.id = fresh →
      Episodes connection leak crash fresh [.useCollection k.client (some k), .queryCount k] 1

theorem Aborted.mono {connection : Option Nat} {fresh : Nat} {leak leak' : Prop} {t : List Event} {n : Nat}
    (h : Aborted connection fresh leak t n) (hl : leak → leak') : Aborted connection fresh leak' t n := by
  rcases h with _ | h | _ | ⟨client, hc⟩ | ⟨k, asked, hc, hk, ha⟩ | ⟨h, ho⟩
  · exact .start
  · exact .refused (hl h)
  · exact .unconnected
  · exact .noCollection client hc
  · exact .noCursor k asked hc hk ha
  · exact .noLoad h ho

/-- The fault of an outcome. -/
def faultOf {α : Type} : Outcome PyExn (List MaskedArray × Resume) Fault α → Option Fault
  | .fault x => some x
  | _ => none

section Episodes
variable {leak crash : Prop}

theorem episode_counted {connection : Option Nat} {fresh : Nat} {t : List Event} {n : Nat}
    (h : Counted connection fresh t n) : Episodes connection leak crash fresh t n := by
  have he : Episodes connection leak crash fresh (t ++ []) (n + 0) := .counted h (.nil _)
  rwa [List.append_nil] at he

variable [PyImpl] [CImpl]

/-- The session of `query` and `aggregate` is one episode. -/
theorem rows_episodes {env : Env} {p : Plan} {count : Int} {s s' : State}
    {o : Outcome PyExn (List MaskedArray × Resume) Fault (List MaskedArray)} (h : RowsRun env p count s (o, s'))
    (hleak : Refuses env p.fields p.types count → leak) (hcrash : (faultOf o).isSome → crash) :
    ∃ t n, Episodes s.connection leak crash s.fresh t n ∧
      s'.within Frame.start = (s.did t n).within Frame.start := by
  rcases h with ⟨e, t, n, f, ha⟩ | ⟨x, t, n, f, hx⟩ | ⟨h, r, hopen⟩
  · refine ⟨t, n, ?_, rfl⟩
    have he : Episodes s.connection leak crash s.fresh (t ++ []) (n + 0) := .aborted (ha.mono hleak) (.nil _)
    rwa [List.append_nil] at he
  · exact ⟨t, n, .crashed (hcrash rfl) hx, rfl⟩
  · refine ⟨h.opening ++ [h.loading r] ++ h.closing, 3, ?_, rfl⟩
    have he : Episodes s.connection leak crash s.fresh (h.opening ++ [h.loading r] ++ h.closing ++ []) (3 + 0) :=
      .loaded h r hopen.handles (.nil _)
    rwa [List.append_nil] at he

omit [PyImpl] [CImpl] in
theorem count_episodes {s s' : State} {o : Outcome PyExn (List MaskedArray × Resume) Fault Int}
    (h : CountRun s (o, s')) (hcrash : (faultOf o).isSome → crash) :
    ∃ t n, Episodes s.connection leak crash s.fresh t n ∧ s' = s.did t n := by
  rcases h with ⟨e, t, n, hc⟩ | ⟨x, k, hkc, hki⟩ | ⟨m, t, n, -, hc⟩
  · exact ⟨t, n, episode_counted hc, rfl⟩
  · exact ⟨_, _, .countCrashed k (hcrash rfl) hkc hki, rfl⟩
  · exact ⟨t, n, episode_counted hc, rfl⟩

theorem query_episodes {env : Env} {a : QueryArgs} {s s' : State}
    {o : Outcome PyExn (List MaskedArray × Resume) Fault (List MaskedArray)} (hs : s.frame = Frame.start)
    (h : QueryRun env a s (o, s')) (hleak : ∀ m, 0 ≤ m → Refuses env a.fields a.types (limited m a.limit) → leak)
    (hcrash : (faultOf o).isSome → crash) :
    ∃ t n, Episodes s.connection leak crash s.fresh t n ∧ s' = s.did t n := by
  rcases h with ⟨e, t, n, hc⟩ | ⟨x, k, hkc, hki⟩ | ⟨fullQuery, m, t, n, o, s₁, -, hm, hc, hrows⟩
  · exact ⟨t, n, episode_counted hc, rfl⟩
  · exact ⟨_, _, .countCrashed k (hcrash rfl) hkc hki, rfl⟩
  · obtain ⟨t', n', he, hs'⟩ := rows_episodes hrows (hleak m hm) hcrash
    refine ⟨t ++ t', n + n', .counted hc he, ?_⟩
    rw [hs', did_did, ← hs]
    rfl

theorem aggregate_episodes {env inner : Env} {a : AggregateArgs} {doCount : Bool} {s s' : State}
    {o : Outcome PyExn (List MaskedArray × Resume) Fault (List MaskedArray)} (hs : s.frame = Frame.start)
    (h : AggregateRun env inner a doCount s (o, s')) (hinner : Refuses inner ["count"] ["int64"] 1 → leak)
    (hsized : 0 < a.limit → Refuses env a.fields a.types a.limit → leak)
    (hcounted : ∀ encoded f h r m, Opens inner (countPlan inner a encoded) 1 s.connection f h r →
      countOf ((h.loaded r).arrays 1) = .ok m → Refuses env a.fields a.types (limited m a.limit) → leak)
    (hcrash : (faultOf o).isSome → crash) :
    ∃ t n, Episodes s.connection leak crash s.fresh t n ∧ s' = s.did t n := by
  have hframe (t : List Event) (n : Nat) : (s.did t n).within Frame.start = s.did t n := by
    rw [← hs]
    rfl
  rcases h with e | ⟨encoded, o, s₁, hlim, hrows⟩ | ⟨encoded, e, s₁, -, -, hrows⟩ | ⟨encoded, x, s₁, -, hrows⟩ |
    ⟨encoded, arrays, e, s₁, -, -, hrows⟩ | ⟨encoded, arrays, m, s₁, encoded', o, s₂, -, -, hrows, hm, hrows'⟩
  · exact ⟨[], 0, .nil _, (did_nil s).symm⟩
  · obtain ⟨t, n, he, hs'⟩ := rows_episodes hrows (hsized hlim.2) hcrash
    exact ⟨t, n, he, by rw [hs', hframe]⟩
  · obtain ⟨t, n, he, hs'⟩ := rows_episodes hrows hinner nofun
    exact ⟨t, n, he, by rw [hs', hframe]⟩
  · obtain ⟨t, n, he, hs'⟩ := rows_episodes hrows hinner fun _ => hcrash rfl
    exact ⟨t, n, he, by rw [hs', hframe]⟩
  · obtain ⟨t, n, he, hs'⟩ := rows_episodes hrows hinner nofun
    exact ⟨t, n, he, by rw [hs', hframe]⟩
  · rcases hrows with _ | _ | ⟨h, r, hopen⟩
    have hs₁ : ((s.did (h.opening ++ [h.loading r] ++ h.closing) 3).within (h.loaded r).frame).within Frame.start =
        s.did (h.opening ++ [h.loading r] ++ h.closing) 3 := by
      rw [within_within, hframe]
    rw [hs₁] at hrows'
    obtain ⟨t, n, he, hs'⟩ := rows_episodes hrows' (hcounted encoded _ h r m hopen hm) hcrash
    refine ⟨_, _, .loaded h r hopen.handles he, ?_⟩
    rw [hs', did_did, hframe]

end Episodes

end Monary
