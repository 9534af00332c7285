import Mathlib

/-!
# Handles that are acquired, used and released

`Custody needs log live` : the operations of `log` acquire every handle once, use and release only what is
live, acquire a handle only while all it needs is live and release it only when nothing live needs it;
`live` is what is live at the end.

* `Custody.uses` : a run of uses; `Custody.before` : every prefix of the log is in custody;
* `Custody.releases_eq` : a handle was released once if it was acquired and is not live, and never otherwise;
* `Custody.not_released` : what is used or released was not released before;
* `Custody.released_before` : what needs a handle was released before it.
-/

namespace Handles

inductive Op (H : Type) where
  | acquire (h : H)
  | use (h : H)
  | release (h : H)
  deriving DecidableEq, Repr

variable {H : Type}

/-- What an operation asks of the log and of what is live before it, and what is live after it. -/
def Op.Takes (needs : H → H → Prop) (log : List (Op H)) (live : Set H) : Op H → Set H → Prop
  | .acquire h, live' => .acquire h ∉ log ∧ (∀ d, needs h d → d ∈ live) ∧ live' = insert h live
  | .use h, live' => h ∈ live ∧ live' = live
  | .release h, live' => h ∈ live ∧ (∀ g ∈ live, ¬ needs g h) ∧ live' = live \ {h}

inductive Custody (needs : H → H → Prop) : List (Op H) → Set H → Prop
  | nil : Custody needs [] ∅
  | step {log : List (Op H)} {live live' : Set H} {op : Op H} : Custody needs log live →
      op.Takes needs log live live' → Custody needs (log ++ [op]) live'

variable {needs : H → H → Prop} {log : List (Op H)} {live : Set H} {h : H}

namespace Custody

theorem acquire (hc : Custody needs log live) (hnew : .acquire h ∉ log) (hdeps : ∀ d, needs h d → d ∈ live) :
    Custody needs (log ++ [.acquire h]) (insert h live) :=
  hc.step ⟨hnew, hdeps, rfl⟩

theorem use (hc : Custody needs log live) (hh : h ∈ live) : Custody needs (log ++ [.use h]) live :=
  hc.step ⟨hh, rfl⟩

theorem release (hc : Custody needs log live) (hh : h ∈ live) (hfree : ∀ g ∈ live, ¬ needs g h) :
    Custody needs (log ++ [.release h]) (live \ {h}) :=
  hc.step ⟨hh, hfree, rfl⟩

/-- Operations that only use what is live. -/
theorem uses {t : List (Op H)} (hc : Custody needs log live) (ht : ∀ op ∈ t, ∃ h ∈ live, op = .use h) :
    Custody needs (log ++ t) live := by
  induction t generalizing log with
  | nil => rwa [List.append_nil]
  | cons op t ih =>
    obtain ⟨h, hh, rfl⟩ := ht op List.mem_cons_self
    rw [List.append_cons]
    exact ih (hc.use hh) fun op hop => ht op (List.mem_cons_of_mem _ hop)

/-- What is acquired and released again. -/
theorem bracket {t : List (Op H)} (hlive : h ∉ live) (hdeps : ∀ d, ¬ needs h d)
    (hfree : ∀ g ∈ live, ¬ needs g h) (ht : Custody needs (log ++ [.acquire h] ++ t) (insert h live)) :
    Custody needs (log ++ [.acquire h] ++ t ++ [.release h]) live := by
  have hset : insert h live \ {h} = live := by
    rw [Set.insert_sdiff_of_mem _ (Set.mem_singleton h), Set.sdiff_singleton_eq_self hlive]
  have hlast := ht.release (Set.mem_insert h live) fun g hg => by
    rcases hg with rfl | hg
    · exact hdeps g
    · exact hfree g hg
  rwa [hset] at hlast

theorem last {op : Op H} (hc : Custody needs (log ++ [op]) live) :
    ∃ live', Custody needs log live' ∧ op.Takes needs log live' live := by
  generalize hl : log ++ [op] = l at hc
  rcases hc with _ | ⟨hc, htakes⟩
  · simp at hl
  · obtain ⟨rfl, rfl⟩ := List.append_singleton_inj.mp hl
    exact ⟨_, hc, htakes⟩

theorem before {post : List (Op H)} (hc : Custody needs (log ++ post) live) :
    ∃ live', Custody needs log live' := by
  induction post using List.reverseRecOn generalizing live with
  | nil =>
    rw [List.append_nil] at hc
    exact ⟨live, hc⟩
  | append_singleton post op ih =>
    rw [← List.append_assoc] at hc
    obtain ⟨live', hc', -⟩ := hc.last
    exact ih hc'

theorem acquired (hc : Custody needs log live) (hh : h ∈ live) : .acquire h ∈ log := by
  induction hc with
  | nil => cases hh
  | @step log live live' op _ htakes ih =>
    rcases op with g | g | g
    · obtain ⟨-, -, rfl⟩ := htakes
      rcases hh with rfl | hh
      · exact List.mem_append_right _ List.mem_cons_self
      · exact List.mem_append_left _ (ih hh)
    · obtain ⟨-, rfl⟩ := htakes
      exact List.mem_append_left _ (ih hh)
    · obtain ⟨-, -, rfl⟩ := htakes
      exact List.mem_append_left _ (ih hh.1)

theorem releases_eq [DecidableEq H] (hc : Custody needs log live) (h : H) :
    (h ∈ live ∧ log.count (Op.release h) = 0) ∨ (.acquire h ∉ log ∧ log.count (Op.release h) = 0) ∨
      (h ∉ live ∧ .acquire h ∈ log ∧ log.count (Op.release h) = 1) := by
  induction hc with
  | nil => exact Or.inr (Or.inl ⟨List.not_mem_nil, rfl⟩)
  | @step log live live' op hc htakes ih =>
    rcases op with g | g | g
    · obtain ⟨hnew, -, rfl⟩ := htakes
      have hcount : (log ++ [Op.acquire g]).count (Op.release h) = log.count (Op.release h) := by simp
      rw [hcount, List.mem_append, List.mem_singleton, Set.mem_insert_iff]
      by_cases hg : h = g
      · subst hg
        rcases ih with ⟨hlive, -⟩ | ⟨-, h0⟩ | ⟨-, hacq, -⟩
        · exact absurd (hc.acquired hlive) hnew
        · exact Or.inl ⟨Or.inl rfl, h0⟩
        · exact absurd hacq hnew
      · simpa [hg] using ih
    · obtain ⟨-, rfl⟩ := htakes
      have hcount : (log ++ [Op.use g]).count (Op.release h) = log.count (Op.release h) := by simp
      rw [hcount, List.mem_append, List.mem_singleton]
      simpa using ih
    · obtain ⟨hlive, -, rfl⟩ := htakes
      rw [List.mem_append, List.mem_singleton, List.count_append]
      by_cases hg : h = g
      · subst hg
        rcases ih with ⟨-, h0⟩ | ⟨hacq, -⟩ | ⟨hnot, -⟩
        · exact Or.inr (Or.inr ⟨fun hd => hd.2 rfl, Or.inl (hc.acquired hlive), by simp [h0]⟩)
        · exact absurd (hc.acquired hlive) hacq
        · exact absurd hlive hnot
      · have hne : ¬ g = h := fun e => hg e.symm
        simpa [hg, hne] using ih

theorem not_released (hc : Custody needs log live) (hh : h ∈ live) : .release h ∉ log := by
  classical
  rcases hc.releases_eq h with ⟨-, h0⟩ | ⟨hacq, -⟩ | ⟨hnot, -⟩
  · exact List.count_eq_zero.mp h0
  · exact absurd (hc.acquired hh) hacq
  · exact absurd hh hnot

/-- What is used or released is live at the time. -/
theorem not_released_before {pre post : List (Op H)} {op : Op H}
    (hc : Custody needs (pre ++ op :: post) live) (hop : op = .use h ∨ op = .release h) :
    .acquire h ∈ pre ∧ .release h ∉ pre := by
  rw [List.append_cons] at hc
  obtain ⟨live', hc'⟩ := hc.before
  obtain ⟨live'', hpre, hlast⟩ := hc'.last
  rcases hop with rfl | rfl
  · exact ⟨hpre.acquired hlast.1, hpre.not_released hlast.1⟩
  · exact ⟨hpre.acquired hlast.1, hpre.not_released hlast.1⟩

theorem released_before {pre post : List (Op H)} {c d : H} (hc : Custody needs (pre ++ .release d :: post) live)
    (hneeds : needs c d) (hacq : .acquire c ∈ pre ++ .release d :: post) : .release c ∈ pre := by
  classical
  rw [List.append_cons] at hc hacq
  rcases List.mem_append.mp hacq with hacq | hacq
  · obtain ⟨live', hc'⟩ := hc.before
    obtain ⟨live'', hpre, hlast⟩ := hc'.last
    have hacq : Op.acquire c ∈ pre := by simpa using hacq
    rcases hpre.releases_eq c with ⟨hlive, -⟩ | ⟨hnot, -⟩ | ⟨-, -, h1⟩
    · exact absurd hneeds (hlast.2.1 c hlive)
    · exact absurd hacq hnot
    · exact List.count_pos_iff.mp (by omega)
  · -- `c` cannot be acquired once `d` was released
    obtain ⟨p, q, rfl⟩ := List.append_of_mem hacq
    rw [← List.append_assoc, List.append_cons] at hc
    obtain ⟨live', hc'⟩ := hc.before
    obtain ⟨live'', hpre, hlast⟩ := hc'.last
    refine absurd ?_ (hpre.not_released (hlast.2.1 d hneeds))
    simp

end Custody

end Handles
