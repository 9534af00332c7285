import Monary.Lib.Chunks
import Monary.Python.Ready

/-!
# The blocks of a generator

* `Drains` : `next()` is called until it returns, with the blocks it yields and the calls made up to each;
* `Rounds` : the documents that the turns of the loop load, `rounds_chunks` : those of a block size that is an
  `unsigned int`;
* `Loads` : `next()` comes to a load of the open session, with `loads_created` and `loads_suspended`;
* `drains_clean`, `clean_of_drains` : the generator comes to its end exactly when the loads return, and has
  then yielded the blocks of the rounds (`blocksOf`).
-/

namespace Monary
open ByteSeq CInt Effect Chunks

/-- `for block in generator`: the blocks, each with the calls made until it was yielded. -/
inductive Drains [PyImpl] [CImpl] (env : Env) :
    Generator → State → List (List MaskedArray × List Event) → State → Prop
  | done {g g' : Generator} {s s' : State} : g.next env s = (.returned (), g', s') → Drains env g s [] s'
  | block {g g' : Generator} {s s' s'' : State} {arrays : List MaskedArray} {resume : Resume}
      {ys : List (List MaskedArray × List Event)} : g.next env s = (.yielded (arrays, resume), g', s') →
      Drains env g' s' ys s'' → Drains env g s ((arrays, s'.log) :: ys) s''

/-- The documents of the turns of a loop whose column data is made for `n` rows and has `k`. -/
inductive Rounds (n k : Nat) : List Bson → List (List Bson) → Prop
  | last {rest : List Bson} : rest.take k = [] → Rounds n k rest []
  | short {rest : List Bson} : rest.take k ≠ [] → (rest.take k).length ≠ n → Rounds n k rest [rest.take k]
  | full {rest : List Bson} {cs : List (List Bson)} : (rest.take k).length = n → Rounds n k (rest.drop k) cs →
      Rounds n k rest (rest.take k :: cs)

theorem rounds_chunks {n : Nat} (hn : 0 < n) (docs : List Bson) : Rounds n n docs (chunks n docs) := by
  refine chunks_induction hn (P := fun docs => Rounds n n docs (chunks n docs)) ?_ ?_ docs
  · rw [chunks_nil hn]
    exact .last (List.take_nil)
  · intro l hl ih
    rw [chunks_cons hn hl]
    by_cases hlen : (l.take n).length = n
    · exact .full hlen ih
    · have hdrop : l.drop n = [] := by
        apply List.drop_eq_nil_of_le
        rw [List.length_take] at hlen
        omega
      rw [hdrop, chunks_nil hn]
      refine .short ?_ hlen
      rw [Ne, List.take_eq_nil_iff]
      rintro (h | h)
      · omega
      · exact hl h

/-- When the column data has fewer rows, one turn is the last. -/
theorem rounds_lt {n k : Nat} (h : k < n) (docs : List Bson) :
    Rounds n k docs (if docs.take k = [] then [] else [docs.take k]) := by
  split
  · next hnil => exact .last hnil
  · next hne =>
    refine .short hne ?_
    rw [List.length_take]
    omega

section Blocks
variable [PyImpl] [CImpl] {env : Env} {g : Generator} {s t : State} {h : Session}

/-- `next()` loads the columns of the session, all that was done before being in the log of `t`. -/
structure Loads (env : Env) (g : Generator) (s : State) (h : Session) (t : State) : Prop where
  ok : ∀ r, monaryLoadQuery h.columns h.mcursor = .ok r →
    Turn g.blockSize (h.loaded r) r.row (t.did [h.loading r] 0) (g.next env s)
  fault : ∀ f, monaryLoadQuery h.columns h.mcursor = .error f → ∃ g' s', g.next env s = (.fault f, g', s')

omit [PyImpl] in
theorem loadQuery_ready (hq : env.Quiet) (hs : s.frame = h.frame) :
    loadQuery env s =
      match monaryLoadQuery h.columns h.mcursor with
      | .ok r => (.returned (r.row : Int), (s.did [h.loading r] 0).within (h.loaded r).frame)
      | .error f => (.fault f, s.did [.loadQuery h.cursor none] 0) := by
  obtain ⟨log, connection, fresh, frame⟩ := s
  dsimp only at hs
  subst hs
  unfold loadQuery
  rw [ofExcept_bind_ok (hq.check _), bind_of_returned (read_apply _)]
  dsimp only [Session.frame]
  rcases monaryLoadQuery h.columns h.mcursor with f | r <;> rfl

/-- A generator whose code goes on with a load in the open session. -/
theorem loads_of_body (hq : env.Quiet) {u : State} (hu : u.frame = h.frame) (ht : u.within s.frame = t)
    (hbody : g.body env (s.within g.frame) = finish (load env (blockTurn g.blockSize) u)) : Loads env g s h t := by
  have hnext : g.next env s = ((finish (load env (blockTurn g.blockSize) u)).1,
      g.after (finish (load env (blockTurn g.blockSize) u)),
      (finish (load env (blockTurn g.blockSize) u)).2.within s.frame) := by
    rw [Generator.next, run_apply, hbody]
  refine ⟨fun r hr => ?_, fun f hf => ?_⟩
  · have hload : loadQuery env u = (.returned (r.row : Int), (u.did [h.loading r] 0).within (h.loaded r).frame) := by
      rw [loadQuery_ready hq hu, hr]
    have hturn := turn_run (g := g) (h := h.loaded r) (u := (u.did [h.loading r] 0).within (h.loaded r).frame) rfl
      r.row s
    rw [hnext, load, bind_of_returned hload, ← ht]
    exact hturn
  · have hload : loadQuery env u = (.fault f, u.did [.loadQuery h.cursor none] 0) := by
      rw [loadQuery_ready hq hu, hf]
    rw [hnext, load, bind_apply, hload, andThen_fault, finish_fault]
    exact ⟨_, _, rfl⟩

/-- A generator that waits at the `yield` of its loop. -/
theorem loads_suspended (hq : env.Quiet) (blockSize : Int) (h : Session) (s : State) :
    Loads env (.suspended blockSize h.frame .loop) s h s :=
  loads_of_body hq (u := s.within h.frame) rfl (within_frame s) rfl

/-- A generator that was made, when nothing refuses its session. -/
theorem loads_created (hq : env.Quiet) (hg : g.created = true) {p : Plan} (hp : g.plan env = .ok p)
    {cts : List ColumnType} (hready : p.Ready cts) (hcount : 0 ≤ g.blockSize) {client : Nat}
    (hc : s.connection = some client) {reply : Nat → Reply}
    (hans : p.answer (some (freshColumns cts g.blockSize)) = .ok (some reply)) :
    Loads env g s (.first cts g.blockSize client s.fresh reply)
      (s.did (Session.first cts g.blockSize client s.fresh reply).opening 3) := by
  have hframe : g.frame = Frame.start := by
    rcases g with _ | _ | _ | _
    · rfl
    · rfl
    · cases hg
    · cases hg
  have hbody := session_ready (s := s.within Frame.start) hready hq hcount rfl hc hans (blockTurn g.blockSize)
  refine loads_of_body hq (u := ((s.within Frame.start).did (Session.first cts g.blockSize client s.fresh reply).opening
    3).within (Session.first cts g.blockSize client s.fresh reply).frame) rfl ?_ ?_
  · rw [within_within, within_did, within_within, ← frame_did s, within_frame]
  · rw [body_created env hg, hp, ofExcept_bind_ok rfl, hframe]
    exact hbody

omit [PyImpl] [CImpl] in
theorem blockSize_created (hg : g.created = true) : 0 < g.blockSize := by
  rcases g with ⟨_, n⟩ | ⟨_, n⟩ | _ | _
  · show 0 < atLeastOne n
    unfold atLeastOne
    split <;> omega
  · show 0 < atLeastOne n
    unfold atLeastOne
    split <;> omega
  · cases hg
  · cases hg

/-- The generator that has yielded its last block. -/
theorem next_stop (env : Env) (blockSize : Int) (h : Session) (s : State) :
    (Generator.suspended blockSize h.frame .stop).next env s = (.returned (), .finished, s.did h.closing 0) := by
  have hbody : (Generator.suspended blockSize h.frame .stop).body env (s.within h.frame) =
      (.returned (), (s.within h.frame).did h.closing 0) := finish_returned (h := h) (s := s.within h.frame) rfl ()
  rw [Generator.next, run_apply]
  show ((Generator.body env _ (s.within h.frame)).1, Generator.after _ (Generator.body env _ (s.within h.frame)),
    (Generator.body env _ (s.within h.frame)).2.within s.frame) = _
  rw [hbody]
  rfl

/-! ## Rounds -/

/-- The generator is about to load what is left of the documents into the `k` rows of its columns. -/
structure Awaits (env : Env) (docs : List Bson) (n k : Nat) (g : Generator) (s : State) (h : Session) (t : State) :
    Prop where
  loads : Loads env g s h t
  size : g.blockSize = n
  holds : ∃ rows, h.columns.Holds rows
  rows : h.columns.numRows = k
  yields : Yields h.mcursor.reply docs false
  failed : h.mcursor.failed = false
  pos : h.mcursor.pos ≤ docs.length

/-- The documents go into the rows from the first on. -/
def Loadable (cd : ColumnData) (docs : List Bson) : Prop := docs.length < 2 ^ 31 ∧ cd.CleanAll 0 docs

/-- The last call is a load of documents, numbered from `first` on, into as many rows. -/
def LoadedLast (log : List Event) (cursor : CursorHandle) (first rows : Nat) : Prop :=
  ∃ earlier failed, log = earlier ++
    [.loadQuery cursor (some ⟨(List.range rows).map fun r => (r, first + r), failed⟩)]

variable {docs rest : List Bson} {n k : Nat}

/-- What a turn does, when its load returns. -/
theorem awaits_step (ha : Awaits env docs n k g s h t) {c : List Bson} (hc : c = (docs.drop h.mcursor.pos).take k) :
    (Loadable h.columns c → ∃ r, Turn g.blockSize (h.loaded r) r.row (t.did [h.loading r] 0) (g.next env s) ∧
      r.row = c.length ∧ r.coldata = h.columns.putAll 0 c ∧
      r.calls = ((List.range c.length).map fun i => (i, h.mcursor.pos + i)) ∧
      r.mcursor = ⟨h.mcursor.reply, min (h.mcursor.pos + k) docs.length, false⟩) ∧
    (¬ Loadable h.columns c → ∃ f g' s', g.next env s = (.fault f, g', s')) := by
  obtain ⟨rows, hcd⟩ := ha.holds
  have htake : h.mcursor.take h.columns.numRows = c := by
    rw [take_eq ha.yields ha.failed ha.pos, ha.rows, hc]
  have hok : (∃ r, monaryLoadQuery h.columns h.mcursor = .ok r) ↔ _ := monaryLoadQuery_ok_iff hcd
  rw [htake] at hok
  constructor
  · intro hl
    obtain ⟨r, hr⟩ := hok.mpr hl
    have hafter := monaryLoadQuery_eq_ok hcd hr
    refine ⟨r, ha.loads.ok r hr, ?_, ?_, ?_, ?_⟩
    · rw [hafter]
      show 0 + (h.mcursor.take h.columns.numRows).length = _
      rw [htake, Nat.zero_add]
    · rw [hafter, ← htake]
      rfl
    · rw [hafter]
      show [] ++ (List.range (h.mcursor.take h.columns.numRows).length).map _ = _
      rw [htake, List.nil_append]
      simp only [Nat.zero_add]
    · rw [hafter]
      show h.mcursor.after h.columns.numRows = _
      rw [after_eq ha.yields ha.failed ha.pos, ha.rows]
      simp
  · intro hl
    rcases hload : monaryLoadQuery h.columns h.mcursor with f | r
    · exact ⟨f, ha.loads.fault f hload⟩
    · exact absurd (hok.mp ⟨r, hload⟩) hl

omit [PyImpl] in
theorem cleanAll_putAll {cd : ColumnData} {r row : Nat} {ds : List Bson} :
    (cd.putAll r ds).CleanAll row docs ↔ cd.CleanAll row docs := by
  induction ds generalizing cd r with
  | nil => rfl
  | cons d ds ih => exact ih.trans cleanAll_put

omit [PyImpl] in
theorem ColumnData.Holds.putAll {cd : ColumnData} {rows r : Nat} {ds : List Bson} (hcd : cd.Holds rows)
    (hr : r + ds.length ≤ cd.numRows) : (cd.putAll r ds).Holds rows := by
  induction ds generalizing cd r with
  | nil => exact hcd
  | cons d ds ih =>
    rw [List.length_cons] at hr
    refine ih (hcd.put (by omega)) ?_
    show r + 1 + ds.length ≤ cd.numRows
    omega

omit [PyImpl] in
theorem numRows_putAll (cd : ColumnData) (r : Nat) (ds : List Bson) : (cd.putAll r ds).numRows = cd.numRows := by
  rw [columns_putAll]

/-- The generator waits for its next turn. -/
theorem awaits_loaded (hq : env.Quiet) (ha : Awaits env docs n k g s h t) {c : List Bson}
    (hc : c = (docs.drop h.mcursor.pos).take k) (hlen : c.length = n) (hk : k ≤ n) {r : LoadState}
    (hcd : r.coldata = h.columns.putAll 0 c)
    (hcur : r.mcursor = ⟨h.mcursor.reply, min (h.mcursor.pos + k) docs.length, false⟩) (s' : State) :
    Awaits env docs n k (.suspended g.blockSize (h.loaded r).frame .loop) s' (h.loaded r) s' ∧
      (h.loaded r).mcursor.pos = h.mcursor.pos + k := by
  have hpos : (h.loaded r).mcursor.pos = h.mcursor.pos + k := by
    have hle : c.length ≤ docs.length - h.mcursor.pos := by
      rw [hc, List.length_take, List.length_drop]
      omega
    show r.mcursor.pos = _
    rw [hcur]
    have hpos := ha.pos
    show min _ _ = _
    omega
  obtain ⟨rows, hholds⟩ := ha.holds
  refine ⟨⟨loads_suspended hq _ _ _, ha.size, ⟨rows, ?_⟩, ?_, ?_, ?_, ?_⟩, hpos⟩
  · show r.coldata.Holds rows
    rw [hcd]
    apply hholds.putAll
    rw [ha.rows, hc, List.length_take]
    omega
  · show r.coldata.numRows = k
    rw [hcd, numRows_putAll, ha.rows]
  · show Yields r.mcursor.reply docs false
    rw [hcur]
    exact ha.yields
  · show r.mcursor.failed = false
    rw [hcur]
  · show r.mcursor.pos ≤ docs.length
    rw [hcur]
    exact Nat.min_le_right _ _

/-- The blocks that the rounds fill. -/
def blocksOf : ColumnData → List (List Bson) → List (List MaskedArray)
  | _, [] => []
  | cd, c :: cs => (cd.putAll 0 c).columns.map (⟨c.length, ·⟩) :: blocksOf (cd.putAll 0 c) cs

section Turn
variable {blockSize m : Int} {res : Outcome PyExn (List MaskedArray × Resume) Fault Unit × Generator × State}

omit [PyImpl] [CImpl] in
theorem Turn.eq_full (ht : Turn blockSize h m s res) (hm : m = blockSize) :
    res = (.yielded (h.arrays blockSize, .loop), .suspended blockSize h.frame .loop, s) := by
  rcases ht with _ | ⟨hne, -⟩ | ⟨hne, -⟩
  · rfl
  · exact absurd hm hne
  · exact absurd hm hne

omit [PyImpl] [CImpl] in
theorem Turn.eq_short (ht : Turn blockSize h m s res) (hm : m ≠ blockSize) (hpos : 0 < m) :
    res = (.yielded ((h.arrays blockSize).map (·.upTo m.toNat), .stop), .suspended blockSize h.frame .stop, s) := by
  rcases ht with heq | _ | ⟨-, hle⟩
  · exact absurd heq hm
  · rfl
  · omega

omit [PyImpl] [CImpl] in
theorem Turn.eq_last (ht : Turn blockSize h m s res) (hm : m ≠ blockSize) (hle : m ≤ 0) :
    res = (.returned (), .finished, s.did h.closing 0) := by
  rcases ht with heq | ⟨-, hpos⟩ | _
  · exact absurd heq hm
  · omega
  · rfl

end Turn

omit [PyImpl] in
theorem arrays_loaded {r : LoadState} {c : List Bson} (hcd : r.coldata = h.columns.putAll 0 c) (m : Int) :
    (h.loaded r).arrays m = (h.columns.putAll 0 c).columns.map (⟨m.toNat, ·⟩) := by
  rw [← hcd]
  rfl

omit [PyImpl] [CImpl] in
theorem loadedLast_did {r : LoadState} {first rows : Nat}
    (hcalls : r.calls = (List.range rows).map fun i => (i, first + i)) (t : State) :
    LoadedLast (t.did [h.loading r] 0).log h.cursor first rows := by
  refine ⟨t.log, mongocCursorError r.mcursor, ?_⟩
  rw [← hcalls]
  rfl

/-- The generator comes to its end when its loads return, and has yielded the blocks of the rounds. -/
theorem drains_clean (hq : env.Quiet) (hn : 0 < n) (hk : k ≤ n) {cs : List (List Bson)} (hr : Rounds n k rest cs) :
    ∀ {g : Generator} {s t : State} {h : Session}, Awaits env docs n k g s h t → docs.drop h.mcursor.pos = rest →
      (∀ c ∈ cs, Loadable h.columns c) →
      ∃ ys s', Drains env g s ys s' ∧ ys.map Prod.fst = blocksOf h.columns cs ∧
        ∀ (b : Nat) y c, ys[b]? = some y → cs[b]? = some c →
          LoadedLast y.2 h.cursor (h.mcursor.pos + b * k) c.length := by
  induction hr with
  | @last rest hnil =>
    intro g s t h ha hrest _
    obtain ⟨r, hturn, hrow, -⟩ := (awaits_step ha (c := []) (by rw [hrest, hnil])).1
      ⟨Nat.two_pow_pos 31, cleanAll_nil _ _⟩
    have hsize := ha.size
    have hnext := hturn.eq_last (by rw [hrow, hsize, List.length_nil]; omega) (by rw [hrow, List.length_nil]; omega)
    exact ⟨[], _, .done hnext, rfl, fun b y c hy => by simp at hy⟩
  | @short rest hne hlen =>
    intro g s t h ha hrest hclean
    obtain ⟨r, hturn, hrow, hcd, hcalls, hcur⟩ := (awaits_step ha (c := rest.take k) (by rw [hrest])).1
      (hclean _ (List.mem_singleton_self _))
    have hsize := ha.size
    have hpos : 0 < (rest.take k).length := List.length_pos_of_ne_nil hne
    have hnext := hturn.eq_short (by rw [hrow, hsize]; omega) (by rw [hrow]; omega)
    refine ⟨[_], _, .block hnext (.done (next_stop env _ _ _)), ?_, ?_⟩
    · rw [arrays_loaded hcd, hrow]
      show [List.map _ (List.map _ _)] = [_]
      rw [List.map_map]
      congr 1
      apply List.map_congr_left
      intro c _
      show (⟨min (Int.toNat _) (Int.toNat _), c⟩ : MaskedArray) = ⟨_, c⟩
      rw [hsize, Int.toNat_natCast, Int.toNat_natCast, Nat.min_eq_left]
      exact (List.length_take_le _ _).trans hk
    · intro b y c hy hc
      rcases b with _ | b
      · obtain rfl := Option.some.inj hy
        obtain rfl := Option.some.inj hc
        rw [Nat.zero_mul, Nat.add_zero]
        exact loadedLast_did hcalls t
      · simp at hy
  | @full rest cs hlen _ ih =>
    intro g s t h ha hrest hclean
    have hc : rest.take k = (docs.drop h.mcursor.pos).take k := by rw [hrest]
    obtain ⟨r, hturn, hrow, hcd, hcalls, hcur⟩ := (awaits_step ha hc).1 (hclean _ List.mem_cons_self)
    have hsize := ha.size
    have hnext := hturn.eq_full (by rw [hrow, hsize, hlen])
    obtain ⟨ha', hpos⟩ := awaits_loaded hq ha hc hlen hk hcd hcur (t.did [h.loading r] 0)
    have hloadable : ∀ c ∈ cs, Loadable (h.loaded r).columns c := by
      intro c hmem
      obtain ⟨h31, hall⟩ := hclean c (List.mem_cons_of_mem _ hmem)
      refine ⟨h31, ?_⟩
      show r.coldata.CleanAll 0 c
      rw [hcd, cleanAll_putAll]
      exact hall
    obtain ⟨ys, s', hdrains, hblocks, hlast⟩ := ih ha' (by rw [hpos, ← hrest, List.drop_drop]) hloadable
    refine ⟨_ :: ys, s', .block hnext hdrains, ?_, ?_⟩
    · rw [List.map_cons, hblocks, arrays_loaded hcd, hsize, Int.toNat_natCast, ← hlen]
      show _ :: blocksOf r.coldata cs = _
      rw [hcd]
      rfl
    · intro b y c hy hcb
      rcases b with _ | b
      · obtain rfl := Option.some.inj hy
        obtain rfl := Option.some.inj hcb
        rw [Nat.zero_mul, Nat.add_zero]
        exact loadedLast_did hcalls t
      · have hlast := hlast b y c hy hcb
        rw [hpos] at hlast
        rwa [show h.mcursor.pos + (b + 1) * k = h.mcursor.pos + k + b * k by ring]

/-- A generator that comes to its end has met only documents that its loads return for. -/
theorem clean_of_drains (hq : env.Quiet) (hk : k ≤ n) {cs : List (List Bson)} (hr : Rounds n k rest cs) :
    ∀ {g : Generator} {s t s' : State} {h : Session} {ys : List (List MaskedArray × List Event)},
      Awaits env docs n k g s h t → docs.drop h.mcursor.pos = rest → Drains env g s ys s' →
      ∀ c ∈ cs, Loadable h.columns c := by
  have hload {g : Generator} {s t s' : State} {h : Session} {ys : List (List MaskedArray × List Event)}
      {c : List Bson} (ha : Awaits env docs n k g s h t) (hc : c = (docs.drop h.mcursor.pos).take k)
      (hd : Drains env g s ys s') : Loadable h.columns c := by
    by_contra hno
    obtain ⟨f, g', s'', hnext⟩ := (awaits_step ha hc).2 hno
    rcases hd with hdone | ⟨hblock, -⟩
    · rw [hnext] at hdone
      cases hdone
    · rw [hnext] at hblock
      cases hblock
  induction hr with
  | last =>
    intro _ _ _ _ _ _ _ _ _ c hmem
    cases hmem
  | short =>
    intro g s t s' h ys ha hrest hd c hmem
    obtain rfl := List.mem_singleton.mp hmem
    exact hload ha (by rw [hrest]) hd
  | @full rest cs hlen _ ih =>
    intro g s t s' h ys ha hrest hd c hmem
    have hc : rest.take k = (docs.drop h.mcursor.pos).take k := by rw [hrest]
    have hfirst := hload ha hc hd
    rcases List.mem_cons.mp hmem with rfl | hmem
    · exact hfirst
    obtain ⟨r, hturn, hrow, hcd, hcalls, hcur⟩ := (awaits_step ha hc).1 hfirst
    have hsize := ha.size
    have hnext := hturn.eq_full (by rw [hrow, hsize, hlen])
    obtain ⟨ha', hpos⟩ := awaits_loaded hq ha hc hlen hk hcd hcur (t.did [h.loading r] 0)
    rcases hd with hdone | ⟨hblock, hrest'⟩
    · rw [hnext] at hdone
      cases hdone
    · rw [hnext] at hblock
      cases hblock
      obtain ⟨h31, hall⟩ := ih ha' (by rw [hpos, ← hrest, List.drop_drop]) hrest' c hmem
      refine ⟨h31, ?_⟩
      have hall : r.coldata.CleanAll 0 c := hall
      rwa [hcd, cleanAll_putAll] at hall

/-- There is one way to the end. -/
theorem drains_unique {ys ys' : List (List MaskedArray × List Event)} {s₁ s₂ : State} (h₁ : Drains env g s ys s₁)
    (h₂ : Drains env g s ys' s₂) : ys = ys' ∧ s₁ = s₂ := by
  induction h₁ generalizing ys' s₂ with
  | done hnext =>
    rcases h₂ with hnext' | ⟨hnext', -⟩
    · rw [hnext] at hnext'
      cases hnext'
      exact ⟨rfl, rfl⟩
    · rw [hnext] at hnext'
      cases hnext'
  | block hnext _ ih =>
    rcases h₂ with hnext' | ⟨hnext', hrest⟩
    · rw [hnext] at hnext'
      cases hnext'
    · rw [hnext] at hnext'
      cases hnext'
      obtain ⟨rfl, rfl⟩ := ih hrest
      exact ⟨rfl, rfl⟩

end Blocks

end Monary
