import Monary.Mongoc.Served
import Monary.Python.Blocks

/-!
# Loads through the cursor of the driver

* `driverLoadQuery` : `monary_load_query` over the cursor of the driver, `driverLoadRows` being its `while`;
* `loadBlocks` : the loads of one cursor into the same columns, one after the other;
* `answers` : what a connection makes a cursor answer; `loadBlocks_answers` : whatever the server does, the loads
  through the driver are those over the cursor with these answers;
* `driverBlocks_served` : over a server that answers in batches, each load fills the rows with the documents that come
  next.
-/

namespace Monary
open ByteSeq CInt

/-! ## `monary_load_query` -/

/-- `monary_cursor` and the variables of `monary_load_query`. -/
structure DriverLoad where
  coldata : ColumnData
  driver : Driver
  row : Nat

/-- The `while` of `monary_load_query`; the first argument is `coldata->num_rows - row`. -/
def driverLoadRows [CImpl] (net : Connection) : Nat → DriverLoad → C DriverLoad
  | 0, s => return s
  | n + 1, s =>
    if (driverError s.driver).isSome then return s
    else
      match driverNext net s.driver with
      | (none, driver) => return { s with driver }
      | (some bson, driver) => do
        let (coldata, _) ← monaryBsonToArrays (some s.coldata) s.row (some bson)
        -- `++row`
        if s.row + 1 = 2 ^ 31 then .error .undefined
        driverLoadRows net n ⟨coldata.getD s.coldata, driver, s.row + 1⟩

/-- `monary_load_query`; the row of the result is what it returns. -/
def driverLoadQuery [CImpl] (net : Connection) (coldata : ColumnData) (driver : Driver) : C DriverLoad :=
  driverLoadRows net coldata.numRows ⟨coldata, driver, 0⟩

/-- Loads of one cursor into the same columns, and for each of them the columns and the number of rows. -/
def loadBlocks {α σ : Type} (load : α → σ → C (α × σ × Nat)) : Nat → α → σ → C (List (α × Nat))
  | 0, _, _ => return []
  | n + 1, columns, s => do
    let (columns, s, row) ← load columns s
    let rest ← loadBlocks load n columns s
    return (columns, row) :: rest

def loadOf [CImpl] (cd : ColumnData) (cursor : MongocCursor) : C (ColumnData × MongocCursor × Nat) := do
  let r ← monaryLoadQuery cd cursor
  return (r.coldata, r.mcursor, r.row)

def driverLoadOf [CImpl] (net : Connection) (cd : ColumnData) (d : Driver) : C (ColumnData × Driver × Nat) := do
  let r ← driverLoadQuery net cd d
  return (r.coldata, r.driver, r.row)

/-! ## Cursors that do the same -/

/-- A relation of cursors that is kept by their steps, where one has failed with the other. -/
structure Follows (net : Connection) (R : MongocCursor → Driver → Prop) : Prop where
  failed : ∀ {c d}, R c d → c.failed = d.cursor.failed
  next : Pull.Simulates mongocCursorNext (driverNext net) R

/-- Both fail in the same way, or both return. -/
def Alike {α β : Type} (P : α → β → Prop) : C α → C β → Prop
  | .ok a, .ok b => P a b
  | .error e, .error e' => e = e'
  | _, _ => False

theorem Alike.bind {α β α' β' : Type} {P : α → β → Prop} {Q : α' → β' → Prop} {x : C α} {y : C β} {f : α → C α'}
    {g : β → C β'} (h : Alike P x y) (hfg : ∀ {a b}, P a b → Alike Q (f a) (g b)) : Alike Q (x >>= f) (y >>= g) := by
  cases x with
  | error e =>
    cases y with
    | error e' => exact h
    | ok b => exact h.elim
  | ok a =>
    cases y with
    | error e' => exact h.elim
    | ok b => exact hfg h

theorem Alike.refl {α : Type} (x : C α) : Alike (· = ·) x x := by
  cases x <;> rfl

theorem Alike.eq {α : Type} {x y : C α} (h : Alike (· = ·) x y) : x = y := by
  cases x <;> cases y
  · exact congrArg Except.error h
  · exact h.elim
  · exact h.elim
  · exact congrArg Except.ok h

theorem isSome_driverError (d : Driver) : (driverError d).isSome = d.cursor.failed := by
  rw [driverError]
  cases d.cursor.failed <;> rfl

section
variable [CImpl] {net : Connection} {R : MongocCursor → Driver → Prop}

/-- The states of two loops. -/
structure SameLoad (R : MongocCursor → Driver → Prop) (s : LoadState) (t : DriverLoad) : Prop where
  coldata : s.coldata = t.coldata
  row : s.row = t.row
  cursor : R s.mcursor t.driver

theorem Follows.loadRows (h : Follows net R) {n : Nat} {s : LoadState} {t : DriverLoad} (hst : SameLoad R s t) :
    Alike (SameLoad R) (loadRows n s) (driverLoadRows net n t) := by
  induction n generalizing s t with
  | zero => exact hst
  | succ n ih =>
    obtain ⟨coldata, driver, row⟩ := t
    obtain ⟨coldata', mcursor, row', calls⟩ := s
    obtain ⟨rfl, rfl, hcursor⟩ := hst
    rw [Monary.loadRows, driverLoadRows, isSome_driverError, mongocCursorError, h.failed hcursor]
    dsimp only
    split
    · exact ⟨rfl, rfl, hcursor⟩
    · obtain ⟨hval, hnext⟩ := h.next hcursor
      rcases hd : driverNext net driver with ⟨b, driver'⟩
      rcases hc : mongocCursorNext mcursor with ⟨b', mcursor'⟩
      rw [hd, hc] at hval hnext
      dsimp only at hval hnext
      subst hval
      cases b' with
      | none => exact ⟨rfl, rfl, hnext⟩
      | some bson =>
        dsimp only
        refine Alike.bind (Alike.refl _) ?_
        rintro ⟨cd, x⟩ _ rfl
        dsimp only
        split
        · exact rfl
        · exact ih ⟨rfl, rfl, hnext⟩

theorem Follows.loadBlocks (h : Follows net R) {c : MongocCursor} {d : Driver} (hcd : R c d) (n : Nat) (cd : ColumnData) :
    loadBlocks loadOf n cd c = loadBlocks (driverLoadOf net) n cd d := by
  induction n generalizing c d cd with
  | zero => rfl
  | succ n ih =>
    rw [Monary.loadBlocks, Monary.loadBlocks]
    have hload : Alike (fun r r' => r.1 = r'.1 ∧ r.2.2 = r'.2.2 ∧ R r.2.1 r'.2.1) (loadOf cd c) (driverLoadOf net cd d) := by
      refine Alike.bind (h.loadRows (s := ⟨cd, c, 0, []⟩) (t := ⟨cd, d, 0⟩) ⟨rfl, rfl, hcd⟩) fun hst => ?_
      exact ⟨hst.coldata, hst.row, hst.cursor⟩
    refine (hload.bind ?_).eq
    rintro ⟨cd', c', row⟩ ⟨cd'', d', row'⟩ ⟨hcd', hrow, hcursor⟩
    dsimp only at hcd' hrow hcursor ⊢
    rw [hcd', hrow, ih hcursor cd'']
    exact Alike.refl _

end

/-! ## Any server -/

/-- What a call answers. -/
def answer (r : Option Bson × Driver) : Reply :=
  match r.1 with
  | some bson => .doc bson
  | none => if r.2.cursor.failed then .error else .eof

/-- What the calls answer one after the other. -/
def answers (net : Connection) : Driver → Nat → Reply
  | d, 0 => answer (driverNext net d)
  | d, i + 1 => answers net (driverNext net d).2 i

/-- The driver's cursor has come to the place where the other one is. -/
structure AnswersAs (net : Connection) (c : MongocCursor) (d : Driver) : Prop where
  tracked : ∃ base q rs out, Tracks net base q d rs out
  failed : c.failed = d.cursor.failed
  reply : d.cursor.failed = false → ∀ i, c.reply (c.pos + i) = answers net d i

section
variable {net : Connection} {d : Driver} {base : List Request} {q : Request} {rs : List Rpc} {out : List Bson}

/-- A cursor that has ended answers with the end. -/
theorem Tracks.answers_stopped (h : Tracks net base q d rs out) (hf : d.cursor.failed = false) (hs : d.Stopped) (i : Nat) :
    answers net d i = .eof := by
  have hnext : driverNext net d = ((driverNext net d).1, (driverNext net d).2) := rfl
  induction i generalizing d rs with
  | zero =>
    obtain ⟨-, -, -, -, hend⟩ := h.next hnext
    obtain ⟨hb, hf'⟩ := hend hs
    rw [answers, answer, hb]
    dsimp only
    rw [hf', hf, if_neg Bool.false_ne_true]
  | succ i ih =>
    obtain ⟨⟨more, htracks⟩, -, -, hstop, hend⟩ := h.next hnext
    obtain ⟨hb, hf'⟩ := hend hs
    rw [hb, Option.toList_none, List.append_nil] at htracks
    exact ih htracks (hf'.trans hf) (hstop hb) rfl

theorem answers_follows (net : Connection) : Follows net (AnswersAs net) where
  failed h := h.failed
  next := by
    rintro c d ⟨⟨base, q, rs, out, htracks⟩, hfailed, hreply⟩
    have hnext : driverNext net d = ((driverNext net d).1, (driverNext net d).2) := rfl
    obtain ⟨⟨more, htracks'⟩, -, hval, hstop, hend⟩ := htracks.next hnext
    cases hf : d.cursor.failed with
    | true =>
      obtain ⟨hb, hf'⟩ := hend (Or.inl hf)
      rw [mongocCursorNext, if_pos (hfailed.trans hf), hb]
      exact ⟨rfl, ⟨_, _, _, _, htracks'⟩, hfailed.trans hf'.symm,
        fun h => absurd (h.symm.trans (hf'.trans hf)) Bool.false_ne_true⟩
    | false =>
      have hat : c.reply c.pos = answer (driverNext net d) := hreply hf 0
      rw [mongocCursorNext, if_neg (by simp [hfailed, hf]), hat, answer]
      cases hb : (driverNext net d).1 with
      | some b =>
        refine ⟨rfl, ⟨_, _, _, _, htracks'⟩, ?_, fun _ i => ?_⟩
        · exact hfailed.trans (hf.trans (hval (by rw [hb]; rfl)).symm)
        · have := hreply hf (i + 1)
          rw [show c.pos + (i + 1) = c.pos + 1 + i by omega] at this
          exact this
      | none =>
        dsimp only
        cases hf' : (driverNext net d).2.cursor.failed with
        | true =>
          rw [if_pos (by rfl)]
          exact ⟨rfl, ⟨_, _, _, _, htracks'⟩, hf'.symm, fun h => absurd (h.symm.trans hf') Bool.false_ne_true⟩
        | false =>
          rw [if_neg Bool.false_ne_true]
          refine ⟨rfl, ⟨_, _, _, _, htracks'⟩, hfailed.trans (hf.trans hf'.symm), fun _ i => ?_⟩
          have hall : ∀ i, answers net (driverNext net d).2 i = .eof := htracks'.answers_stopped hf' (hstop hb)
          rw [hall i, hreply hf i]
          cases i with
          | zero =>
            rw [answers, answer, hb]
            dsimp only
            rw [hf', if_neg Bool.false_ne_true]
          | succ i => exact hall i

end

/-- Whatever the server does, the loads through the driver are the loads of a cursor that answers as the driver
does. -/
theorem loadBlocks_answers [CImpl] {d : Driver} (h : Unread d) (net : Connection) (n : Nat) (cd : ColumnData) :
    loadBlocks (driverLoadOf net) n cd d = loadBlocks loadOf n cd ⟨answers net d, 0, false⟩ := by
  refine ((answers_follows net).loadBlocks ⟨⟨_, _, _, _, h.tracks net⟩, h.failed.symm, fun _ i => ?_⟩ n cd).symm
  rw [Nat.zero_add]

theorem loadBlocks_answers_findAll :
    @loadBlocks ColumnData Driver (@driverLoadOf CImpl.x86 twoReplies) 2 boolColumns findAll =
      @loadBlocks ColumnData MongocCursor (@loadOf CImpl.x86) 2 boolColumns ⟨answers twoReplies findAll, 0, false⟩ :=
  @loadBlocks_answers CImpl.x86 _ (unread_new false 0 0 _ none (by decide) (by decide) (by decide) rfl) twoReplies 2
    boolColumns

/-! ## Servers that answer in batches -/

/-- The driver's cursor has the documents left that the list has from the place of the other cursor on. -/
structure ListedAs (base : List Request) (q : Request) (first : Nat) (id : Int) (batches : List (List Bson))
    (docs : List Bson) (c : MongocCursor) (d : Driver) : Prop where
  reply : c.reply = (MongocCursor.ofList docs false).reply
  failed : c.failed = false
  pulls : Pulls base q first id batches d (docs.drop c.pos)

theorem listed_follows {net : Connection} {base : List Request} {q : Request} {first : Nat} {id : Int}
    {batches : List (List Bson)} (hs : ServesQuery net base q first id batches) (docs : List Bson) :
    Follows net (ListedAs base q first id batches docs) where
  failed h := h.failed.trans h.pulls.failed.symm
  next := by
    rintro c d ⟨hreply, hfailed, hpulls⟩
    have hat : c.reply c.pos = (docs[c.pos]?).elim Reply.eof .doc := by
      rw [hreply, MongocCursor.ofList]
      dsimp only
      cases docs[c.pos]? <;> rfl
    rw [mongocCursorNext, if_neg (by simp [hfailed]), hat]
    rcases hpulls.next hs with ⟨b, l, hleft, hval, hnext⟩ | ⟨hleft, hval, hnext⟩
    · have hget : docs[c.pos]? = some b := by rw [← List.head?_drop, hleft, List.head?_cons]
      rw [hget, hval]
      refine ⟨rfl, hreply, hfailed, ?_⟩
      have htail : docs.drop (c.pos + 1) = l := by rw [← List.tail_drop, hleft, List.tail_cons]
      exact htail ▸ hnext
    · have hget : docs[c.pos]? = none := by rw [← List.head?_drop, hleft, List.head?_nil]
      rw [hget, hval]
      refine ⟨rfl, hreply, hfailed, ?_⟩
      exact hleft.symm ▸ hnext

/-- The columns and the number of rows after each of `n` loads. -/
def loadedBlocks [CImpl] : Nat → ColumnData → List Bson → List (ColumnData × Nat)
  | 0, _, _ => []
  | n + 1, cd, docs =>
    let block := docs.take cd.numRows
    (cd.putAll 0 block, block.length) :: loadedBlocks n (cd.putAll 0 block) (docs.drop cd.numRows)

/-- The loads of the documents that are left of a list. -/
theorem loadBlocks_list [CImpl] {rows : Nat} {cd : ColumnData} {docs : List Bson} {c : MongocCursor} (hcd : cd.Holds rows)
    (h31 : cd.numRows < 2 ^ 31) (hreply : c.reply = (MongocCursor.ofList docs false).reply) (hfailed : c.failed = false)
    (hpos : c.pos ≤ docs.length) (hclean : ∀ bson ∈ docs, ∀ row < cd.numRows, cd.Clean row bson) (n : Nat) :
    loadBlocks loadOf n cd c = .ok (loadedBlocks n cd (docs.drop c.pos)) := by
  induction n generalizing cd c with
  | zero => rfl
  | succ n ih =>
    have hy : Yields c.reply docs false := hreply ▸ yields_ofList docs false
    have htake := take_eq hy hfailed hpos cd.numRows
    have hlen : (c.take cd.numRows).length ≤ cd.numRows := by
      rw [htake]
      exact List.length_take_le _ _
    have hcleanAll : cd.CleanAll 0 (c.take cd.numRows) := by
      intro i bson hi
      have hlt : i < cd.numRows := by
        have := (List.getElem?_eq_some_iff.mp hi).1
        omega
      rw [Nat.zero_add]
      refine hclean bson ?_ i hlt
      rw [htake] at hi
      exact List.mem_of_mem_drop (List.mem_of_mem_take (List.mem_of_getElem? hi))
    have hload := monaryLoadQuery_eq hcd (by omega) hcleanAll
    rw [loadBlocks, loadOf, hload, loadedBlocks, ← htake]
    show (loadBlocks loadOf n (cd.putAll 0 (c.take cd.numRows)) (c.after cd.numRows) >>= fun rest =>
      .ok ((cd.putAll 0 (c.take cd.numRows), 0 + (c.take cd.numRows).length) :: rest)) = _
    have hafter := after_eq hy hfailed hpos cd.numRows
    have hrows := numRows_putAll cd 0 (c.take cd.numRows)
    have hnext := @ih (cd.putAll 0 (c.take cd.numRows)) (c.after cd.numRows) (hcd.putAll (by omega)) (by omega)
      (by rw [hafter]; exact hreply) (by rw [hafter]; rfl) (by rw [hafter]; exact Nat.min_le_right _ _) ?_
    · have hdrop : docs.drop (c.after cd.numRows).pos = (docs.drop c.pos).drop cd.numRows := by
        rw [hafter, List.drop_drop]
        dsimp only
        rcases Nat.le_total (c.pos + cd.numRows) docs.length with hle | hle
        · rw [Nat.min_eq_left hle]
        · rw [Nat.min_eq_right hle, List.drop_length, List.drop_eq_nil_of_le hle]
      rw [hnext, hdrop, Nat.zero_add]
      rfl
    · intro bson hb row hrow
      rw [hrows] at hrow
      have hall : (cd.putAll 0 (c.take cd.numRows)).CleanAll row [bson] ↔ cd.CleanAll row [bson] := cleanAll_putAll
      rw [cleanAll_cons, cleanAll_cons] at hall
      exact (hall.mpr ⟨hclean bson hb row hrow, cleanAll_nil _ _⟩).1

/-- Over a server that answers in batches, each load fills the rows from the first on with the documents that come next,
and returns how many there were. -/
theorem driverBlocks_served [CImpl] {net : Connection} {d : Driver} {id : Int} {batches : List (List Bson)} (h : Unread d)
    (hcommand : d.cursor.isCommand = false)
    (hs : ServesQuery net d.client.log (queryRequest d.cursor) d.client.requestId id batches) {docs : List Bson}
    (hdocs : docs = if d.cursor.limit = 0 then pulled batches else (pulled batches).take d.cursor.limit) {rows : Nat}
    {cd : ColumnData} (hcd : cd.Holds rows) (h31 : cd.numRows < 2 ^ 31)
    (hclean : ∀ bson ∈ docs, ∀ row < cd.numRows, cd.Clean row bson) (n : Nat) :
    loadBlocks (driverLoadOf net) n cd d = .ok (loadedBlocks n cd docs) := by
  have hlisted : ListedAs d.client.log (queryRequest d.cursor) d.client.requestId id batches docs (.ofList docs false) d := by
    refine ⟨rfl, rfl, ?_⟩
    show Pulls _ _ _ _ _ d (docs.drop 0)
    have hclip : docs = clip d.cursor (pulled batches) := by rw [hdocs, clip, h.count, Nat.sub_zero]
    rw [List.drop_zero, hclip]
    exact .unread h hcommand rfl rfl rfl
  rw [← (listed_follows hs docs).loadBlocks hlisted, loadBlocks_list hcd h31 rfl rfl (Nat.zero_le _) hclean]
  rfl

theorem driverBlocks_findAll :
    @loadBlocks ColumnData Driver (@driverLoadOf CImpl.x86 twoReplies) 3 boolColumns findAll =
      .ok (@loadedBlocks CImpl.x86 3 boolColumns [noFields, noFields]) := by
  refine @driverBlocks_served CImpl.x86 _ _ _ _ (unread_new false 0 0 _ none (by decide) (by decide) (by decide) rfl) rfl
    servesQuery_twoReplies _ rfl _ _ boolColumns_holds (by decide) ?_ 3
  intro bson hb row _ c hc t it _ hit
  have hb : bson ∈ [noFields, noFields] := hb
  obtain rfl := List.mem_singleton.mp hc
  obtain rfl : bson = noFields := by simpa using hb
  cases hit

end Monary
