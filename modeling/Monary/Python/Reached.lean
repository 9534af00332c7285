import Monary.Python.Runs

/-!
# Where the steps of a method fail

* `makeColumnData_outcome` : `_make_column_data` raises, or all columns are made;
* `preserves_initCursor`, `preserves_loadQuery`, `preserves_blockTurn` : steps that leave the local variable
  `collection`;
* `openCursor_of_error`, `openCursor_bound` : an exception of the inner `try` is that of `_get_collection`, or
  finds `collection` bound.
-/

namespace Monary
open CInt Effect

/-- `_make_column_data` raises, or makes all columns. -/
theorem makeColumnData_outcome [PyImpl] (env : Env) (fields types : List String) (count : Int) (s : State) :
    (∃ e s', makeColumnData env fields types count s = (.raised e, s') ∧ s'.frame = s.frame ∧
      ¬ ColumnsMade env fields types count) ∨
      ∃ cd, ColumnsMade env fields types count ∧ Accepts env fields types count cd ∧
        makeColumnData env fields types count s =
          (.returned (some (s.fresh, cd)), s.did [.allocColumnData (some s.fresh)] 1) := by
  rcases makeColumnData_cases env s fields types count with ⟨e, hnot, hmake⟩ | ⟨e, hno, hmake⟩ | h
  · exact Or.inl ⟨e, s, hmake, rfl, hnot⟩
  · exact Or.inl ⟨e, _, hmake, rfl, hno.not_made⟩
  · exact Or.inr h

/-! ## The local variable `collection` -/

/-- The local variable `collection`. -/
def State.collection (s : State) : Option (Option CollectionHandle) := s.frame.collection

theorem preserves_ofExcept {α τ : Type} {f : State → τ} (x : Except PyExn α) : Preserves f (ofExcept x) := by
  rcases x with e | a
  · exact preserves_raise e
  · exact preserves_pure a

theorem preserves_colarrays {τ : Type} {f : State → τ} (count : Int) : Preserves f (colarrays count) := by
  unfold colarrays
  apply preserves_bind preserves_read
  intro t
  split <;> exact preserves_pure _

theorem preserves_blockTurn {τ : Type} {f : State → τ} (blockSize n : Int) : Preserves f (blockTurn blockSize n) := by
  unfold blockTurn
  apply preserves_bind (preserves_colarrays blockSize)
  intro arrays
  split_ifs
  · exact preserves_suspend _
  · exact preserves_suspend _
  · exact preserves_pure _

theorem preserves_initCursor (env : Env) (k : CollectionHandle)
    (answer : Option ColumnData → C (Option (Nat → Reply))) :
    Preserves State.collection (initCursor env k answer) := by
  unfold initCursor
  apply preserves_bind (preserves_ofExcept _)
  intro _
  apply preserves_bind preserves_read
  intro t
  dsimp only
  split <;> exact fun _ => rfl

theorem preserves_loadQuery [CImpl] (env : Env) : Preserves State.collection (loadQuery env) := by
  unfold loadQuery
  apply preserves_bind (preserves_ofExcept _)
  intro _
  apply preserves_bind preserves_read
  intro t
  rcases t.frame.cursor with _ | ⟨cursor, mcursor⟩
  · exact fun _ => rfl
  rcases t.frame.coldata with _ | ⟨id, cd⟩
  · exact fun _ => rfl
  dsimp only
  rcases monaryLoadQuery cd mcursor with f | r <;> exact fun _ => rfl

section OpenCursor
variable [CImpl] {α : Type} {env : Env} {db coll : String} {s : State}
  {init : CollectionHandle → Py (Option (CursorHandle × MongocCursor))} {rest : Int → Py α}

theorem openCursor_of_error {e : PyExn} (h : collectionError env s.connection db coll = some e) :
    openCursor env db coll init rest s = (.raised e, s) := by
  rw [openCursor, bind_apply, getCollection_of_error h, andThen_raised]

/-- Where `_get_collection` returns, `collection` is bound. -/
theorem openCursor_bound (h : collectionError env s.connection db coll = none)
    (hinit : ∀ k, Preserves State.collection (init k)) (hrest : ∀ n, Preserves State.collection (rest n)) :
    (openCursor env db coll init rest s).2.collection.isSome := by
  obtain ⟨client, -, hget⟩ := getCollection_of_none h
  obtain ⟨k, t, ht⟩ : ∃ k t, useCollection env client s = (.returned k, t) := by
    rcases useCollection_cases env s client with ⟨-, h⟩ | ⟨-, h⟩
    · exact ⟨_, _, h⟩
    · exact ⟨_, _, h⟩
  rw [openCursor, bind_of_returned (hget.trans ht)]
  rcases k with _ | k
  · rfl
  · have hgo : Preserves State.collection (do
        let cursor ← init k
        setCursor cursor
        load env rest : Py α) := by
      apply preserves_bind (hinit k)
      intro cursor
      have hset : Preserves State.collection (setCursor cursor) := preserves_modify fun _ => rfl
      apply preserves_bind hset
      intro _
      exact preserves_bind (preserves_loadQuery env) hrest
    show State.collection ((do
        let cursor ← init k
        setCursor cursor
        load env rest : Py α) (t.within { t.frame with collection := some (some k) })).2 |>.isSome
    rw [hgo.eq]
    rfl

end OpenCursor

end Monary
