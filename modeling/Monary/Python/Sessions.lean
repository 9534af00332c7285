import Monary.Python.Generators

/-!
# What a session does

* `State.did` : a state after further calls, with the handles they gave out; `State.within` : with other
  local variables;
* `Session` : the handles of a session whose cursor is open, its column data and the cursor of the driver;
  `Session.frame`, `Session.opening`, `Session.closing` : the local variables that hold them, and the calls
  that open and close it;
* `ColumnsMade` : `_make_column_data` returns; `collectionError` : what `_get_collection` raises;
* one lemma for each step says all it can do: `makeColumnData_cases`, `getCollection_cases`,
  `initCursor_cases`, `loadQuery_cases`, and `finish_returned`, `finish_raised` for the finalizers;
* `session_run` : a session raises before its first load returns, and has then closed all it opened unless a
  column was refused (`Aborted`); or it ends in a fault (`Crashed`); or the load returned, and what is
  made of the rows runs with everything open (`Session.opened`).
-/

namespace Monary
open CInt Effect

/-! ## States -/

/-- The calls `trace` were made and gave out `n` handles. -/
def State.did (s : State) (trace : List Event) (n : Nat) : State :=
  { s with log := s.log ++ trace, fresh := s.fresh + n }

def State.within (s : State) (frame : Frame) : State := { s with frame := frame }

section State
variable (s : State) (t t' : List Event) (n n' : Nat) (f f' : Frame)

@[simp] theorem did_did : (s.did t n).did t' n' = s.did (t ++ t') (n + n') := by
  unfold State.did
  rw [List.append_assoc, Nat.add_assoc]

@[simp] theorem within_within : (s.within f).within f' = s.within f' := rfl

@[simp] theorem within_did : (s.within f).did t n = (s.did t n).within f := rfl

@[simp] theorem log_did : (s.did t n).log = s.log ++ t := rfl

@[simp] theorem connection_did : (s.did t n).connection = s.connection := rfl

@[simp] theorem fresh_did : (s.did t n).fresh = s.fresh + n := rfl

@[simp] theorem frame_did : (s.did t n).frame = s.frame := rfl

@[simp] theorem log_within : (s.within f).log = s.log := rfl

@[simp] theorem connection_within : (s.within f).connection = s.connection := rfl

@[simp] theorem fresh_within : (s.within f).fresh = s.fresh := rfl

@[simp] theorem frame_within : (s.within f).frame = f := rfl

theorem within_frame : s.within s.frame = s := rfl

theorem did_nil : s.did [] 0 = s := by
  unfold State.did
  rw [List.append_nil]
  rfl

end State

theorem callMethod_apply {α : Type} (c : Py α) {s : State} (hs : s.frame = Frame.start) :
    callMethod c s = ((c s).1, (c s).2.within Frame.start) := by
  obtain ⟨log, connection, fresh, frame⟩ := s
  dsimp only at hs
  subst hs
  rfl

theorem within_start {s : State} (hs : s.frame = Frame.start) : s.within Frame.start = s.did [] 0 := by
  rw [did_nil, ← hs, within_frame]

theorem record_apply (e : Event) (s : State) : record e s = (.returned (), s.did [e] 0) := rfl

theorem check_cases (env : Env) (step : Step) :
    env.check step = .ok () ∧ env.raises step = none ∨ ∃ e, env.check step = .error e ∧ env.raises step = some e := by
  unfold Env.check
  rcases env.raises step with _ | e
  · exact Or.inl ⟨rfl, rfl⟩
  · exact Or.inr ⟨e, rfl, rfl⟩

theorem ofExcept_bind_error {α β : Type} {x : Except PyExn α} {e : PyExn} (h : x = .error e) (f : α → Py β)
    (s : State) : (ofExcept x >>= f) s = (.raised e, s) := by
  rw [h]
  rfl

theorem ofExcept_bind_ok {α β : Type} {x : Except PyExn α} {a : α} (h : x = .ok a) (f : α → Py β) :
    (ofExcept x >>= f) = f a := by
  rw [h]
  rfl

/-! ## Sessions -/

/-- A session whose cursor is open. -/
structure Session where
  coldata : Nat
  columns : ColumnData
  collection : CollectionHandle
  id : Nat
  mcursor : MongocCursor

namespace Session
variable (h : Session)

def cursor : CursorHandle := ⟨h.collection, some h.coldata, h.id⟩

def frame : Frame :=
  ⟨some (h.coldata, h.columns), some (some h.collection), some (h.cursor, h.mcursor)⟩

def opening : List Event :=
  [.allocColumnData (some h.coldata), .useCollection h.collection.client (some h.collection),
    .initCursor h.collection (some h.coldata) (some h.cursor)]

def closing : List Event :=
  [.closeQuery h.cursor, .destroyCollection h.collection, .freeColumnData h.coldata]

/-- After a load. -/
def loaded (r : LoadState) : Session := { h with columns := r.coldata, mcursor := r.mcursor }

/-- The call of the load. -/
def loading (r : LoadState) : Event := .loadQuery h.cursor (some ⟨r.calls, mongocCursorError r.mcursor⟩)

@[simp] theorem cursor_loaded (r : LoadState) : (h.loaded r).cursor = h.cursor := rfl

@[simp] theorem opening_loaded (r : LoadState) : (h.loaded r).opening = h.opening := rfl

@[simp] theorem closing_loaded (r : LoadState) : (h.loaded r).closing = h.closing := rfl

end Session

/-! ## Steps -/

/-- The two finalizers, applied to what the body came to. -/
def finish {α : Type} (r : Outcome PyExn (List MaskedArray × Resume) Fault α × State) :
    Outcome PyExn (List MaskedArray × Resume) Fault α × State :=
  runFinally (runFinally r closeCursor) freeColumnData

section Finish
variable {α : Type} {h : Session} {s : State}

theorem finish_returned (hf : s.frame = h.frame) (a : α) :
    finish (.returned a, s) = (.returned a, s.did h.closing 0) := by
  obtain ⟨log, connection, fresh, frame⟩ := s
  dsimp only at hf
  subst hf
  show (Outcome.returned a, (((State.mk log connection fresh h.frame).did [.closeQuery h.cursor] 0).did
    [.destroyCollection h.collection] 0).did [.freeColumnData h.coldata] 0) = _
  rw [did_did, did_did]
  rfl

theorem finish_raised (hf : s.frame = h.frame) (e : PyExn) :
    (finish (.raised e, s) : Outcome _ _ _ α × State) = (.raised e, s.did h.closing 0) := by
  obtain ⟨log, connection, fresh, frame⟩ := s
  dsimp only at hf
  subst hf
  show ((Outcome.raised e : Outcome _ _ _ α), (((State.mk log connection fresh h.frame).did
    [.closeQuery h.cursor] 0).did [.destroyCollection h.collection] 0).did [.freeColumnData h.coldata] 0) = _
  rw [did_did, did_did]
  rfl

/-- An unbound `collection` makes the finalizer raise in its turn. -/
theorem finish_unbound (s : State) (e : PyExn) (d : Nat) (cd : ColumnData) :
    (finish (.raised e, s.within ⟨some (d, cd), none, none⟩) : Outcome _ _ _ α × State) =
      (.raised ⟨.unboundLocalError, "local variable 'collection' referenced before assignment", []⟩,
        (s.did [.freeColumnData d] 0).within ⟨some (d, cd), none, none⟩) := rfl

theorem finish_noCollection (s : State) (e : PyExn) (d : Nat) (cd : ColumnData) :
    (finish (.raised e, s.within ⟨some (d, cd), some none, none⟩) : Outcome _ _ _ α × State) =
      (.raised e, (s.did [.freeColumnData d] 0).within ⟨some (d, cd), some none, none⟩) := rfl

theorem finish_noCursor (s : State) (e : PyExn) (d : Nat) (cd : ColumnData) (k : CollectionHandle) :
    (finish (.raised e, s.within ⟨some (d, cd), some (some k), none⟩) : Outcome _ _ _ α × State) =
      (.raised e, (s.did [.destroyCollection k, .freeColumnData d] 0).within ⟨some (d, cd), some (some k), none⟩) := by
  show ((Outcome.raised e : Outcome _ _ _ α), ((s.did [.destroyCollection k] 0).did [.freeColumnData d] 0).within _) = _
  rw [did_did]
  rfl

@[simp] theorem finish_yielded (b : List MaskedArray × Resume) :
    (finish (.yielded b, s) : Outcome _ _ _ α × State) = (.yielded b, s) := rfl

@[simp] theorem finish_fault (f : Fault) :
    (finish (.fault f, s) : Outcome _ _ _ α × State) = (.fault f, s) := rfl

end Finish

/-- The column data that is allocated for `numColumns` columns. -/
def blankColumns (numColumns : Nat) (count : Int) : ColumnData :=
  ⟨toUInt32 count, List.replicate numColumns ColumnItem.zeroed⟩

theorem monaryAllocColumnData_eq {n : Nat} (h : n ≤ maxColumns) (count : Int) :
    monaryAllocColumnData (toUInt32 n) (toUInt32 count) = some (blankColumns n count) := by
  have hn : toUInt32 (n : Int) = n := toUInt32_of_lt (by unfold maxColumns at h; omega)
  rw [monaryAllocColumnData, hn, if_neg (by unfold maxNumColumns; unfold maxColumns at h; omega)]
  rfl

/-- The loads set columns of column data that is not `NULL`, and leave it so. -/
theorem fillColumns_some [PyImpl] {env : Env} {count : Int} {columns : List (String × String)} {i : Nat}
    {cd : ColumnData} {filled : Option ColumnData}
    (h : fillColumns env count i columns (some cd) = .ok filled) : ∃ cd', filled = some cd' := by
  induction columns generalizing i cd with
  | nil =>
    cases h
    exact ⟨cd, rfl⟩
  | cons p columns ih =>
    obtain ⟨field, typename⟩ := p
    obtain ⟨c, -, h⟩ := bind_eq_ok h
    have hset : ∃ cd', (monarySetColumnItem (some cd) i c.field c.type.code c.typeArg (some c.data)
        (some c.mask)).1 = some cd' := by
      unfold monarySetColumnItem
      dsimp only
      split_ifs <;> exact ⟨_, rfl⟩
    obtain ⟨cd', hcd'⟩ := hset
    rw [hcd'] at h
    exact ih h

section Steps
variable (env : Env) (s : State)

/-- The columns are made, none being refused. -/
structure Accepts [PyImpl] (fields types : List String) (count : Int) (cd : ColumnData) : Prop where
  lengths : fields.length = types.length
  filled : fillColumns env count 0 (fields.zip types) (some (blankColumns fields.length count)) = .ok (some cd)

/-- A column is refused once the column data is allocated. -/
structure Refuses [PyImpl] (fields types : List String) (count : Int) : Prop where
  lengths : fields.length = types.length
  refused : ∃ e, fillColumns env count 0 (fields.zip types) (some (blankColumns fields.length count)) = .error e

/-- All columns are made. -/
structure ColumnsMade [PyImpl] (fields types : List String) (count : Int) : Prop where
  le : fields.length ≤ maxColumns
  alloc : env.raises .allocColumnData = none
  accepted : ∃ cd, Accepts env fields types count cd

variable {env} in
theorem Refuses.not_made [PyImpl] {fields types : List String} {count : Int} (h : Refuses env fields types count) :
    ¬ ColumnsMade env fields types count := by
  rintro ⟨-, -, cd, hcd⟩
  obtain ⟨e, he⟩ := h.refused
  rw [hcd.filled] at he
  cases he

/-- `_make_column_data` raises before it allocates, or with a refusal of a column, or returns. -/
theorem makeColumnData_cases [PyImpl] (fields types : List String) (count : Int) :
    (∃ e, ¬ ColumnsMade env fields types count ∧ makeColumnData env fields types count s = (.raised e, s)) ∨
      (∃ e, Refuses env fields types count ∧
        makeColumnData env fields types count s = (.raised e, s.did [.allocColumnData (some s.fresh)] 1)) ∨
      ∃ cd, ColumnsMade env fields types count ∧ Accepts env fields types count cd ∧
        makeColumnData env fields types count s =
          (.returned (some (s.fresh, cd)), s.did [.allocColumnData (some s.fresh)] 1) := by
  unfold makeColumnData
  split
  · next hne =>
    refine Or.inl ⟨_, ?_, rfl⟩
    rintro ⟨-, -, cd, hcd⟩
    exact hne hcd.lengths
  · next heq =>
    split
    · next hlen => exact Or.inl ⟨_, fun h => absurd h.le (by omega), rfl⟩
    next hlen =>
      rcases check_cases env .allocColumnData with ⟨hc, halloc⟩ | ⟨e, hc, halloc⟩
      · have hallocated : allocColumnData fields.length count s =
            (.returned (some (s.fresh, blankColumns fields.length count)),
              s.did [.allocColumnData (some s.fresh)] 1) := by
          rw [allocColumnData, monaryAllocColumnData_eq (by omega)]
          rfl
        rw [ofExcept_bind_ok hc, bind_of_returned hallocated]
        right
        dsimp only [Option.map_some]
        rcases hfill : fillColumns env count 0 (fields.zip types) (some (blankColumns fields.length count))
          with e | filled
        · exact Or.inl ⟨e, ⟨by omega, e, hfill⟩, rfl⟩
        · obtain ⟨cd, rfl⟩ := fillColumns_some hfill
          have hacc : Accepts env fields types count cd := ⟨by omega, hfill⟩
          exact Or.inr ⟨cd, ⟨by omega, halloc, cd, hacc⟩, hacc, rfl⟩
      · refine Or.inl ⟨e, ?_, ofExcept_bind_error hc _ s⟩
        intro h
        have := h.alloc
        rw [halloc] at this
        cases this

/-- What `_get_collection` raises on a connection. -/
def collectionError (env : Env) (connection : Option Nat) (db coll : String) : Option PyExn :=
  match connection with
  | none => some ⟨.valueError, "failed to get collection %s.%s - not connected", [.str db, .str coll]⟩
  | some _ =>
    match encodeAscii db, encodeAscii coll with
    | .error e, _ => some e
    | .ok _, .error e => some e
    | .ok _, .ok _ => env.raises .useCollection

section Collection
variable {env s} {db coll : String}

theorem getCollection_of_error {e : PyExn} (h : collectionError env s.connection db coll = some e) :
    getCollection env db coll s = (.raised e, s) := by
  unfold collectionError at h
  unfold getCollection
  rw [bind_of_returned (read_apply s)]
  rcases hconn : s.connection with _ | client
  · rw [hconn] at h
    cases h
    rfl
  · rw [hconn] at h
    dsimp only at h ⊢
    rcases hdb : encodeAscii db with e' | dbBytes
    · rw [hdb] at h
      cases h
      rfl
    · rw [hdb] at h
      rw [ofExcept_bind_ok rfl]
      rcases hcoll : encodeAscii coll with e' | collBytes
      · rw [hcoll] at h
        cases h
        rfl
      · rw [hcoll] at h
        rw [ofExcept_bind_ok rfl]
        dsimp only at h
        rw [Env.check, h]
        rfl

theorem getCollection_of_none (h : collectionError env s.connection db coll = none) :
    ∃ client, s.connection = some client ∧ getCollection env db coll s = useCollection env client s := by
  unfold collectionError at h
  unfold getCollection
  rw [bind_of_returned (read_apply s)]
  rcases hconn : s.connection with _ | client
  · rw [hconn] at h
    cases h
  · rw [hconn] at h
    dsimp only at h ⊢
    refine ⟨client, rfl, ?_⟩
    rcases hdb : encodeAscii db with e' | dbBytes
    · rw [hdb] at h
      cases h
    · rw [hdb] at h
      rw [ofExcept_bind_ok rfl]
      rcases hcoll : encodeAscii coll with e' | collBytes
      · rw [hcoll] at h
        cases h
      · rw [hcoll] at h
        rw [ofExcept_bind_ok rfl]
        dsimp only at h
        rw [Env.check, h]
        rfl

end Collection

/-- The call of `monary_use_collection` finds a collection or none. -/
theorem useCollection_cases (client : Nat) :
    env.collection = false ∧ useCollection env client s = (.returned none, s.did [.useCollection client none] 0) ∨
      env.collection = true ∧ useCollection env client s =
        (.returned (some ⟨client, s.fresh⟩), s.did [.useCollection client (some ⟨client, s.fresh⟩)] 1) := by
  unfold useCollection
  rcases env.collection with _ | _
  · exact Or.inl ⟨rfl, rfl⟩
  · exact Or.inr ⟨rfl, rfl⟩

/-- `_get_collection` raises before its call, or the call finds no collection, or it finds one. -/
theorem getCollection_cases (db coll : String) :
    (∃ e, getCollection env db coll s = (.raised e, s)) ∨
      ∃ client, s.connection = some client ∧
        (getCollection env db coll s = (.returned none, s.did [.useCollection client none] 0) ∨
          getCollection env db coll s = (.returned (some ⟨client, s.fresh⟩),
            s.did [.useCollection client (some ⟨client, s.fresh⟩)] 1)) := by
  rcases hget : collectionError env s.connection db coll with _ | e
  · obtain ⟨client, hclient, hrun⟩ := getCollection_of_none hget
    rw [hrun]
    exact Or.inr ⟨client, hclient, (useCollection_cases env s client).imp And.right And.right⟩
  · exact Or.inl ⟨e, getCollection_of_error hget⟩

variable {env s}

/-- What the call for a cursor makes of the driver's answer. -/
theorem initCursor_eq {d : Nat} {cd : ColumnData} (hc : env.check .initCursor = .ok ())
    (hcd : s.frame.coldata = some (d, cd)) (k : CollectionHandle)
    (answer : Option ColumnData → C (Option (Nat → Reply))) :
    initCursor env k answer s =
      match answer (some cd) with
      | .error f => (.fault f, s.did [.initCursor k (some d) none] 0)
      | .ok none => (.returned none, s.did [.initCursor k (some d) none] 0)
      | .ok (some reply) => (.returned (some (⟨k, some d, s.fresh⟩, ⟨reply, 0, false⟩)),
          s.did [.initCursor k (some d) (some ⟨k, some d, s.fresh⟩)] 1) := by
  rw [initCursor, ofExcept_bind_ok hc, bind_of_returned (read_apply s), hcd]
  dsimp only [Option.map_some]
  rcases answer (some cd) with f | _ | reply <;> rfl

/-- A cursor is asked for: the step raises before its call, the call has undefined behaviour, or gives
`NULL`, or a cursor at the first answer of the driver. -/
theorem initCursor_cases {d : Nat} {cd : ColumnData} (hcd : s.frame.coldata = some (d, cd))
    (k : CollectionHandle) (answer : Option ColumnData → C (Option (Nat → Reply))) :
    (∃ e, initCursor env k answer s = (.raised e, s)) ∨
      (∃ f, initCursor env k answer s = (.fault f, s.did [.initCursor k (some d) none] 0)) ∨
      initCursor env k answer s = (.returned none, s.did [.initCursor k (some d) none] 0) ∨
      ∃ reply, answer (some cd) = .ok (some reply) ∧ initCursor env k answer s =
        (.returned (some (⟨k, some d, s.fresh⟩, ⟨reply, 0, false⟩)),
          s.did [.initCursor k (some d) (some ⟨k, some d, s.fresh⟩)] 1) := by
  rcases check_cases env .initCursor with ⟨hc, -⟩ | ⟨e, hc, -⟩
  · rw [initCursor_eq hc hcd]
    right
    rcases hans : answer (some cd) with f | _ | reply
    · exact Or.inl ⟨f, rfl⟩
    · exact Or.inr (Or.inl rfl)
    · exact Or.inr (Or.inr ⟨reply, rfl, rfl⟩)
  · exact Or.inl ⟨e, ofExcept_bind_error hc _ s⟩

/-- A load in an open session. -/
theorem loadQuery_cases [CImpl] {h : Session} (hf : s.frame = h.frame) :
    (∃ e, loadQuery env s = (.raised e, s)) ∨
      (∃ f, monaryLoadQuery h.columns h.mcursor = .error f ∧
        loadQuery env s = (.fault f, s.did [.loadQuery h.cursor none] 0)) ∨
      ∃ r, monaryLoadQuery h.columns h.mcursor = .ok r ∧
        loadQuery env s = (.returned (r.row : Int), (s.did [h.loading r] 0).within (h.loaded r).frame) := by
  obtain ⟨log, connection, fresh, frame⟩ := s
  dsimp only at hf
  subst hf
  unfold loadQuery
  rcases check_cases env .loadQuery with ⟨hc, -⟩ | ⟨e, hc, -⟩
  · rw [ofExcept_bind_ok hc, bind_of_returned (read_apply _)]
    dsimp only [Session.frame]
    right
    rcases hload : monaryLoadQuery h.columns h.mcursor with f | r
    · exact Or.inl ⟨f, rfl, rfl⟩
    · exact Or.inr ⟨r, rfl, rfl⟩
  · exact Or.inl ⟨e, ofExcept_bind_error hc _ _⟩

/-- A load without a cursor dereferences `NULL`, unless the step raises. -/
theorem loadQuery_null [CImpl] (hf : s.frame.cursor = none) :
    (∃ e, env.raises .loadQuery = some e ∧ loadQuery env s = (.raised e, s)) ∨
      env.raises .loadQuery = none ∧ loadQuery env s = (.fault .undefined, s) := by
  unfold loadQuery
  rcases check_cases env .loadQuery with ⟨hc, hload⟩ | ⟨e, hc, hload⟩
  · rw [ofExcept_bind_ok hc, bind_of_returned (read_apply s), hf]
    exact Or.inr ⟨hload, rfl⟩
  · exact Or.inl ⟨e, hload, ofExcept_bind_error hc _ s⟩

end Steps

/-! ## Whole sessions -/

/-- The handles of the session are the next three, and its collection is one of the client of the object. -/
structure Session.OpenedFrom (h : Session) (connection : Option Nat) (fresh : Nat) : Prop where
  client : connection = some h.collection.client
  coldata : h.coldata = fresh
  collection : h.collection.id = fresh + 1
  cursor : h.id = fresh + 2

/-- The calls of a session that raises before its first load returns, `leak` being the refusal of a
column after the allocation. -/
inductive Aborted (connection : Option Nat) (fresh : Nat) (leak : Prop) : List Event → Nat → Prop
  | start : Aborted connection fresh leak [] 0
  | refused : leak → Aborted connection fresh leak [.allocColumnData (some fresh)] 1
  | unconnected : Aborted connection fresh leak [.allocColumnData (some fresh), .freeColumnData fresh] 1
  | noCollection (client : Nat) : connection = some client → Aborted connection fresh leak
      [.allocColumnData (some fresh), .useCollection client none, .freeColumnData fresh] 1
  | noCursor (k : CollectionHandle) (asked : List Event) : connection = some k.client → k.id = fresh + 1 →
      asked = [] ∨ asked = [.initCursor k (some fresh) none] → Aborted connection fresh leak
        ([.allocColumnData (some fresh), .useCollection k.client (some k)] ++ asked ++
          [.destroyCollection k, .freeColumnData fresh]) 2
  | noLoad (h : Session) : h.OpenedFrom connection fresh →
      Aborted connection fresh leak (h.opening ++ h.closing) 3

/-- The calls of a session that ends in a fault before its first load returns. -/
inductive Crashed (connection : Option Nat) (fresh : Nat) : List Event → Nat → Prop
  | init (k : CollectionHandle) : connection = some k.client → k.id = fresh + 1 → Crashed connection fresh
      [.allocColumnData (some fresh), .useCollection k.client (some k), .initCursor k (some fresh) none] 2
  | load (h : Session) : h.OpenedFrom connection fresh →
      Crashed connection fresh (h.opening ++ [.loadQuery h.cursor none]) 3

/-- The state in which a session has made its first load. -/
def Session.opened (h : Session) (s : State) (r : LoadState) : State :=
  (s.did (h.opening ++ [h.loading r]) 3).within (h.loaded r).frame

section Run
variable [PyImpl] [CImpl] {α : Type}

/-- What a session comes to. -/
inductive SessionRun (env : Env) (fields types : List String) (count : Int)
    (answer : Option ColumnData → C (Option (Nat → Reply))) (rest : Int → Py α) (s : State) :
    Outcome PyExn (List MaskedArray × Resume) Fault α × State → Prop
  | aborted (e : PyExn) (trace : List Event) (n : Nat) (f : Frame) :
      Aborted s.connection s.fresh (Refuses env fields types count) trace n →
      SessionRun env fields types count answer rest s (.raised e, (s.did trace n).within f)
  | crashed (x : Fault) (trace : List Event) (n : Nat) (f : Frame) : Crashed s.connection s.fresh trace n →
      SessionRun env fields types count answer rest s (.fault x, (s.did trace n).within f)
  | opened (h : Session) (reply : Nat → Reply) (r : LoadState) : h.OpenedFrom s.connection s.fresh →
      Accepts env fields types count h.columns → answer (some h.columns) = .ok (some reply) →
      h.mcursor = ⟨reply, 0, false⟩ → monaryLoadQuery h.columns h.mcursor = .ok r →
      SessionRun env fields types count answer rest s (finish (rest r.row (h.opened s r)))

/-- The rest of the inner `try`, with its finalizers, after the collection was found. -/
theorem openedCollection_run {env : Env} {fields types : List String} {count : Int} {cd : ColumnData}
    {s : State} {client : Nat} (hcd : Accepts env fields types count cd) (hclient : s.connection = some client)
    (answer : Option ColumnData → C (Option (Nat → Reply))) (rest : Int → Py α) :
    SessionRun env fields types count answer rest s (finish
      ((do let cursor ← initCursor env ⟨client, s.fresh + 1⟩ answer
           setCursor cursor
           load env rest : Py α)
        ((s.did [.allocColumnData (some s.fresh), .useCollection client (some ⟨client, s.fresh + 1⟩)] 2).within
          ⟨some (s.fresh, cd), some (some ⟨client, s.fresh + 1⟩), none⟩))) := by
  generalize hk : (⟨client, s.fresh + 1⟩ : CollectionHandle) = k
  generalize hu : (s.did [.allocColumnData (some s.fresh), .useCollection client (some k)] 2).within
    ⟨some (s.fresh, cd), some (some k), none⟩ = u
  have hkc : s.connection = some k.client := by rw [hclient, ← hk]
  have hki : k.id = s.fresh + 1 := by rw [← hk]
  have hclientk : client = k.client := by rw [← hk]
  have hucd : u.frame.coldata = some (s.fresh, cd) := by rw [← hu]; rfl
  rw [bind_apply]
  rcases @initCursor_cases env u _ _ hucd k answer with ⟨e, hi⟩ | ⟨f, hi⟩ | hi | ⟨reply, hans, hi⟩
  · rw [hi, andThen_raised, ← hu, finish_noCursor, did_did]
    rw [hclientk]
    exact .aborted _ _ _ _ (.noCursor k [] hkc hki (Or.inl rfl))
  · rw [hi, andThen_fault, ← hu, within_did, did_did, finish_fault]
    rw [hclientk]
    exact .crashed _ _ _ _ (.init k hkc hki)
  · -- the cursor is `NULL`
    generalize hv : (s.did [.allocColumnData (some s.fresh), .useCollection k.client (some k),
      .initCursor k (some s.fresh) none] 2).within ⟨some (s.fresh, cd), some (some k), none⟩ = v
    have hrun : andThen (initCursor env k answer u) (fun cursor => (do setCursor cursor; load env rest : Py α)) =
        load env rest v := by
      rw [hi, andThen_returned, ← hu, ← hv, within_did, did_did, hclientk]
      rfl
    rw [hrun, load, bind_apply]
    rcases @loadQuery_null env v _ (by rw [← hv]; rfl) with ⟨e, -, hl⟩ | ⟨-, hl⟩
    · rw [hl, andThen_raised, ← hv, finish_noCursor, did_did]
      exact .aborted _ _ _ _ (.noCursor k [.initCursor k (some s.fresh) none] hkc hki (Or.inr rfl))
    · rw [hl, andThen_fault, finish_fault, ← hv]
      exact .crashed _ _ _ _ (.init k hkc hki)
  · obtain ⟨h, hh⟩ : ∃ h : Session, h = ⟨s.fresh, cd, k, s.fresh + 2, ⟨reply, 0, false⟩⟩ := ⟨_, rfl⟩
    have hopen : h.OpenedFrom s.connection s.fresh := by
      rw [hh]
      exact ⟨hkc, rfl, hki, rfl⟩
    have hfresh : u.fresh = s.fresh + 2 := by rw [← hu]; rfl
    have hrun : andThen (initCursor env k answer u) (fun cursor => (do setCursor cursor; load env rest : Py α)) =
        load env rest ((s.did h.opening 3).within h.frame) := by
      rw [hi, andThen_returned, hfresh, ← hu, within_did, did_did, hclientk, hh]
      rfl
    rw [hrun, load, bind_apply]
    rcases @loadQuery_cases env ((s.did h.opening 3).within h.frame) _ h rfl with
      ⟨e, hl⟩ | ⟨f, -, hl⟩ | ⟨r, hr, hl⟩
    · rw [hl, andThen_raised, finish_raised (h := h) rfl, within_did, did_did]
      exact .aborted _ _ _ _ (.noLoad h hopen)
    · rw [hl, andThen_fault, finish_fault, within_did, did_did]
      exact .crashed _ _ _ _ (.load h hopen)
    · rw [hl, andThen_returned, within_did, did_did, within_within]
      exact .opened h reply r hopen (by rw [hh]; exact hcd) (by rw [hh]; exact hans) (by rw [hh]) hr

/-- The body of the inner `try`, with its finalizers, after the column data was made. -/
theorem openCursor_run {env : Env} {fields types : List String} {count : Int} {cd : ColumnData} {s t : State}
    (hcd : Accepts env fields types count cd)
    (ht : t = (s.did [.allocColumnData (some s.fresh)] 1).within ⟨some (s.fresh, cd), none, none⟩)
    (db coll : String) (answer : Option ColumnData → C (Option (Nat → Reply))) (rest : Int → Py α) :
    SessionRun env fields types count answer rest s
      (finish (openCursor env db coll (initCursor env · answer) rest t)) := by
  have hfresh : t.fresh = s.fresh + 1 := by rw [ht]; rfl
  have hconn : t.connection = s.connection := by rw [ht]; rfl
  rcases getCollection_cases env t db coll with ⟨e, hget⟩ | ⟨client, hclient, hget | hget⟩
  · have hrun : openCursor env db coll (initCursor env · answer) rest t = (.raised e, t) := by
      rw [openCursor, bind_apply, hget, andThen_raised]
    rw [hrun, ht, finish_unbound, did_did]
    exact .aborted _ _ _ _ .unconnected
  · have hrun : openCursor env db coll (initCursor env · answer) rest t =
        (.raised ⟨.valueError, "unable to get the collection", []⟩,
          (t.did [.useCollection client none] 0).within ⟨some (s.fresh, cd), some none, none⟩) := by
      rw [openCursor, bind_of_returned hget, ht]
      rfl
    rw [hrun, ht, within_did, did_did, within_within, finish_noCollection, did_did]
    exact .aborted _ _ _ _ (.noCollection client (hconn ▸ hclient))
  · rw [hfresh] at hget
    rw [hconn] at hclient
    have hrun : openCursor env db coll (initCursor env · answer) rest t =
        (do let cursor ← initCursor env ⟨client, s.fresh + 1⟩ answer
            setCursor cursor
            load env rest : Py α)
          ((s.did [.allocColumnData (some s.fresh), .useCollection client (some ⟨client, s.fresh + 1⟩)] 2).within
            ⟨some (s.fresh, cd), some (some ⟨client, s.fresh + 1⟩), none⟩) := by
      rw [openCursor, bind_of_returned hget, ht, within_did, did_did]
      rfl
    rw [hrun]
    exact openedCollection_run hcd hclient answer rest

/-- What a session comes to. -/
theorem session_run (env : Env) (db coll : String) (fields types : List String) (count : Int)
    (answer : Option ColumnData → C (Option (Nat → Reply))) (rest : Int → Py α) {s : State}
    (hs : s.frame = Frame.start) :
    SessionRun env fields types count answer rest s
      (session env db coll fields types count (initCursor env · answer) rest s) := by
  obtain ⟨log, connection, fresh, frame⟩ := s
  dsimp only at hs
  subst hs
  rw [session, tryFinally_apply, bind_apply]
  rcases makeColumnData_cases env ⟨log, connection, fresh, Frame.start⟩ fields types count with
    ⟨e, -, hmake⟩ | ⟨e, hno, hmake⟩ | ⟨cd, -, hcd, hmake⟩
  · rw [hmake, andThen_raised]
    have habort : SessionRun env fields types count answer rest ⟨log, connection, fresh, Frame.start⟩
        (.raised e, ((State.mk log connection fresh Frame.start).did [] 0).within Frame.start) :=
      .aborted _ _ _ _ .start
    rw [did_nil] at habort
    exact habort
  · rw [hmake, andThen_raised]
    exact .aborted _ _ _ _ (.refused hno)
  · rw [hmake, andThen_returned]
    exact openCursor_run hcd rfl db coll answer rest

end Run

end Monary
