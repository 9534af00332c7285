import Monary.Cmonary.Setup
import Monary.Lib.Effect
import Monary.Python.Queries
import Monary.Python.TypeNames

/-!
# What the Python methods act on

* `Event` : the calls of the C library, with the handles they were given and gave back. The calls of
  `monary_bson_to_arrays` that a load makes are recorded with row and number of the document, and so is
  what `mongoc_cursor_error` says at its end;
* `Frame` : the local variables of a method that hold such handles, with what the pointers lead to;
* `State` : the calls so far, the field `_connection` of the object and the frame of the running method;
* `Env` : what a method meets: the exceptions of steps that the model does not compute (memory, the
  conversion of arguments), the server and the BSON encoder;
* `Py` : a computation of a method, which suspends itself with the block it yields.

An exception at a step is raised before the call of that step is made. Interrupts from outside are left out.
-/

namespace Monary
open CInt Effect

/-! ## Handles and calls -/

/-- `mongoc_collection_t*`, and the client it was created from. -/
structure CollectionHandle where
  client : Nat
  id : Nat
  deriving DecidableEq, Repr

/-- `monary_cursor*`, and what it was created from. -/
structure CursorHandle where
  collection : CollectionHandle
  coldata : Option Nat
  id : Nat
  deriving DecidableEq, Repr

/-- What a load that returned did: its calls of `monary_bson_to_arrays` and whether the cursor failed. -/
structure LoadRecord where
  calls : List (Nat × Nat)
  failed : Bool
  deriving DecidableEq, Repr

inductive Event where
  | connect (client : Option Nat)
  | disconnect (client : Nat)
  | useCollection (client : Nat) (collection : Option CollectionHandle)
  | destroyCollection (collection : CollectionHandle)
  | allocColumnData (coldata : Option Nat)
  | freeColumnData (coldata : Nat)
  | queryCount (collection : CollectionHandle)
  | initCursor (collection : CollectionHandle) (coldata : Option Nat) (cursor : Option CursorHandle)
  | loadQuery (cursor : CursorHandle) (result : Option LoadRecord)
  | closeQuery (cursor : CursorHandle)
  deriving DecidableEq, Repr

/-! ## State -/

/-- The local variables `coldata` (with what it points to), `collection` (`none` as long as it is unbound)
and `cursor` of a method. -/
structure Frame where
  coldata : Option (Nat × ColumnData)
  collection : Option (Option CollectionHandle)
  cursor : Option (CursorHandle × MongocCursor)

/-- At the start of a method. -/
def Frame.start : Frame := ⟨none, none, none⟩

structure State where
  log : List Event
  connection : Option Nat
  /-- The next handle is this one. -/
  fresh : Nat
  frame : Frame

/-- A `numpy.ma.masked_array`: the rows it shows of the arrays of a column. -/
structure MaskedArray where
  length : Nat
  column : ColumnItem
  deriving DecidableEq, Repr

/-- The values of the rows, `none` where they are masked. -/
def MaskedArray.views (a : MaskedArray) : List (Option Bytes) := (List.range a.length).map a.column.view

/-- `arr[:n]`. -/
def MaskedArray.upTo (a : MaskedArray) (n : Nat) : MaskedArray := { a with length := min n a.length }

/-- Where a generator goes on after a `yield`: with the loop, or behind its `break`. -/
inductive Resume where
  | loop
  | stop
  deriving DecidableEq, Repr

/-! ## Environment -/

/-- The steps of a method that can raise for a reason of their own. -/
inductive Step where
  | allocColumnData
  | zeros (column : Nat)
  | ones (column : Nat)
  | setColumnItem (column : Nat)
  | useCollection
  | queryCount
  | initCursor
  | loadQuery
  deriving DecidableEq, Repr

structure Env where
  raises : Step → Option PyExn
  /-- `bson.BSON.encode`. -/
  encode : PyValue → Except PyExn Bytes
  /-- Whether `mongoc_client_new` takes the URI. -/
  client : Bytes → Bool
  /-- Whether `mongoc_client_get_collection` finds one. -/
  collection : Bool
  /-- `mongoc_collection_count` of a query. -/
  count : Bytes → Int
  /-- `mongoc_collection_find` with `skip`, `limit`, query and fields. -/
  find : Nat → Nat → Bytes → Option (List Bytes) → Option (Nat → Reply)
  /-- `mongoc_collection_aggregate` of a pipeline. -/
  aggregate : Bytes → Option (Nat → Reply)

abbrev Py := Prog State PyExn (List MaskedArray × Resume) Fault

def ofExcept {α : Type} : Except PyExn α → Py α
  | .ok a => pure a
  | .error e => raise e

def ofC {α : Type} : C α → Py α
  | .ok a => pure a
  | .error f => stuck f

/-- A step that may raise. -/
def Env.check (env : Env) (step : Step) : Except PyExn Unit :=
  match env.raises step with
  | none => .ok ()
  | some e => .error e

/-- A call of the C library is made. -/
def record (e : Event) : Py Unit := modify fun s => { s with log := s.log ++ [e] }

/-- A handle that was not given out before. -/
def freshHandle : Py Nat := fun s => (.returned s.fresh, { s with fresh := s.fresh + 1 })

def setColdata (coldata : Option (Nat × ColumnData)) : Py Unit :=
  modify fun s => { s with frame := { s.frame with coldata := coldata } }

def setCollection (collection : Option CollectionHandle) : Py Unit :=
  modify fun s => { s with frame := { s.frame with collection := some collection } }

def setCursor (cursor : Option (CursorHandle × MongocCursor)) : Py Unit :=
  modify fun s => { s with frame := { s.frame with cursor := cursor } }

/-- A method called by a method has local variables of its own. -/
def callMethod {α : Type} (c : Py α) : Py α := fun s =>
  let r := c { s with frame := Frame.start }
  (r.1, { r.2 with frame := s.frame })

end Monary
