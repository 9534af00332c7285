import Monary.Python.World

/-!
# Column data, collections, cursors and sessions

* `makeColumnData` : `_make_column_data`, with `fillColumns` its loop;
* `getCollection` : `_get_collection`; `count` : the method of this name;
* `monaryInitQuery`, `monaryInitAggregate`, `loadQuery` : the calls of `cmonary`;
* `load`, `session` : the two nested `try` ... `finally` that `query`, `block_query`, `aggregate` and
  `block_aggregate` have in common, `closeCursor` and `freeColumnData` being the finalizers;
* `query`, `aggregate` : the methods of these names.
-/

namespace Monary
open CInt Effect

/-! ## Column data -/

/-- `MAX_COLUMNS`. -/
def maxColumns : Nat := 1024

/-- `numpy.zeros([count], dtype=numpy_type)`. -/
def numpyZeros (count : Int) (numpyType : NumpyType) : Except PyExn Bytes :=
  match numpyType.itemSize with
  | none => .error ⟨.typeError, "data type not understood", []⟩
  | some k =>
    if count < 0 then .error ⟨.valueError, "negative dimensions are not allowed", []⟩
    else .ok (List.replicate (count.toNat * k) 0)

/-- `numpy.ones([count], dtype=bool)`. -/
def numpyOnes (count : Int) : Except PyExn Bytes :=
  if count < 0 then .error ⟨.valueError, "negative dimensions are not allowed", []⟩
  else .ok (List.replicate count.toNat 1)

/-- What `monary_set_column_item` is called with, behind the column data and the column number. -/
structure ColumnSpec where
  field : Bytes
  type : MonaryType
  typeArg : Nat
  data : Bytes
  mask : Bytes

section Columns
variable [PyImpl]

/-- The body of the loop of `_make_column_data`, before the call of `monary_set_column_item`. -/
def columnSpec (env : Env) (count : Int) (i : Nat) (field typename : String) : Except PyExn ColumnSpec :=
  if field.length > maxStringLength then
    .error ⟨.valueError, "length of field name %s exceeds maximum of %d", [.str field, .int maxColumns]⟩
  else do
    let (cmonaryType, cmonaryTypeArg, numpyType) ← getMonaryNumpyType typename
    env.check (.zeros i)
    let data ← numpyZeros count numpyType
    env.check (.ones i)
    let mask ← numpyOnes count
    let name ← encodeAscii field
    env.check (.setColumnItem i)
    return ⟨name, cmonaryType, toUInt32 cmonaryTypeArg, data, mask⟩

/-- The loop of `_make_column_data`, from column `i` on. -/
def fillColumns (env : Env) (count : Int) :
    Nat → List (String × String) → Option ColumnData → Except PyExn (Option ColumnData)
  | _, [], coldata => .ok coldata
  | i, (field, typename) :: columns, coldata => do
    let c ← columnSpec env count i field typename
    fillColumns env count (i + 1) columns
      (monarySetColumnItem coldata i c.field c.type.code c.typeArg (some c.data) (some c.mask)).1

/-- The call of `monary_alloc_column_data`. -/
def allocColumnData (numColumns count : Int) : Py (Option (Nat × ColumnData)) :=
  match monaryAllocColumnData (toUInt32 numColumns) (toUInt32 count) with
  | none => do
    record (.allocColumnData none)
    return none
  | some cd => do
    let id ← freshHandle
    record (.allocColumnData (some id))
    return some (id, cd)

/-- `_make_column_data`. -/
def makeColumnData (env : Env) (fields types : List String) (count : Int) : Py (Option (Nat × ColumnData)) :=
  if fields.length ≠ types.length then
    raise ⟨.valueError, "number of fields and types do not match", []⟩
  else if fields.length > maxColumns then
    raise ⟨.valueError, "number of fields exceeds maximum of %d", [.int maxColumns]⟩
  else do
    ofExcept (env.check .allocColumnData)
    let coldata ← allocColumnData fields.length count
    let filled ← ofExcept (fillColumns env count 0 (fields.zip types) (coldata.map (·.2)))
    return coldata.bind fun p => filled.map fun cd => (p.1, cd)

end Columns

/-- `colarrays`, made for `count` rows. -/
def colarrays (count : Int) : Py (List MaskedArray) := do
  let s ← read
  match s.frame.coldata with
  | none => return []
  | some (_, cd) => return cd.columns.map fun c => ⟨count.toNat, c⟩

/-! ## Collections -/

/-- The call of `monary_use_collection`. -/
def useCollection (env : Env) (client : Nat) : Py (Option CollectionHandle) :=
  if env.collection then do
    let id ← freshHandle
    record (.useCollection client (some ⟨client, id⟩))
    return some ⟨client, id⟩
  else do
    record (.useCollection client none)
    return none

/-- `_get_collection`. -/
def getCollection (env : Env) (db coll : String) : Py (Option CollectionHandle) := do
  let s ← read
  match s.connection with
  | none => raise ⟨.valueError, "failed to get collection %s.%s - not connected", [.str db, .str coll]⟩
  | some client => do
    let _ ← ofExcept (encodeAscii db)
    let _ ← ofExcept (encodeAscii coll)
    ofExcept (env.check .useCollection)
    useCollection env client

/-- The call of `monary_query_count`. -/
def monaryQueryCount (env : Env) (collection : CollectionHandle) (query : Bytes) : Py Int := do
  record (.queryCount collection)
  let doc ← ofC (bsonInitStatic query)
  match doc with
  | none => return -1
  | some doc => return env.count doc

/-- The `finally` of `count`. -/
def destroyCollection : Py Unit := do
  let s ← read
  match s.frame.collection.join with
  | none => pure ()
  | some collection => record (.destroyCollection collection)

/-- The body of the `try` of `count`. -/
def countBody (env : Env) (db coll : String) (query : PyValue) : Py Int := do
  let collection ← getCollection env db coll
  setCollection collection
  match collection with
  | none => raise ⟨.valueError, "couldn't connect to collection %s.%s", [.str db, .str coll]⟩
  | some collection => do
    let query ← ofExcept (makeBson env.encode query)
    ofExcept (env.check .queryCount)
    monaryQueryCount env collection query

/-- `count`. -/
def count (env : Env) (db coll : String) (query : PyValue) : Py Int := do
  setCollection none
  let n ← tryFinally (countBody env db coll query) destroyCollection
  if n < 0 then raise ⟨.runtimeError, "Internal error in count()", []⟩ else return n

/-! ## Cursors -/

/-- What the driver has for `monary_init_query`; `none` is `NULL`. -/
def findReply (env : Env) (offset limit : Int) (query : Bytes) (selectFields : Bool)
    (coldata : Option ColumnData) : C (Option (Nat → Reply)) :=
  match coldata with
  | none => return none
  | some cd => do
    let doc ← bsonInitStatic query
    return doc.bind fun doc =>
      env.find (toUInt32 offset) (toUInt32 limit) doc
        (if selectFields then some (monaryGetBsonFieldsList cd) else none)

/-- What the driver has for `monary_init_aggregate`. -/
def aggregateReply (env : Env) (pipeline : Bytes) : C (Option (Nat → Reply)) := do
  let doc ← bsonInitStatic pipeline
  return doc.bind env.aggregate

/-- The end of `monary_init_query` and `monary_init_aggregate`. -/
def initCursor (env : Env) (collection : CollectionHandle)
    (answer : Option ColumnData → C (Option (Nat → Reply))) : Py (Option (CursorHandle × MongocCursor)) := do
  ofExcept (env.check .initCursor)
  let s ← read
  let coldata := s.frame.coldata.map (·.1)
  match answer (s.frame.coldata.map (·.2)) with
  | .error f => do
    record (.initCursor collection coldata none)
    stuck f
  | .ok none => do
    record (.initCursor collection coldata none)
    return none
  | .ok (some reply) => do
    let id ← freshHandle
    record (.initCursor collection coldata (some ⟨collection, coldata, id⟩))
    return some (⟨collection, coldata, id⟩, ⟨reply, 0, false⟩)

/-- The call of `monary_init_query`. -/
def monaryInitQuery (env : Env) (offset limit : Int) (query : Bytes) (selectFields : Bool)
    (collection : CollectionHandle) : Py (Option (CursorHandle × MongocCursor)) :=
  initCursor env collection (findReply env offset limit query selectFields)

/-- The call of `monary_init_aggregate`. -/
def monaryInitAggregate (env : Env) (pipeline : Bytes) (collection : CollectionHandle) :
    Py (Option (CursorHandle × MongocCursor)) :=
  initCursor env collection fun _ => aggregateReply env pipeline

/-- The call of `monary_load_query`. -/
def loadQuery [CImpl] (env : Env) : Py Int := do
  ofExcept (env.check .loadQuery)
  let s ← read
  match s.frame.cursor, s.frame.coldata with
  | none, _ => stuck .undefined
  | some (cursor, _), none => do
    record (.loadQuery cursor none)
    stuck .undefined
  | some (cursor, mcursor), some (id, cd) =>
    match monaryLoadQuery cd mcursor with
    | .error f => do
      record (.loadQuery cursor none)
      stuck f
    | .ok r => do
      record (.loadQuery cursor (some ⟨r.calls, mongocCursorError r.mcursor⟩))
      setColdata (some (id, r.coldata))
      setCursor (some (cursor, r.mcursor))
      return r.row

/-! ## Sessions -/

/-- The inner `finally`: the cursor is closed, then the collection destroyed. -/
def closeCursor : Py Unit := do
  let s ← read
  match s.frame.cursor with
  | none => pure ()
  | some (cursor, _) => record (.closeQuery cursor)
  match s.frame.collection with
  | none => raise ⟨.unboundLocalError, "local variable 'collection' referenced before assignment", []⟩
  | some none => pure ()
  | some (some collection) => record (.destroyCollection collection)

/-- The outer `finally`. -/
def freeColumnData : Py Unit := do
  let s ← read
  match s.frame.coldata with
  | none => pure ()
  | some (coldata, _) => record (.freeColumnData coldata)

/-- The two `finally` around a body. -/
def finalized {α : Type} (body : Py α) : Py α := tryFinally (tryFinally body closeCursor) freeColumnData

/-- The call of `monary_load_query`, and what is made of the number of rows. -/
def load {α : Type} [CImpl] (env : Env) (rest : Int → Py α) : Py α := do
  let numRows ← loadQuery env
  rest numRows

/-- The body of the inner `try`. -/
def openCursor {α : Type} [CImpl] (env : Env) (db coll : String)
    (init : CollectionHandle → Py (Option (CursorHandle × MongocCursor))) (rest : Int → Py α) : Py α := do
  let collection ← getCollection env db coll
  setCollection collection
  match collection with
  | none => raise ⟨.valueError, "unable to get the collection", []⟩
  | some collection => do
    let cursor ← init collection
    setCursor cursor
    load env rest

/-- Column data is made, a cursor opened and a first load made, with `rest` for its number of rows. -/
def session {α : Type} [PyImpl] [CImpl] (env : Env) (db coll : String) (fields types : List String)
    (count : Int) (init : CollectionHandle → Py (Option (CursorHandle × MongocCursor))) (rest : Int → Py α) :
    Py α :=
  tryFinally (do
      let coldata ← makeColumnData env fields types count
      setColdata coldata
      setCursor none
      tryFinally (openCursor env db coll init rest) closeCursor)
    freeColumnData

/-! ## `query` and `aggregate` -/

structure QueryArgs where
  db : String
  coll : String
  query : PyValue
  fields : List String
  types : List String
  sort : PyValue
  hint : PyValue
  limit : Int
  offset : Int
  selectFields : Bool

structure AggregateArgs where
  db : String
  coll : String
  pipeline : PyValue
  fields : List String
  types : List String
  limit : Int

/-- `if count > limit > 0: count = limit`. -/
def limited (count limit : Int) : Int := if count > limit ∧ limit > 0 then limit else count

section Methods
variable [PyImpl] [CImpl]

/-- The part of `query` that follows its first sizing. -/
def queryRows (env : Env) (a : QueryArgs) (fullQuery : Bytes) (n : Int) : Py (List MaskedArray) := do
  session env a.db a.coll a.fields a.types (limited n a.limit)
    (monaryInitQuery env a.offset a.limit fullQuery a.selectFields) fun _ => pure ()
  colarrays (limited n a.limit)

/-- `query`; the environment of its call of `count` is `inner`. -/
def query (env inner : Env) (a : QueryArgs) (doCount : Bool) : Py (List MaskedArray) := do
  let plainQuery ← ofExcept (getPlainQuery env.encode a.query)
  let fullQuery ← ofExcept (getFullQuery env.encode a.query a.sort a.hint)
  if doCount = false ∧ a.limit > 0 then queryRows env a fullQuery a.limit
  else do
    let n ← callMethod (count inner a.db a.coll (.bytes plainQuery))
    queryRows env a fullQuery n

/-- `result, = ...`, `result.compressed()` and `result[0]`. -/
def countOf (result : List MaskedArray) : Except PyExn Int :=
  match result with
  | [a] =>
    match a.views.reduceOption with
    | [] => .error ⟨.runtimeError, "Failed to count the aggregation size", []⟩
    | n :: _ => .ok (toInt64 (ByteSeq.leNat n))
  | _ => .error ⟨.valueError, "too many values to unpack", []⟩

/-- The part of `aggregate` that follows its first sizing. -/
def aggregateRows (env : Env) (a : AggregateArgs) (pipeline : PyValue) (n : Int) : Py (List MaskedArray) := do
  let encodedPipeline ← ofExcept (getPlainQuery env.encode pipeline)
  session env a.db a.coll a.fields a.types (limited n a.limit) (monaryInitAggregate env encodedPipeline)
    fun _ => pure ()
  colarrays (limited n a.limit)

/-- `aggregate`; the environment of the call of itself that counts the result is `inner`. -/
def aggregate (env inner : Env) (a : AggregateArgs) (doCount : Bool) : Py (List MaskedArray) := do
  let pipeline ← ofExcept (getPipeline a.pipeline)
  if _h : doCount = false ∧ a.limit > 0 then aggregateRows env a pipeline a.limit
  else do
    let pipeCopy ← ofExcept (appendStage pipeline countStage)
    let result ← callMethod (aggregate inner inner ⟨a.db, a.coll, pipeCopy, ["count"], ["int64"], 1⟩ false)
    let n ← ofExcept (countOf result)
    aggregateRows env a pipeline n
termination_by if doCount = false ∧ a.limit > 0 then 0 else 1
decreasing_by
  rw [if_neg _h]
  decide

/-- The call that counts sizes its array without a further one. -/
theorem aggregate_eq (env inner : Env) (a : AggregateArgs) (doCount : Bool) :
    aggregate env inner a doCount = (do
      let pipeline ← ofExcept (getPipeline a.pipeline)
      if doCount = false ∧ a.limit > 0 then aggregateRows env a pipeline a.limit
      else do
        let pipeCopy ← ofExcept (appendStage pipeline countStage)
        let result ← callMethod
          (aggregateRows inner ⟨a.db, a.coll, pipeCopy, ["count"], ["int64"], 1⟩ pipeCopy 1)
        let n ← ofExcept (countOf result)
        aggregateRows env a pipeline n) := by
  rw [aggregate]
  congr 1
  funext pipeline
  rw [dite_eq_ite]
  congr 1
  rcases hp : appendStage pipeline countStage with e | pipeCopy
  · -- both sides raise, whatever follows
    funext s
    show (Outcome.raised e, s) = (Outcome.raised e, s)
    rfl
  · have hcount : aggregate inner inner ⟨a.db, a.coll, pipeCopy, ["count"], ["int64"], 1⟩ false =
        aggregateRows inner ⟨a.db, a.coll, pipeCopy, ["count"], ["int64"], 1⟩ pipeCopy 1 := by
      rw [aggregate, getPipeline_appendStage hp]
      rfl
    show callMethod (aggregate _ _ _ _) >>= _ = callMethod _ >>= _
    rw [hcount]

end Methods

end Monary
