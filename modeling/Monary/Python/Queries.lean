import Monary.Python.Values

/-!
# Queries, orderings and pipelines

* `makeBson`, `getPlainQuery`, `getFullQuery`, `getOrderingDict`, `getPipeline` : the functions of these
  names, `encode` being `bson.BSON.encode`;
* `countStage`, `appendStage` : the stage that `aggregate` adds to count a result.
-/

namespace Monary

/-- `bool(x)`. -/
def PyValue.truthy : PyValue → Bool
  | none => false
  | bool b => b
  | int n => n != 0
  | str s => !s.isEmpty
  | bytes b => !b.isEmpty
  | list xs | tuple xs => !xs.isEmpty
  | dict xs => !xs.isEmpty
  | other _ => true

/-- `list(x)`, if `x` is iterable. -/
def PyValue.items : PyValue → Option (List PyValue)
  | list xs | tuple xs => some xs
  | str s => some (s.toList.map fun c => .str (String.singleton c))
  | bytes b => some (b.map fun x => .int x.toNat)
  | dict xs => some (xs.map fun p => .str p.1)
  | none | bool _ | int _ | other _ => Option.none

/-- `d[key] = value` on an ordered dictionary. -/
def dictSet (d : List (String × PyValue)) (key : String) (value : PyValue) : List (String × PyValue) :=
  if d.any (·.1 == key) then d.map fun p => if p.1 == key then (key, value) else p
  else d ++ [(key, value)]

/-- An element of the list that `OrderedDict` is called with. The keys that can be encoded are strings: another key
raises here, and in the code not before the dictionary is encoded. -/
def orderedPair (x : PyValue) : Except PyExn (String × PyValue) :=
  match x.items with
  | some [.str key, value] => .ok (key, value)
  | some [_, _] => .error ⟨.typeError, "documents must have only string keys", []⟩
  | some _ => .error ⟨.valueError, "dictionary update sequence element has a length other than 2", []⟩
  | none => .error ⟨.typeError, "cannot convert dictionary update sequence element to a sequence", []⟩

/-- `OrderedDict(xs)`. -/
def orderedDict (xs : List PyValue) : Except PyExn PyValue := do
  let pairs ← xs.mapM orderedPair
  return .dict (pairs.foldl (fun d p => dictSet d p.1 p.2) [])

/-- `get_ordering_dict`. -/
def getOrderingDict (obj : PyValue) : Except PyExn PyValue :=
  match obj with
  | .none => .ok (.dict [])
  | .str s => .ok (.dict [(s, .int 1)])
  | .list xs => orderedDict xs
  | _ => .error ⟨.valueError, "invalid ordering: should be str or list of (column, direction) pairs", []⟩

/-- `try: get_ordering_dict(obj)` `except ValueError: raise ValueError(message)`. -/
def orderingOr (obj : PyValue) (message : String) : Except PyExn PyValue :=
  match getOrderingDict obj with
  | .error ⟨.valueError, _, _⟩ => .error ⟨.valueError, message, []⟩
  | r => r

/-- `if obj: query[key] = get_ordering_dict(obj)`, with the `ValueError` of its own. -/
def setOrdering (d : List (String × PyValue)) (key : String) (obj : PyValue) (message : String) :
    Except PyExn (List (String × PyValue)) :=
  if obj.truthy then do return dictSet d key (← orderingOr obj message)
  else .ok d

section Encode
variable (encode : PyValue → Except PyExn Bytes)

/-- `make_bson`. -/
def makeBson (obj : PyValue) : Except PyExn Bytes :=
  match obj with
  | .none => encode (.dict [])
  | .bytes b => .ok b
  | obj => encode obj

/-- `get_plain_query`. -/
def getPlainQuery (query : PyValue) : Except PyExn Bytes :=
  makeBson encode (match query with | .none => .dict [] | query => query)

/-- `get_full_query`. -/
def getFullQuery (query sort hint : PyValue) : Except PyExn Bytes := do
  let query := match query with | .none => .dict [] | query => query
  if sort.truthy || hint.truthy then
    let d ← setOrdering [("$query", query)] "$orderby" sort
      "sort arg must be string or list of (field, direction) pairs"
    let d ← setOrdering d "$hint" hint "hint arg must be string or list of (field, direction) pairs"
    makeBson encode (.dict d)
  else makeBson encode query

end Encode

/-- `get_pipeline`. -/
def getPipeline (pipeline : PyValue) : Except PyExn PyValue :=
  match pipeline with
  | .list xs => .ok (.dict [("pipeline", .list xs)])
  | .dict d =>
    if d.any (·.1 == "pipeline") then .ok (.dict d) else .ok (.dict [("pipeline", .list [.dict d])])
  | _ => .error ⟨.typeError, "Pipeline must be a dict or a list", []⟩

/-- The stage that counts the documents of a result. -/
def countStage : PyValue :=
  .dict [("$group", .dict [("_id", .int 1), ("count", .dict [("$sum", .int 1)])])]

/-- `pipe_copy["pipeline"].append(stage)` on a copy of a pipeline in its usable form. -/
def appendStage (pipeline stage : PyValue) : Except PyExn PyValue :=
  match pipeline with
  | .dict d =>
    match d.lookup "pipeline" with
    | some (.list xs) => .ok (.dict (dictSet d "pipeline" (.list (xs ++ [stage]))))
    | some _ => .error ⟨.attributeError, "object has no attribute 'append'", []⟩
    | none => .error ⟨.keyError, "pipeline", []⟩
  | _ => .error ⟨.typeError, "object is not subscriptable", []⟩

theorem dictSet_any (d : List (String × PyValue)) (key : String) (value : PyValue) :
    (dictSet d key value).any (·.1 == key) = true := by
  unfold dictSet
  split
  · next h =>
    obtain ⟨p, hp, hkey⟩ := List.any_eq_true.mp h
    refine List.any_eq_true.mpr ⟨(key, value), ?_, by simp⟩
    exact List.mem_map.mpr ⟨p, hp, by rw [if_pos hkey]⟩
  · rw [List.any_append]
    simp

/-- A pipeline with a further stage is in the usable form. -/
theorem getPipeline_appendStage {p stage p' : PyValue} (h : appendStage p stage = .ok p') :
    getPipeline p' = .ok p' := by
  unfold appendStage at h
  split at h
  · split at h
    · cases h
      show (if _ then _ else _) = _
      rw [if_pos (dictSet_any _ _ _)]
    · cases h
    · cases h
  · cases h

end Monary
