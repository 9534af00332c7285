import Monary.Lib.Effect
import Monary.Lib.OrderedMap
import Monary.Lib.Paths

/-!
# The ordered dictionary

`OrderedDict` of the fallback for interpreters without one: the inherited dictionary, a circular list of
links with a sentinel, and a dictionary from keys to links.

* `OrderedDict.new`, `setItem`, `delItem`, `popitem`, `pop`, `setdefault`, `update`, `clear` : the methods;
* `iterNext` : a step of a generator over the keys, forwards or backwards; `forEach` : a loop over them;
* `keys`, `reversed`, `values`, `items`, `copyOf`, `eqOrdered`, `eqDict` : what is read off a dictionary.
-/

namespace Monary
open Effect Linked

/-- A link `[PREV, NEXT, KEY]`; the key of the sentinel is `None`. -/
structure Link (κ : Type) where
  prev : Nat
  next : Nat
  key : Option κ

inductive DictExn (κ : Type) where
  | keyError (key : κ)
  /-- `KeyError('dictionary is empty')`. -/
  | noItem
  /-- An index into a link that `clear` emptied. -/
  | indexError
  /-- A link that `clear` emptied, unpacked. -/
  | valueError
  deriving DecidableEq

inductive DictFault where
  /-- A `while` that does not end. -/
  | diverges
  /-- The `None` of the sentinel taken for a key. -/
  | sentinelKey
  deriving DecidableEq

/-- An ordered dictionary; `links` has what the links hold, `fresh` names the next one. -/
structure OrderedDict (κ V : Type) where
  dict : Finmap fun _ : κ => V
  map : Finmap fun _ : κ => Nat
  root : Nat
  links : Nat → Option (Link κ)
  fresh : Nat

abbrev DictProg (κ V : Type) := Prog (OrderedDict κ V) (DictExn κ) Empty DictFault

namespace OrderedDict

variable {κ V β : Type}

/-- `OrderedDict()`. -/
def new : OrderedDict κ V where
  dict := ∅
  map := ∅
  root := 0
  links := Function.update (fun _ => none) 0 (some ⟨0, 0, none⟩)
  fresh := 1

/-- `len(self)`. -/
def len (d : OrderedDict κ V) : Nat := d.dict.entries.card

/-! ## Links -/

/-- The elements of a link. -/
def linkAt (r : Nat) : DictProg κ V (Link κ) := fun d =>
  match d.links r with
  | some l => (.returned l, d)
  | none => (.raised .indexError, d)

/-- `link[2]`, of a link that is not the sentinel. -/
def keyAt (r : Nat) : DictProg κ V κ := do
  match (← linkAt r).key with
  | some key => pure key
  | none => stuck .sentinelKey

def putLink (r : Nat) (l : Link κ) : DictProg κ V Unit :=
  modify fun d => { d with links := Function.update d.links r (some l) }

/-- A new link. -/
def newLink (l : Link κ) : DictProg κ V Nat := do
  let d ← read
  modify fun d => { d with links := Function.update d.links d.fresh (some l), fresh := d.fresh + 1 }
  pure d.fresh

/-- `link[1] = next`. -/
def setNext (r next : Nat) : DictProg κ V Unit := do
  let l ← linkAt r
  putLink r { l with next }

/-- `link[0] = prev`. -/
def setPrev (r prev : Nat) : DictProg κ V Unit := do
  let l ← linkAt r
  putLink r { l with prev }

/-- A step of `__iter__`, with `Link.next`, or of `__reversed__`, with `Link.prev`. The generator holds `curr`,
the sentinel before its first step. -/
def iterNext (step : Link κ → Nat) (curr : Nat) : DictProg κ V (Option (κ × Nat)) := do
  let d ← read
  let curr := step (← linkAt curr)
  if curr = d.root then pure none
  else do
    let key ← keyAt curr
    pure (some (key, curr))

/-- What `body` returns, for each key that the generator at `curr` yields. -/
def forEach (step : Link κ → Nat) (body : κ → DictProg κ V β) : Nat → Nat → DictProg κ V (List β)
  | 0, _ => stuck .diverges
  | fuel + 1, curr => do
    match ← iterNext step curr with
    | none => pure []
    | some (key, curr) => do
      let b ← body key
      let bs ← forEach step body fuel curr
      pure (b :: bs)

/-- A loop that reads: if it makes more steps than there are links, it never ends. -/
def collect (step : Link κ → Nat) (body : κ → DictProg κ V β) : DictProg κ V (List β) := do
  let d ← read
  forEach step body (d.fresh + 1) d.root

/-- `list(self)`. -/
def keys : DictProg κ V (List κ) := collect Link.next pure

/-- `list(reversed(self))`. -/
def reversed : DictProg κ V (List κ) := collect Link.prev pure

variable [DecidableEq κ]

/-- The inherited `self[key]`. -/
def getItem (key : κ) : DictProg κ V V := do
  match (← read).dict.lookup key with
  | some value => pure value
  | none => raise (.keyError key)

def values : DictProg κ V (List V) := collect Link.next getItem

def items : DictProg κ V (List (κ × V)) := collect Link.next fun key => do
  let value ← getItem key
  pure (key, value)

/-! ## Methods that change the dictionary -/

/-- `last = root[0]; last[1] = root[0] = self.__map[key] = [last, root, key]`. -/
def appendLink (key : κ) : DictProg κ V Unit := do
  let d ← read
  let last := (← linkAt d.root).prev
  let link ← newLink ⟨last, d.root, some key⟩
  setNext last link
  setPrev d.root link
  modify fun d => { d with map := d.map.insert key link }

def setItem (key : κ) (value : V) : DictProg κ V Unit := do
  let d ← read
  if key ∉ d.dict then appendLink key else pure ()
  modify fun d => { d with dict := d.dict.insert key value }

/-- The inherited `dict.pop(self, key)`. -/
def dictPop (key : κ) : DictProg κ V V := do
  let value ← getItem key
  modify fun d => { d with dict := d.dict.erase key }
  pure value

/-- `self.__map.pop(key)`. -/
def mapPop (key : κ) : DictProg κ V Nat := do
  match (← read).map.lookup key with
  | some r => do
    modify fun d => { d with map := d.map.erase key }
    pure r
  | none => raise (.keyError key)

/-- `link_prev, link_next, key = link`. -/
def unpack (r : Nat) : DictProg κ V (Link κ) := fun d =>
  match d.links r with
  | some l => (.returned l, d)
  | none => (.raised .valueError, d)

def delItem (key : κ) : DictProg κ V Unit := do
  let _ ← dictPop key
  let link ← mapPop key
  let l ← unpack link
  setNext l.prev l.next
  setPrev l.next l.prev

/-- The link at the end, taken out of the list. -/
def takeLast : DictProg κ V Nat := do
  let root := (← read).root
  let link := (← linkAt root).prev
  let prev := (← linkAt link).prev
  setNext prev root
  setPrev root prev
  pure link

/-- The link at the start, taken out of the list. -/
def takeFirst : DictProg κ V Nat := do
  let root := (← read).root
  let link := (← linkAt root).next
  let next := (← linkAt link).next
  setNext root next
  setPrev next root
  pure link

def takeLink (last : Bool) : DictProg κ V Nat := if last then takeLast else takeFirst

def popitem (last : Bool) : DictProg κ V (κ × V) := do
  if (← read).len = 0 then raise .noItem
  else do
    let link ← takeLink last
    let key ← keyAt link
    let _ ← mapPop key
    let value ← dictPop key
    pure (key, value)

/-- `pop(key)`, or `pop(key, default)`. -/
def pop (key : κ) (default : Option V) : DictProg κ V V := do
  if key ∈ (← read).dict then do
    let result ← getItem key
    delItem key
    pure result
  else
    match default with
    | some value => pure value
    | none => raise (.keyError key)

def setdefault (key : κ) (default : V) : DictProg κ V V := do
  if key ∈ (← read).dict then getItem key
  else do
    setItem key default
    pure default

/-- `update`, from an iterable of pairs. -/
def update : List (κ × V) → DictProg κ V Unit
  | [] => pure ()
  | (key, value) :: ps => do
    setItem key value
    update ps

/-- `del node[:]` for every node of the map, in whatever order it has them. -/
def emptied (d : OrderedDict κ V) : Nat → Option (Link κ) := fun r =>
  if r ∈ d.map.entries.map Sigma.snd then none else d.links r

def clear : DictProg κ V Unit :=
  modify fun d =>
    { d with
      links := Function.update d.emptied d.root (some ⟨d.root, d.root, none⟩)
      map := ∅
      dict := ∅ }

/-! ## Two dictionaries -/

/-- What is done on another dictionary, which it leaves as it is. -/
def onOther (other : OrderedDict κ V) (c : DictProg κ V β) : DictProg κ V β := fun d => ((c other).1, d)

/-- `update`, from another ordered dictionary. -/
def updateFrom (other : OrderedDict κ V) : DictProg κ V Unit := do
  let ps ← onOther other items
  update ps

/-- `other.copy()`: what `OrderedDict(other)` does to the new dictionary. -/
def copyOf (other : OrderedDict κ V) : Outcome (DictExn κ) Empty DictFault Unit × OrderedDict κ V :=
  updateFrom other new

/-- `self == other`, when `other` is an ordered dictionary. -/
def eqOrdered [DecidableEq V] (other : OrderedDict κ V) : DictProg κ V Bool := do
  if (← read).len = other.len then do
    let ps ← items
    let qs ← onOther other items
    pure (ps = qs)
  else pure false

/-- `self == other`, when `other` is a dictionary of another kind. -/
def eqDict [DecidableEq V] (other : Finmap fun _ : κ => V) : DictProg κ V Bool := do
  pure (decide ((← read).dict = other))

end OrderedDict

end Monary
