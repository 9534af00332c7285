import Monary.Python.Sessions

/-!
# Connecting and closing

* `buildUri` : the URI of `connect`; `quotePlus`, `urlencode` : the functions of `urllib.parse`, for
  options whose keys and values are strings;
* `connect`, `close` : the methods of these names; `__exit__` and `__del__` close as well;
* `close_apply`, `connect_cases` : what they do.
-/

namespace Monary
open Effect

structure ConnectArgs where
  host : String
  port : Int
  username : Option String
  password : Option String
  database : Option String
  options : List (String × String)

/-! ## URIs -/

def hexDigit (n : Nat) : Char := "0123456789ABCDEF".toList.getD n '0'

/-- The characters that `quote` never quotes. -/
def unreserved (c : Char) : Bool :=
  ('A' ≤ c && c ≤ 'Z') || ('a' ≤ c && c ≤ 'z') || ('0' ≤ c && c ≤ '9') || ['_', '.', '-', '~'].contains c

/-- `quote_plus` of a character. -/
def quoteChar (c : Char) : List Char :=
  if c = ' ' then ['+']
  else if unreserved c then [c]
  else (String.singleton c).toUTF8.toList.flatMap fun b => ['%', hexDigit (b.toNat / 16), hexDigit (b.toNat % 16)]

def quotePlus (s : String) : String := String.ofList (s.toList.flatMap quoteChar)

def urlencode (options : List (String × String)) : String :=
  "&".intercalate (options.map fun p => quotePlus p.1 ++ "=" ++ quotePlus p.2)

def buildUri (a : ConnectArgs) : Except PyExn String :=
  if "mongodb://".toList.isPrefixOf a.host.toList then .ok a.host
  else do
    let user ←
      match a.username, a.password with
      | some username, none => .ok (username ++ "@")
      | some username, some password => .ok (username ++ ":" ++ password ++ "@")
      | none, some _ => .error ⟨.valueError, "You cannot have a password with no username.", []⟩
      | none, none => .ok ""
    let database := a.database.elim "" fun database => "/" ++ database
    let options := if a.options.length > 0 then "?" ++ urlencode a.options else ""
    .ok ("mongodb://" ++ user ++ a.host ++ ":" ++ toString a.port ++ database ++ options)

/-! ## Methods -/

def setConnection (connection : Option Nat) : Py Unit := modify fun s => { s with connection := connection }

/-- `close`. -/
def close : Py Unit := do
  let s ← read
  match s.connection with
  | none => pure ()
  | some client => do
    record (.disconnect client)
    setConnection none

/-- The call of `monary_connect`. -/
def monaryConnect (env : Env) (uri : Bytes) : Py (Option Nat) :=
  if env.client uri then do
    let client ← freshHandle
    record (.connect (some client))
    return some client
  else do
    record (.connect none)
    return none

/-- `connect`. -/
def connect (env : Env) (a : ConnectArgs) : Py Bool := do
  close
  let uri ← ofExcept (buildUri a)
  let uri ← ofExcept (encodeAscii uri)
  let client ← monaryConnect env uri
  setConnection client
  return client.isSome

/-! ## What they do -/

/-- After the connection was closed. -/
def State.closed (s : State) : State :=
  match s.connection with
  | none => s
  | some client => { s.did [.disconnect client] 0 with connection := none }

theorem close_apply (s : State) : close s = (.returned (), s.closed) := by
  unfold close State.closed
  rw [bind_of_returned (read_apply s)]
  rcases s.connection with _ | client <;> rfl

theorem connection_closed (s : State) : s.closed.connection = none := by
  unfold State.closed
  rcases hc : s.connection with _ | client
  · exact hc
  · rfl

/-- `connect` raises once the old connection is closed, or the URI is refused, or there is a new client. -/
theorem connect_cases (env : Env) (a : ConnectArgs) (s : State) :
    (∃ e, connect env a s = (.raised e, s.closed)) ∨
      connect env a s = (.returned false, s.closed.did [.connect none] 0) ∨
      connect env a s = (.returned true,
        { s.closed.did [.connect (some s.closed.fresh)] 1 with connection := some s.closed.fresh }) := by
  have hconn := connection_closed s
  unfold connect
  rw [bind_of_returned (close_apply s)]
  generalize s.closed = t at hconn ⊢
  rcases buildUri a with e | uri
  · exact Or.inl ⟨e, rfl⟩
  rw [ofExcept_bind_ok rfl]
  rcases encodeAscii uri with e | bytes
  · exact Or.inl ⟨e, rfl⟩
  rw [ofExcept_bind_ok rfl]
  right
  unfold monaryConnect
  by_cases hc : env.client bytes = true
  · right
    rw [if_pos hc]
    rfl
  · left
    rw [if_neg hc]
    obtain ⟨log, connection, fresh, frame⟩ := t
    dsimp only at hconn
    subst hconn
    rfl

end Monary
