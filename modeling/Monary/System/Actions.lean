import Monary.Python.Connect
import Monary.Python.Episodes

/-!
# A `Monary` object and the generators started on it

* `System` : the object, the generators that were started on it, and the fault that ended the run, if one did;
* `Action` : the calls of methods and the steps of generators, each with what it meets; `System.step`;
* `Run` : a run of actions in any order, all of which satisfy a condition in the state they start from.

After a fault nothing runs any more. A generator that nobody holds any more is closed.
-/

namespace Monary
open Effect

structure System where
  state : State
  generators : Nat → Generator
  fault : Option Fault

/-- An object before its first `connect`. -/
def System.init : System where
  state := ⟨[], none, 0, Frame.start⟩
  generators _ := .finished
  fault := none

inductive Action where
  | connect (env : Env) (a : ConnectArgs)
  | close
  | exit
  | del
  | count (env : Env) (db coll : String) (query : PyValue)
  | query (env inner : Env) (a : QueryArgs) (doCount : Bool)
  | aggregate (env inner : Env) (a : AggregateArgs) (doCount : Bool)
  | start (i : Nat) (g : Generator)
  | next (env : Env) (i : Nat)
  | closeGenerator (i : Nat)

namespace System

/-- A method is called. -/
def call {α : Type} (sys : System) (c : Py α) : System :=
  let r := callMethod c sys.state
  { sys with state := r.2, fault := faultOf r.1 }

/-- The code of generator `i` runs. -/
def resume (sys : System) (i : Nat)
    (r : Outcome PyExn (List MaskedArray × Resume) Fault Unit × Generator × State) : System :=
  ⟨r.2.2, Function.update sys.generators i r.2.1, faultOf r.1⟩

/-- Nothing runs after a fault; a generator that is made is a new one. -/
def Enabled (sys : System) (a : Action) : Prop :=
  sys.fault = none ∧ ∀ i g, a = .start i g → g.created = true ∧ sys.generators i = .finished

section Step
variable [PyImpl] [CImpl]

def step (sys : System) : Action → System
  | .connect env a => sys.call (connect env a)
  | .close | .exit | .del => sys.call Monary.close
  | .count env db coll query => sys.call (Monary.count env db coll query)
  | .query env inner a doCount => sys.call (Monary.query env inner a doCount)
  | .aggregate env inner a doCount => sys.call (Monary.aggregate env inner a doCount)
  | .start i g => { sys with generators := Function.update sys.generators i g }
  | .next env i => sys.resume i ((sys.generators i).next env sys.state)
  | .closeGenerator i => sys.resume i ((sys.generators i).close sys.state)

/-- A run whose actions all satisfy `P` where they start. -/
inductive Run (P : System → Action → Prop) : System → Prop
  | init : Run P System.init
  | step {sys : System} (a : Action) : Run P sys → sys.Enabled a → P sys a → Run P (sys.step a)

end Step

end System

end Monary
