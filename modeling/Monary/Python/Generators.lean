import Monary.Python.Methods

/-!
# The generators

* `blockQuery`, `blockAggregate` : the generator functions of these names up to their first `yield`, and
  `blockTurn` the body of their `while True` behind the call of `monary_load_query`;
* `Generator` : a generator that was made, one that waits at a `yield` with its local variables, and one
  that has finished; `Generator.next` and `Generator.close` : `next()` and `close()`.

A turn of the loop ends at a `yield` or with the loop, so that a `next()` runs one turn.
-/

namespace Monary
open CInt Effect

/-- The branches on the number of rows of a turn. -/
def blockTurn (blockSize numRows : Int) : Py Unit := do
  let arrays ← colarrays blockSize
  if numRows = blockSize then suspend (arrays, .loop)
  else if numRows > 0 then suspend (arrays.map (·.upTo numRows.toNat), .stop)
  else return ()

/-- `if block_size < 1: block_size = 1`. -/
def atLeastOne (blockSize : Int) : Int := if blockSize < 1 then 1 else blockSize

section Methods
variable [PyImpl] [CImpl]

/-- `block_query`. -/
def blockQuery (env : Env) (a : QueryArgs) (blockSize : Int) : Py Unit := do
  let blockSize := atLeastOne blockSize
  let fullQuery ← ofExcept (getFullQuery env.encode a.query a.sort a.hint)
  session env a.db a.coll a.fields a.types blockSize
    (monaryInitQuery env a.offset a.limit fullQuery a.selectFields) (blockTurn blockSize)

/-- `block_aggregate`. -/
def blockAggregate (env : Env) (a : AggregateArgs) (blockSize : Int) : Py Unit := do
  let blockSize := atLeastOne blockSize
  let pipeline ← ofExcept (getPipeline a.pipeline)
  let encodedPipeline ← ofExcept (getPlainQuery env.encode pipeline)
  session env a.db a.coll a.fields a.types blockSize (monaryInitAggregate env encodedPipeline)
    (blockTurn blockSize)

inductive Generator where
  | blockQuery (a : QueryArgs) (blockSize : Int)
  | blockAggregate (a : AggregateArgs) (blockSize : Int)
  | suspended (blockSize : Int) (frame : Frame) (resume : Resume)
  | finished

namespace Generator

def frame : Generator → Frame
  | suspended _ frame _ => frame
  | _ => Frame.start

def blockSize : Generator → Int
  | blockQuery _ blockSize | blockAggregate _ blockSize => atLeastOne blockSize
  | suspended blockSize _ _ => blockSize
  | finished => 0

/-- What runs at a `next()`. -/
def body (env : Env) : Generator → Py Unit
  | blockQuery a blockSize => Monary.blockQuery env a blockSize
  | blockAggregate a blockSize => Monary.blockAggregate env a blockSize
  | suspended blockSize _ .loop => finalized (load env (blockTurn blockSize))
  | suspended _ _ .stop => finalized (pure ())
  | finished => pure ()

/-- What runs at a `close()`: `GeneratorExit` is raised at the `yield`, and caught outside. -/
def exit : Generator → Py Unit
  | suspended .. => finalized (raise ⟨.generatorExit, "", []⟩)
  | _ => pure ()

/-- What has become of the generator. -/
def after (g : Generator) (r : Outcome PyExn (List MaskedArray × Resume) Fault Unit × State) : Generator :=
  match r.1 with
  | .yielded (_, resume) => suspended g.blockSize r.2.frame resume
  | _ => finished

/-- A run of the generator's code: the outcome, the generator and the state. -/
def run (g : Generator) (code : Py Unit) (s : State) :
    Outcome PyExn (List MaskedArray × Resume) Fault Unit × Generator × State :=
  let r := code { s with frame := g.frame }
  (r.1, g.after r, { r.2 with frame := s.frame })

/-- `next()`; a return stands for `StopIteration`. -/
def next (env : Env) (g : Generator) (s : State) :
    Outcome PyExn (List MaskedArray × Resume) Fault Unit × Generator × State := g.run (g.body env) s

/-- `close()`. -/
def close (g : Generator) (s : State) :
    Outcome PyExn (List MaskedArray × Resume) Fault Unit × Generator × State :=
  match g.run g.exit s with
  | (.raised ⟨.generatorExit, _, _⟩, g', s') => (.returned (), g', s')
  | r => r

end Generator

end Methods

end Monary
