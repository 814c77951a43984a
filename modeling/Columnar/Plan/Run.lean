import Columnar.Operator.Run
import Columnar.Plan

namespace Columnar

structure OperatorRecord where
  operator : String
  rowsIn : Nat
  rowsOut : Nat
  deriving DecidableEq

structure Trace where
  cached : List (Nat × Frame)
  /-- The numbers of the cached nodes whose inputs were executed with success, each as often as that happened. -/
  executed : Array Nat
  operators : Array OperatorRecord
  strategies : Array JoinStrategy
  calls : Array String

namespace Trace

def empty : Trace := ⟨[], #[], #[], #[], #[]⟩

def keep (t : Trace) (id : Nat) (f : Frame) : Trace :=
  { t with cached := (id, f) :: t.cached.filter (·.1 != id) }

end Trace

/-- A computation that leaves its traces even if it fails. -/
abbrev Run := ExceptT Error (StateM Trace)

namespace Run

def ofExcept (x : Except Error α) : Run α := ExceptT.mk (pure x)

def finish (operator : String) (rowsIn : Nat) (out : Except Error Frame) : Run Frame := do
  let f ← ofExcept out
  modify fun t => { t with operators := t.operators.push ⟨operator, rowsIn, f.height⟩ }
  pure f

def input (id : Nat) (x : Run Frame) : Run Frame := do
  let f ← x
  modify fun t => { t with executed := t.executed.push id }
  pure f

end Run

namespace Plan

def readScan (s : Source) (proj : Option (List String)) : Except Error Frame := do
  let f ← s.read proj
  match proj with
  | none => pure f
  | some names => f.select names

def calledFunction? (op : Operator) (f : Frame) : Option String :=
  match op with
  | .apply column g => (f.column? column).map fun _ => g.name
  | _ => none

/-- Children run before their node, the left one first, and the first failure ends it. -/
def run (host : Host) : Plan → Run Frame
  | scan s proj => do
    let f ← Run.ofExcept (readScan s proj)
    Run.finish "scan" f.height (.ok f)
  | step op p => do
    let f ← p.run host
    modify fun t => { t with calls := t.calls ++ (calledFunction? op f).toArray }
    Run.finish op.name f.height (op.run host f)
  | join s l r => do
    let f ← l.run host
    let g ← r.run host
    let (strategy, out) ← Run.ofExcept (Join.run host f g s)
    modify fun t => { t with strategies := t.strategies.push strategy }
    Run.finish "join" (f.height + g.height) (.ok out)
  | cache id p => do
    match (← get).cached.lookup id with
    | some f => Run.finish "cache" f.height (.ok f)
    | none => do
      let f ← Run.input id (p.run host)
      modify (·.keep id f)
      Run.finish "cache" f.height (.ok f)

def result (host : Host) (p : Plan) : Except Error Frame := ((p.run host).run .empty).1

end Plan

end Columnar
