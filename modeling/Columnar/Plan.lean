import Columnar.Join
import Columnar.Operator

namespace Columnar

inductive Plan
  | scan (source : Source) (projection : Option (List String))
  | step (op : Operator) (input : Plan)
  | join (spec : JoinSpec) (left right : Plan)
  | cache (id : Nat) (input : Plan)

namespace Plan

def name : Plan → String
  | scan .. => "scan"
  | step op _ => op.name
  | join .. => "join"
  | cache .. => "cache"

def children : Plan → List Plan
  | scan .. => []
  | step _ p | cache _ p => [p]
  | join _ l r => [l, r]

def mapNodesM [Monad m] (f : Plan → m Plan) : Plan → m Plan
  | scan s proj => f (scan s proj)
  | step op p => do f (step op (← p.mapNodesM f))
  | join s l r => do
    let l ← l.mapNodesM f
    let r ← r.mapNodesM f
    f (join s l r)
  | cache id p => do f (cache id (← p.mapNodesM f))

def columns? : Plan → Option (List String)
  | scan s proj => proj <|> s.names?
  | step op p => op.columns? p.columns?
  | join s l r => do
    let left ← l.columns?
    let right ← r.columns?
    pure ((s.layout left right).map (·.name))
  | cache _ p => p.columns?

def countText (n : Option Nat) : String := (n.map toString).getD "?"

def scanText (s : Source) (proj : Option (List String)) : String :=
  s!"Scan {s.name} [{countText s.rows?} rows x {countText s.width?} cols]" ++
    (proj.map fun names => " projection=" ++ Operator.listText names).getD ""

def joinText (s : JoinSpec) : String :=
  s!"Join type={s.kind.text} left_on={Operator.listText s.leftOn} " ++
    s!"right_on={Operator.listText s.rightOn} suffix={s.suffix}"

def line (indent : Nat) (text : String) : String :=
  .ofList (.replicate (2 * indent) ' ') ++ text ++ "\n"

def explain (indent : Nat) : Plan → String
  | scan s proj => line indent (scanText s proj)
  | step op p => line indent op.text ++ p.explain (indent + 1)
  | join s l r =>
    line indent (joinText s) ++ line (indent + 1) "left:" ++ l.explain (indent + 2) ++
      line (indent + 1) "right:" ++ r.explain (indent + 2)
  | cache id p => line indent s!"Cache id={id}" ++ p.explain (indent + 1)

end Plan

end Columnar
