import Columnar.Expr.Eval
import Columnar.Frame.Reshape
import Columnar.Operator

namespace Columnar.Operator

def keyName : Expr → Except Error String
  | .column c => .ok c
  | e => .error (.computedKey e.text)

def unnamed : Expr → Expr
  | .named e _ => unnamed e
  | e => e

structure GroupPlan where
  work : Frame
  summaries : List Summary

/-- An aggregation over anything but a column gets the column of its number to work on. -/
def addAggregate (input : Frame) (g : GroupPlan) (e : Expr) : Except Error GroupPlan :=
  match unnamed e with
  | .aggregate op (.column c) =>
    .ok { g with summaries := g.summaries ++ [⟨some c, op, e.outputName⟩] }
  | .aggregate op arg => do
    let hidden := s!"__agg_{g.summaries.length}"
    let work ← g.work.withColumn ((← arg.evaluate input).rename hidden)
    pure ⟨work, g.summaries ++ [⟨some hidden, op, e.outputName⟩]⟩
  | _ => .error (.plainAggregation e.text)

def runGroupBy (host : Host) (f : Frame) (keys aggregates : List Expr) : Except Error Frame := do
  let names ← keys.mapM keyName
  let g ← aggregates.foldlM (addAggregate f) ⟨f, []⟩
  g.work.groupBy host names g.summaries

def runProject (host : Host) (f : Frame) (exprs : List Expr) : Except Error Frame := do
  let columns ← host.pool.columns exprs.length f.height fun i =>
    match exprs[i]? with
    | some e => e.evaluate f
    | none => .ok (.nulls "" 0 .null)
  Frame.ofColumns columns

def runApply (f : Frame) (column : String) (g : ColumnFunction) : Except Error Frame := do
  let out ← g.apply (← f.column column)
  if out.height ≠ f.height then throw (.applyHeight g.name column out.height f.height)
  f.withColumn (out.rename column)

def run (host : Host) (f : Frame) : Operator → Except Error Frame
  | project es => runProject host f es
  | filter e => do f.filter (← e.evaluateMask f)
  | withColumn e => do f.withColumn (← e.evaluate f)
  | groupBy keys aggs => runGroupBy host f keys aggs
  | sort keys descending => f.sortBy keys descending
  | limit n => .ok (f.head n)
  | tail n => .ok (f.tail n)
  | distinct subset => f.distinct host subset
  | pivot index columns values op => f.pivot host index columns values op
  | melt ids values labelName valueName => f.melt ids values labelName valueName
  | apply column g => runApply f column g

end Columnar.Operator
