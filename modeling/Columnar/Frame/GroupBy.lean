import Columnar.Frame
import Columnar.Grouping.Aggregate

namespace Columnar

structure Summary where
  column : Option String
  op : Aggregation
  name : String
  deriving DecidableEq

namespace Summary

def named (column : String) (op : Aggregation) : Summary :=
  ⟨some column, op, if op = .count then "count" else s!"{column}_{op.text}"⟩

def rows (name : String) : Summary := ⟨none, .count, name⟩

end Summary

namespace Frame

def keyColumns (f : Frame) (keys : List String) : Except Error (List Column) :=
  if keys.isEmpty then .error .noGroupKeys
  else keys.mapM fun k =>
    match f.column? k with
    | some c => .ok c
    | none => .error (.missingKey k)

def groups (host : Host) (f : Frame) (keys : List String) : Except Error Grouping :=
  .ofKeys host <$> f.keyColumns keys

def summaryInput (f : Frame) (s : Summary) : Except Error (Option Column) :=
  match s.column with
  | none => .ok none
  | some name =>
    match f.column? name with
    | some c => .ok (some c)
    | none => .error (.missingAggregand name)

def summarize (host : Host) (g : Grouping) (s : Summary) : Option Column → Except Error Column
  | some c => (·.rename s.name) <$> g.aggregate host c s.op
  | none => .ok (Grouping.countColumn s.name g.counts)

def groupBy (host : Host) (f : Frame) (keys : List String) (summaries : List Summary) :
    Except Error Frame := do
  let keyColumns ← f.keyColumns keys
  let inputs ← summaries.mapM fun s => (s, ·) <$> f.summaryInput s
  let g := Grouping.ofKeys host keyColumns
  let results ← host.pool.columns inputs.length f.height fun i =>
    match inputs[i]? with
    | some (s, input) => summarize host g s input
    | none => .ok (.nulls "" 0 .null)
  ofColumns (keyColumns.map (·.gather g.firstRows) ++ results)

end Frame

end Columnar
