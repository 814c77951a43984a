import Columnar.Expr
import Columnar.Source

namespace Columnar

inductive Operator
  | project (exprs : List Expr)
  | filter (predicate : Expr)
  | withColumn (e : Expr)
  | groupBy (keys aggregates : List Expr)
  | sort (keys : List String) (descending : List Bool)
  | limit (n : Nat)
  | tail (n : Nat)
  | distinct (subset : Option (List String))
  | pivot (index : List String) (columns values : String) (op : Aggregation)
  /-- Without value columns all that are no ids are melted. -/
  | melt (ids values : List String) (labelName valueName : String)
  | apply (column : String) (f : ColumnFunction)

namespace Operator

def name : Operator → String
  | project _ => "projection"
  | filter _ => "filter"
  | withColumn _ => "with_column"
  | groupBy .. => "group_by"
  | sort .. => "sort"
  | limit _ => "limit"
  | tail _ => "tail"
  | distinct _ => "distinct"
  | pivot .. => "pivot"
  | melt .. => "melt"
  | apply .. => "apply"

def columns? (input : Option (List String)) : Operator → Option (List String)
  | project es => some (es.map (·.outputName))
  | withColumn e => input.map fun names =>
    if names.contains e.outputName then names else names ++ [e.outputName]
  | groupBy keys aggs => some ((keys ++ aggs).map (·.outputName))
  | pivot .. => none
  | melt ids _ labelName valueName => some (ids ++ [labelName, valueName])
  | filter _ | sort .. | limit _ | tail _ | distinct _ | apply .. => input

def listText (items : List String) : String := "[" ++ ", ".intercalate items ++ "]"

def exprsText (es : List Expr) : String := listText (Expr.texts es)

def sortText (keys : List String) (descending : List Bool) : String :=
  listText (keys.zipWith (fun c d => if d then c ++ " desc" else c) descending)

def text : Operator → String
  | project es => "Projection " ++ exprsText es
  | filter e => "Filter " ++ e.text
  | withColumn e => "WithColumn " ++ e.outputName ++ " := " ++ e.text
  | groupBy keys aggs => "GroupBy keys=" ++ exprsText keys ++ " aggs=" ++ exprsText aggs
  | sort keys descending => "Sort by=" ++ sortText keys descending
  | limit n => s!"Limit n={n}"
  | tail n => s!"Tail n={n}"
  | distinct none => "Distinct"
  | distinct (some names) => "Distinct subset=" ++ listText names
  | pivot index columns values op =>
    s!"Pivot index={listText index} columns={columns} values={values} agg={op.text}"
  | melt ids values labelName valueName =>
    let melted := if values.isEmpty then "*" else listText values
    s!"Melt id_vars={listText ids} value_vars={melted} -> ({labelName}, {valueName})"
  | apply column f => s!"Apply {f.name}({column})"

end Operator

end Columnar
