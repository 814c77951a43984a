import Columnar.Plan

namespace Columnar.Plan

def read (f : Frame) : Plan := .scan (.memory f) none

def ofSource (s : Source) : Plan := .scan s none

def select (p : Plan) (exprs : List Expr) : Plan := .step (.project exprs) p

def filter (p : Plan) (e : Expr) : Plan := .step (.filter e) p

def withColumn (p : Plan) (e : Expr) : Plan := .step (.withColumn e) p

def joinWith (l r : Plan) (s : JoinSpec) : Plan := .join s l r

def joinOn (l r : Plan) (keys : List String) (kind : JoinKind) (suffix : String) : Plan :=
  .join ⟨kind, keys, keys, suffix⟩ l r

def crossJoin (l r : Plan) (suffix : String) : Plan := .join ⟨.cross, [], [], suffix⟩ l r

def sortBy (p : Plan) (keys : List String) (descending : List Bool) : Plan :=
  .step (.sort keys descending) p

def head (p : Plan) (n : Nat) : Plan := .step (.limit n) p

def tail (p : Plan) (n : Nat) : Plan := .step (.tail n) p

def distinct (p : Plan) (subset : Option (List String)) : Plan := .step (.distinct subset) p

def pivot (p : Plan) (index : List String) (columns values : String) (op : Aggregation) : Plan :=
  .step (.pivot index columns values op) p

def melt (p : Plan) (ids values : List String) : Plan :=
  .step (.melt ids values "variable" "value") p

def meltAs (p : Plan) (ids values : List String) (labelName valueName : String) : Plan :=
  .step (.melt ids values labelName valueName) p

def apply (p : Plan) (column : String) (f : ColumnFunction) : Plan := .step (.apply column f) p

def aggregate (p : Plan) (keys aggregates : List Expr) : Plan := .step (.groupBy keys aggregates) p

def aggregateColumns (p : Plan) (keys : List Expr) (op : Aggregation) (columns : List String) : Plan :=
  p.aggregate keys (columns.map fun c => .named (.aggregate op (.column c)) s!"{c}_{op.text}")

def countRows (p : Plan) (keys : List Expr) : Plan :=
  p.aggregate keys [.named (.aggregate .count (.literal (.int 1))) "count"]

end Columnar.Plan
