import Columnar.Expr
import Columnar.Json

namespace Columnar

namespace DType

def tag : DType → String
  | float64 => "Float64"
  | float32 => "Float32"
  | int64 => "Int64"
  | int32 => "Int32"
  | bool => "Bool"
  | string => "String"
  | categorical => "Categorical"
  | null => "Null"

def ofTag? (s : String) : Option DType := all.find? (·.tag == s)

end DType

namespace Aggregation

def tag : Aggregation → String
  | sum => "Sum"
  | mean => "Mean"
  | min => "Min"
  | max => "Max"
  | count => "Count"
  | first => "First"
  | last => "Last"
  | std => "Std"
  | var => "Var"
  | median => "Median"
  | distinct => "CountDistinct"

def ofTag? (s : String) : Option Aggregation := all.find? (·.tag == s)

end Aggregation

namespace BinaryOp

def all : List BinaryOp := [add, sub, mul, div, gt, lt, eq, neq, gtEq, ltEq, and, or]

def tag : BinaryOp → String
  | add => "Add"
  | sub => "Sub"
  | mul => "Mul"
  | div => "Div"
  | gt => "Gt"
  | lt => "Lt"
  | eq => "Eq"
  | neq => "NotEq"
  | gtEq => "GtEq"
  | ltEq => "LtEq"
  | and => "And"
  | or => "Or"

def ofTag? (s : String) : Option BinaryOp := all.find? (·.tag == s)

end BinaryOp

namespace Json

def name? : Json → Option String
  | text s => some s
  | object [(s, null)] => some s
  | _ => none

def text? : Json → Option String
  | text s => some s
  | _ => none

def int64? : Json → Option Int64
  | int i => if Int64.minValue.toInt ≤ i ∧ i ≤ Int64.maxValue.toInt then some (.ofInt i) else none
  | _ => none

def float? : Json → Option Float
  | int i => some (Double.ofInt i)
  | decimal x => some x
  | _ => none

def bool? : Json → Option Bool
  | bool b => some b
  | _ => none

end Json

namespace Scalar

/-- A float that is no finite number has no form of its own and becomes null. -/
def toJson : Scalar → Json
  | int i => .object [("Int64", .int i.toInt)]
  | float x => .object [("Float64", if Double.isFinite x then .decimal x else .null)]
  | text s => .object [("Utf8", .text s)]
  | bool b => .object [("Boolean", .bool b)]
  | null => .text "Null"

def ofJson? : Json → Option Scalar
  | .object [("Int64", v)] => v.int64?.map .int
  | .object [("Float64", v)] => v.float?.map .float
  | .object [("Utf8", v)] => v.text?.map .text
  | .object [("Boolean", v)] => v.bool?.map .bool
  | v => if v.name? = some "Null" then some null else none

end Scalar

namespace Expr

mutual

def toJson : Expr → Json
  | column c => .object [("Column", .text c)]
  | literal v => .object [("Literal", v.toJson)]
  | named e name => .object [("Alias", .object [("expr", e.toJson), ("name", .text name)])]
  | binary op l r =>
    .object [("Binary", .object [("left", l.toJson), ("op", .text op.tag), ("right", r.toJson)])]
  | not e => .object [("Not", e.toJson)]
  | aggregate op e => .object [("Agg", .object [("input", e.toJson), ("op", .text op.tag)])]
  | cast e t => .object [("Cast", .object [("expr", e.toJson), ("dtype", .text t.tag)])]
  | when c v =>
    .object [("When", .object [("cond", c.toJson), ("then", v.toJson), ("otherwise", .null)])]
  | whenElse c v o =>
    .object [("When", .object [("cond", c.toJson), ("then", v.toJson), ("otherwise", o.toJson)])]
  | isNull e => .object [("IsNull", e.toJson)]
  | isNotNull e => .object [("IsNotNull", e.toJson)]
  | fillNull e fill => .object [("FillNull", .object [("expr", e.toJson), ("value", fill.toJson)])]
  | coalesce es => .object [("Coalesce", .array (toJsonAll es))]
  | structField e f => .object [("StructField", .object [("expr", e.toJson), ("field", .text f)])]
  | listGet e i => .object [("ListGet", .object [("expr", e.toJson), ("index", .int i.toInt)])]

def toJsonAll : List Expr → List Json
  | [] => []
  | e :: es => e.toJson :: toJsonAll es

end

/-- A node from its kind and the JSON of its parts, `whole` being the expression in place of the parts,
`items` those of an array, and `part` the one under a name. -/
def ofParts? (kind : String) (body : Json) (whole : Unit → Option Expr)
    (items : Unit → Option (List Expr)) (part : String → Option Expr) : Option Expr :=
  match kind with
  | "Column" => body.text?.map column
  | "Literal" => (Scalar.ofJson? body).map literal
  | "Not" => (whole ()).map not
  | "IsNull" => (whole ()).map isNull
  | "IsNotNull" => (whole ()).map isNotNull
  | "Coalesce" => (items ()).map coalesce
  | "Alias" => do pure (named (← part "expr") (← (← body.field? "name").text?))
  | "Binary" => do
    let op ← (← (← body.field? "op").name?) |> BinaryOp.ofTag?
    pure (binary op (← part "left") (← part "right"))
  | "Agg" => do
    let op ← (← (← body.field? "op").name?) |> Aggregation.ofTag?
    pure (aggregate op (← part "input"))
  | "Cast" => do
    let t ← (← (← body.field? "dtype").name?) |> DType.ofTag?
    pure (cast (← part "expr") t)
  | "When" => do
    let c ← part "cond"
    let v ← part "then"
    match body.field? "otherwise" with
    | none | some .null => pure (when c v)
    | some _ => pure (whenElse c v (← part "otherwise"))
  | "FillNull" => do pure (fillNull (← part "expr") (← part "value"))
  | "StructField" => do pure (structField (← part "expr") (← (← body.field? "field").text?))
  | "ListGet" => do pure (listGet (← part "expr") (← (← body.field? "index").int64?))
  | _ => none

mutual

def ofJson? : Json → Option Expr
  | .object [(kind, body)] =>
    ofParts? kind body (fun _ => ofJson? body) (fun _ => items? body) (part? body)
  | _ => none

def items? : Json → Option (List Expr)
  | .array vs => ofJsonAll? vs
  | _ => none

def ofJsonAll? : List Json → Option (List Expr)
  | [] => some []
  | v :: vs => do pure ((← ofJson? v) :: (← ofJsonAll? vs))

def part? : Json → String → Option Expr
  | .object fields => lastPart? none fields
  | _ => fun _ => none

def lastPart? (found : Option Expr) : List (String × Json) → String → Option Expr
  | [], _ => found
  | (k, v) :: fs, name => lastPart? (if k = name then ofJson? v else found) fs name

end

end Expr

end Columnar
