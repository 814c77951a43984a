import Columnar.Aggregation
import Columnar.Column.Comparison
import Columnar.Scalar

namespace Columnar

inductive BinaryOp
  | add
  | sub
  | mul
  | div
  | gt
  | lt
  | eq
  | neq
  | gtEq
  | ltEq
  | and
  | or
  deriving DecidableEq, Repr

namespace BinaryOp

def symbol : BinaryOp → String
  | add => "+"
  | sub => "-"
  | mul => "*"
  | div => "/"
  | gt => ">"
  | lt => "<"
  | eq => "=="
  | neq => "!="
  | gtEq => ">="
  | ltEq => "<="
  | and => "and"
  | or => "or"

inductive Family
  | arith (op : ArithOp)
  | compare (op : CmpOp)
  | conjunction
  | disjunction

def family : BinaryOp → Family
  | add => .arith .add
  | sub => .arith .sub
  | mul => .arith .mul
  | div => .arith .div
  | gt => .compare .gt
  | lt => .compare .lt
  | eq => .compare .eq
  | neq => .compare .neq
  | gtEq => .compare .gtEq
  | ltEq => .compare .ltEq
  | and => .conjunction
  | or => .disjunction

end BinaryOp

inductive Expr
  | column (name : String)
  | literal (v : Scalar)
  | named (e : Expr) (name : String)
  | binary (op : BinaryOp) (l r : Expr)
  | not (e : Expr)
  | aggregate (op : Aggregation) (e : Expr)
  | cast (e : Expr) (dtype : DType)
  | when (cond val : Expr)
  | whenElse (cond val other : Expr)
  | isNull (e : Expr)
  | isNotNull (e : Expr)
  | fillNull (e fill : Expr)
  | coalesce (inputs : List Expr)
  | structField (e : Expr) (field : String)
  | listGet (e : Expr) (index : Int64)
  deriving Inhabited

namespace Expr

/-- The name of the column that an expression gives: that of its leftmost part. -/
def outputName : Expr → String
  | column c => c
  | literal _ => "literal"
  | named _ name => name
  | structField _ field => field
  | binary _ e _ | not e | aggregate _ e | cast e _ | isNull e | isNotNull e | fillNull e _
  | listGet e _ | when _ e | whenElse _ e _ => e.outputName
  | coalesce [] => "literal"
  | coalesce (e :: _) => e.outputName

def children : Expr → List Expr
  | column _ | literal _ => []
  | named e _ | not e | aggregate _ e | cast e _ | isNull e | isNotNull e | structField e _
  | listGet e _ => [e]
  | binary _ l r => [l, r]
  | fillNull e fill => [e, fill]
  | when c v => [c, v]
  | whenElse c v o => [c, v, o]
  | coalesce inputs => inputs

def withChildren : Expr → List Expr → Expr
  | named _ name, [e] => named e name
  | not _, [e] => not e
  | aggregate op _, [e] => aggregate op e
  | cast _ t, [e] => cast e t
  | isNull _, [e] => isNull e
  | isNotNull _, [e] => isNotNull e
  | structField _ f, [e] => structField e f
  | listGet _ i, [e] => listGet e i
  | binary op _ _, [l, r] => binary op l r
  | fillNull _ _, [e, fill] => fillNull e fill
  | when _ _, [c, v] => when c v
  | whenElse _ _ _, [c, v, o] => whenElse c v o
  | coalesce _, es => coalesce es
  | e, _ => e

mutual

def nodes : Expr → List Expr
  | column c => [column c]
  | literal v => [literal v]
  | named e n => named e n :: e.nodes
  | binary op l r => binary op l r :: (l.nodes ++ r.nodes)
  | not e => not e :: e.nodes
  | aggregate op e => aggregate op e :: e.nodes
  | cast e t => cast e t :: e.nodes
  | when c v => when c v :: (c.nodes ++ v.nodes)
  | whenElse c v o => whenElse c v o :: (c.nodes ++ (v.nodes ++ o.nodes))
  | isNull e => isNull e :: e.nodes
  | isNotNull e => isNotNull e :: e.nodes
  | fillNull e fill => fillNull e fill :: (e.nodes ++ fill.nodes)
  | coalesce es => coalesce es :: nodesAll es
  | structField e f => structField e f :: e.nodes
  | listGet e i => listGet e i :: e.nodes

def nodesAll : List Expr → List Expr
  | [] => []
  | e :: es => e.nodes ++ nodesAll es

end

def column? : Expr → Option String
  | column c => some c
  | _ => none

def columns (e : Expr) : List String := (e.nodes.filterMap column?).eraseDups

def isAggregate : Expr → Bool
  | aggregate .. => true
  | _ => false

def containsAggregate (e : Expr) : Bool := e.nodes.any isAggregate

def isTrivial : Expr → Bool
  | column _ | literal _ => true
  | _ => false

mutual

def text : Expr → String
  | column c => "col(" ++ c ++ ")"
  | literal v => "lit(" ++ v.render ++ ")"
  | named e name => e.text ++ ".alias(" ++ name ++ ")"
  | binary op l r => "(" ++ l.text ++ " " ++ op.symbol ++ " " ++ r.text ++ ")"
  | not e => "not(" ++ e.text ++ ")"
  | aggregate op e => e.text ++ "." ++ op.text ++ "()"
  | cast e t => e.text ++ ".cast(" ++ t.text ++ ")"
  | when c v => "when(" ++ c.text ++ ").then(" ++ v.text ++ ")"
  | whenElse c v o => "when(" ++ c.text ++ ").then(" ++ v.text ++ ").otherwise(" ++ o.text ++ ")"
  | isNull e => e.text ++ ".is_null()"
  | isNotNull e => e.text ++ ".is_not_null()"
  | fillNull e fill => e.text ++ ".fill_null(" ++ fill.text ++ ")"
  | coalesce es => "coalesce(" ++ ", ".intercalate (texts es) ++ ")"
  | structField e field => e.text ++ ".field(" ++ Text.quoted field ++ ")"
  | listGet e i => e.text ++ ".list.get(" ++ toString i.toInt ++ ")"

def texts : List Expr → List String
  | [] => []
  | e :: es => e.text :: texts es

end

end Expr

end Columnar
