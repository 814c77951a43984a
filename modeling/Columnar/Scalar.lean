import Columnar.DType
import Columnar.Number.Decimal
import Columnar.Text.Quoted

namespace Columnar

inductive Scalar
  | int (i : Int64)
  | float (x : Float)
  | text (s : String)
  | bool (b : Bool)
  | null
  deriving DecidableEq, Inhabited

namespace Scalar

def dtype : Scalar → DType
  | int _ => .int64
  | float _ => .float64
  | text _ => .string
  | bool _ => .bool
  | null => .null

/-- A float that is no number counts as null. -/
def isNull : Scalar → Bool
  | null => true
  | float x => Double.isMissing x
  | _ => false

def float? : Scalar → Option Float
  | int i => some (Double.ofInt i.toInt)
  | float x => if Double.isMissing x then none else some x
  | bool b => some (Double.ofBool b)
  | _ => none

def boolText (b : Bool) : String := if b then "true" else "false"

def plain : Scalar → String
  | int i => toString i.toInt
  | float x => Decimal.Layout.plain.write x
  | text s => s
  | bool b => boolText b
  | null => "null"

/-- The text of a value in an expression; it tells whole floats from integers and words from texts. -/
def render : Scalar → String
  | int i => toString i.toInt
  | float x => Decimal.Layout.canonical.write x
  | text s => Text.quoted s
  | bool b => boolText b
  | null => "null"

end Scalar

end Columnar
