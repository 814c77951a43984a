import Columnar.Scalar
import Columnar.Text.Blank

namespace Columnar

inductive Value
  | float64 (x : Float)
  | float32 (x : Float32)
  | int64 (i : Int64)
  | int32 (i : Int32)
  | bool (b : Bool)
  | string (s : String)
  /-- An entry of a dictionary, by its place and by its text. -/
  | category (code : Nat) (label : String)
  deriving DecidableEq

namespace Value

def dtype : Value → DType
  | float64 _ => .float64
  | float32 _ => .float32
  | int64 _ => .int64
  | int32 _ => .int32
  | bool _ => .bool
  | string _ => .string
  | category .. => .categorical

def isMissing : Value → Bool
  | float64 x => Double.isMissing x
  | float32 x => Double.isMissing (Single.widen x)
  | _ => false

def scalar : Value → Scalar
  | float64 x => .float x
  | float32 x => .float (Single.widen x)
  | int64 i => .int i
  | int32 i => .int i.toInt64
  | bool b => .bool b
  | string s => .text s
  | category _ s => .text s

def float? : Value → Option Float
  | float64 x => if Double.isMissing x then none else some x
  | float32 x => if Double.isMissing (Single.widen x) then none else some (Single.widen x)
  | int64 i => some (Double.ofInt i.toInt)
  | int32 i => some (Double.ofInt i.toInt)
  | bool b => some (Double.ofBool b)
  | _ => none

def int? : Value → Option Int64
  | int64 i => some i
  | int32 i => some i.toInt64
  | bool b => some (if b then 1 else 0)
  | _ => none

def text? : Value → Option String
  | string s => some s
  | category _ s => some s
  | _ => none

def agreeFloat (x y : Option Float) : Bool :=
  match x, y with
  | some x, some y => Double.agree x y
  | none, none => true
  | _, _ => false

/-- Equality of two values that are not missing: texts by their characters, numbers across widths by
value, and nothing else across types. -/
def same : Value → Value → Bool
  | int64 a, int64 b => a == b
  | int32 a, int32 b => a == b
  | float64 a, float64 b => Double.agree a b
  | bool a, bool b => a == b
  | string a, string b => a == b
  | a, b =>
    if a.dtype.isStringLike && b.dtype.isStringLike then a.text? == b.text?
    else if a.dtype.isInteger && b.dtype.isInteger then a.int? == b.int?
    else if a.dtype.isNumeric && b.dtype.isNumeric then agreeFloat a.float? b.float?
    else false

def orderText (a b : String) : Ordering := compareOfLessAndEq a b

def orderBool : Bool → Bool → Ordering
  | false, true => .lt
  | true, false => .gt
  | _, _ => .eq

/-- Order of two values that are not missing; values without a common reading are not told apart. -/
def order : Value → Value → Ordering
  | int64 a, int64 b => compare a b
  | int32 a, int32 b => compare a b
  | float64 a, float64 b => Double.order a b
  | bool a, bool b => orderBool a b
  | string a, string b => orderText a b
  | a, b =>
    match a.text?, b.text? with
    | some s, some t => orderText s t
    | _, _ =>
      if a.dtype.isInteger && b.dtype.isInteger then compare (a.int?.getD 0) (b.int?.getD 0)
      else
        match a.float?, b.float? with
        | some x, some y => Double.order x y
        | _, _ => .eq

/-- The number that a conversion starts from; text is read after trimming. -/
def number? (v : Value) : Option Float :=
  match v.text? with
  | some s => Decimal.read? (Text.trim s)
  | none => v.float?

def truth? (v : Value) : Option Bool :=
  match v.text? with
  | some s =>
    let s := Text.trim s
    if s = "true" then some true else if s = "false" then some false else none
  | none => v.float?.map fun x => !Double.isZero x

def plain? (v : Value) : Option String := if v.isMissing then none else some v.scalar.plain

def toInt64 (x : Float) : Int64 := .ofInt (Double.truncate Int64.minValue.toInt Int64.maxValue.toInt x)

def toInt32 (x : Float) : Int32 := .ofInt (Double.truncate Int32.minValue.toInt Int32.maxValue.toInt x)

end Value

end Columnar
