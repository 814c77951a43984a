import Columnar.Column

namespace Columnar.Column

def values (c : Column) : List Value := (List.range c.height).filterMap c.value?

/-- Whole numbers and truth values add up with wrap-around, floats from a negative zero. -/
def sum (c : Column) : Except Error Scalar :=
  match c.dtype with
  | .int64 | .int32 | .bool => .ok (.int ((c.values.filterMap (·.int?)).foldl (· + ·) 0))
  | .float64 | .float32 =>
    .ok (.float ((c.values.filterMap (·.float?)).foldl (· + ·) Double.negativeZero))
  | .null => .ok .null
  | .string | .categorical => .error (.noReduction "sum" c.name c.dtype)

/-- The first value that no other precedes in the wanted direction. -/
def extreme? (wanted : Ordering) (vs : List Value) : Option Value :=
  vs.foldl (fun best v =>
    match best with
    | some b => if v.order b = wanted then some v else some b
    | none => some v) none

def extreme (c : Column) (wanted : Ordering) (name : String) : Except Error Scalar :=
  if c.dtype = .bool then .error (.noReduction name c.name c.dtype)
  else .ok (((extreme? wanted c.values).map (·.scalar)).getD .null)

def min (c : Column) : Except Error Scalar := c.extreme .lt "min"

def max (c : Column) : Except Error Scalar := c.extreme .gt "max"

def meanOf (xs : List Float) : Option Float :=
  if xs.isEmpty then none else some (xs.foldl (· + ·) Double.zero / Double.ofInt xs.length)

def mean (c : Column) : Except Error (Option Float) :=
  (fun rows => meanOf (rows.toList.filterMap id)) <$> c.floats

end Columnar.Column
