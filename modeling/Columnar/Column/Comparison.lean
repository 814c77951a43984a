import Columnar.Column.Arithmetic

namespace Columnar

inductive CmpOp
  | eq
  | neq
  | lt
  | ltEq
  | gt
  | gtEq
  deriving DecidableEq, Repr

namespace CmpOp

def holds : CmpOp → Ordering → Bool
  | eq, o => o == .eq
  | neq, o => o != .eq
  | lt, o => o == .lt
  | ltEq, o => o != .gt
  | gt, o => o == .gt
  | gtEq, o => o != .lt

def target (l r : DType) : Except Error DType :=
  if l = .null ∨ r = .null then .ok .null
  else if l = r ∧ l ≠ .categorical then .ok l
  else if l.isNumeric ∧ r.isNumeric then .ok .float64
  else if l.isStringLike ∧ r.isStringLike then .ok .string
  else .error (.incomparable l r)

end CmpOp

namespace Column

def compareValues (op : CmpOp) : Option Value → Option Value → Option Bool
  | some x, some y => some (op.holds (x.order y))
  | _, _ => none

def compare (l : Column) (op : CmpOp) (r : Column) : Except Error Mask := do
  checkHeights l r
  let t ← CmpOp.target l.dtype r.dtype
  if t = .null then pure (.replicate l.height none)
  else
    let (a, b) := (l.cast t, r.cast t)
    pure (.ofFn fun i : Fin l.height => compareValues op (a.value? i) (b.value? i))

def compareScalar (l : Column) (op : CmpOp) (v : Scalar) : Except Error Mask := do
  let t ← CmpOp.target l.dtype v.dtype
  if t = .null ∨ v.isNull then pure (.replicate l.height none)
  else
    let a := l.cast t
    let y := ((full "" 1 v).cast t).value? 0
    pure (.ofFn fun i : Fin l.height => compareValues op (a.value? i) y)

end Column

end Columnar
