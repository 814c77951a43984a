import Columnar.Column

namespace Columnar

inductive ArithOp
  | add
  | sub
  | mul
  | div
  deriving DecidableEq, Repr

namespace ArithOp

def apply [Add α] [Sub α] [Mul α] [Div α] : ArithOp → α → α → α
  | add, x, y => x + y
  | sub, x, y => x - y
  | mul, x, y => x * y
  | div, x, y => x / y

def operandType : DType → DType → DType
  | .null, .null => .float64
  | .null, t => t
  | t, _ => t

def target (op : ArithOp) (l r : DType) : Except Error DType :=
  let (l, r) := (operandType l r, operandType r l)
  match l.arithmetic? r with
  | none => .error (.nonNumericOperands l r)
  | some t => .ok (if op = div then .float64 else t)

end ArithOp

namespace Column

def both (f : α → α → α) (x y : Option α) : Option α :=
  match x, y with
  | some x, some y => some (f x y)
  | _, _ => none

/-- Combines two columns of one numeric type; `pair` says which rows meet. -/
def combine (op : ArithOp) (l r : Cells)
    (pair : {α : Type} → (Option α → Option α → Option α) →
      Array (Option α) → Array (Option α) → Array (Option α)) : Cells :=
  match l, r with
  | .float64 a, .float64 b => .float64 (pair (both op.apply) a b)
  | .float32 a, .float32 b => .float32 (pair (both op.apply) a b)
  | .int64 a, .int64 b => .int64 (pair (both op.apply) a b)
  | .int32 a, .int32 b => .int32 (pair (both op.apply) a b)
  | l, _ => l

def checkHeights (l r : Column) : Except Error Unit :=
  if l.height = r.height then .ok ()
  else .error (.lengthMismatch l.name l.height r.name r.height)

def arith (l : Column) (op : ArithOp) (r : Column) : Except Error Column := do
  checkHeights l r
  let t ← op.target l.dtype r.dtype
  if l.dtype = .null ∨ r.dtype = .null then pure (nulls l.name l.height t)
  else
    pure { l with cells := combine op (l.cast t).cells (r.cast t).cells fun f a b => a.zipWith f b }

def arithScalar (l : Column) (op : ArithOp) (v : Scalar) : Except Error Column := do
  let t ← op.target l.dtype v.dtype
  if l.dtype = .null ∨ v.isNull then pure (nulls l.name l.height t)
  else
    let r := (full "" 1 v).cast t
    pure { l with cells := combine op (l.cast t).cells r.cells fun f a b => a.map (f · b[0]?.join) }

end Column

end Columnar
