namespace Columnar

inductive DType
  | float64
  | float32
  | int64
  | int32
  | bool
  | string
  | categorical
  | null
  deriving DecidableEq, Repr, Inhabited

namespace DType

def text : DType → String
  | float64 => "f64"
  | float32 => "f32"
  | int64 => "i64"
  | int32 => "i32"
  | bool => "bool"
  | string => "str"
  | categorical => "cat"
  | null => "null"

def all : List DType := [float64, float32, int64, int32, bool, string, categorical, null]

theorem mem_all (t : DType) : t ∈ all := by cases t <;> decide

def ofText? (s : String) : Option DType := all.find? (·.text == s)

def isFloat : DType → Bool
  | float64 | float32 => true
  | _ => false

def isInteger : DType → Bool
  | int64 | int32 => true
  | _ => false

def isNumeric (t : DType) : Bool := t.isFloat || t.isInteger

def isStringLike : DType → Bool
  | string | categorical => true
  | _ => false

def arithmetic? (s t : DType) : Option DType :=
  if s.isNumeric && t.isNumeric then
    if s = t then some s
    else if s.isInteger && t.isInteger then some int64
    else some float64
  else none

def common (s t : DType) : DType :=
  if s = t then s
  else match s, t with
    | null, t => t
    | s, null => s
    | bool, t => if t.isNumeric then t else string
    | s, bool => if s.isNumeric then s else string
    | s, t => (s.arithmetic? t).getD string

theorem common_self (t : DType) : t.common t = t := by simp [common]

theorem common_comm (s t : DType) : s.common t = t.common s := by cases s <;> cases t <;> rfl

end DType

end Columnar
