import Columnar.Column.Dictionary
import Columnar.Error
import Columnar.Value

namespace Columnar

inductive Cells
  | float64 (rows : Array (Option Float))
  | float32 (rows : Array (Option Float32))
  | int64 (rows : Array (Option Int64))
  | int32 (rows : Array (Option Int32))
  | bool (rows : Array (Option Bool))
  | string (rows : Array (Option String))
  | categorical (rows : Dictionary)
  | null (height : Nat)

structure Column where
  name : String
  cells : Cells

abbrev Mask := Array (Option Bool)

/-- The rows to gather; an absent one stands for a row of nulls. -/
abbrev Gather := Array (Option Nat)

namespace Mask

def holds (m : Mask) (i : Nat) : Bool := m[i]?.join == some true

def count (m : Mask) : Nat := m.countP (· == some true)

def keep (m : Mask) (rows : Array α) : Array α :=
  (rows.zip m).filterMap fun (row, b) => if b = some true then some row else none

end Mask

def Gather.pick (g : Gather) (rows : Array (Option α)) : Array (Option α) :=
  g.map (·.bind (rows[·]?.join))

namespace Cells

def height : Cells → Nat
  | float64 rows => rows.size
  | float32 rows => rows.size
  | int64 rows => rows.size
  | int32 rows => rows.size
  | bool rows => rows.size
  | string rows => rows.size
  | categorical d => d.codes.size
  | null n => n

def dtype : Cells → DType
  | float64 _ => .float64
  | float32 _ => .float32
  | int64 _ => .int64
  | int32 _ => .int32
  | bool _ => .bool
  | string _ => .string
  | categorical _ => .categorical
  | null _ => .null

def held? (c : Cells) (i : Nat) : Option Value :=
  match c with
  | float64 rows => rows[i]?.join.map .float64
  | float32 rows => rows[i]?.join.map .float32
  | int64 rows => rows[i]?.join.map .int64
  | int32 rows => rows[i]?.join.map .int32
  | bool rows => rows[i]?.join.map .bool
  | string rows => rows[i]?.join.map .string
  | categorical d => d.codes[i]?.join.map fun n => .category n.val (d.label n)
  | null _ => none

/-- Applies to the rows of any type what moves rows about without looking at them; `n` is the height of
the outcome. -/
def rearrange (c : Cells) (n : Nat) (move : {α : Type} → Array (Option α) → Array (Option α)) :
    Cells :=
  match c with
  | float64 rows => float64 (move rows)
  | float32 rows => float32 (move rows)
  | int64 rows => int64 (move rows)
  | int32 rows => int32 (move rows)
  | bool rows => bool (move rows)
  | string rows => string (move rows)
  | categorical d => categorical ⟨d.labels, move d.codes⟩
  | null _ => null n

end Cells

namespace Column

def height (c : Column) : Nat := c.cells.height

def heightOf (columns : List Column) : Nat := (columns.head?.map (·.height)).getD 0

def dtype (c : Column) : DType := c.cells.dtype

def rename (c : Column) (name : String) : Column := { c with name }

def held? (c : Column) (i : Nat) : Option Value := c.cells.held? i

def value? (c : Column) (i : Nat) : Option Value := (c.held? i).filter (!·.isMissing)

def isNull (c : Column) (i : Nat) : Bool := (c.value? i).isNone

def nullCount (c : Column) : Nat :=
  match c.cells with
  | .null n => n
  | _ => (List.range c.height).countP c.isNull

def scalar (c : Column) (i : Nat) : Scalar := ((c.held? i).map (·.scalar)).getD .null

def text? (c : Column) (i : Nat) : Option String := (c.held? i).bind (·.text?)

def float? (c : Column) (i : Nat) : Option Float := (c.held? i).bind (·.float?)

def int? (c : Column) (i : Nat) : Option Int64 := (c.value? i).bind (·.int?)

def floats (c : Column) : Except Error (Array (Option Float)) :=
  if c.dtype.isStringLike then .error (.notNumeric c.name c.dtype)
  else .ok (.ofFn fun i : Fin c.height => c.float? i)

def plainTexts (c : Column) : Array (Option String) :=
  .ofFn fun i : Fin c.height => (c.held? i).bind (·.plain?)

def rows (f : Value → Option α) (c : Column) : Array (Option α) :=
  .ofFn fun i : Fin c.height => (c.held? i).bind f

def nulls (name : String) (n : Nat) : DType → Column
  | .float64 => ⟨name, .float64 (.replicate n none)⟩
  | .float32 => ⟨name, .float32 (.replicate n none)⟩
  | .int64 => ⟨name, .int64 (.replicate n none)⟩
  | .int32 => ⟨name, .int32 (.replicate n none)⟩
  | .bool => ⟨name, .bool (.replicate n none)⟩
  | .string => ⟨name, .string (.replicate n none)⟩
  | .categorical => ⟨name, .categorical (.nulls n)⟩
  | .null => ⟨name, .null n⟩

def full (name : String) (n : Nat) : Scalar → Column
  | .int i => ⟨name, .int64 (.replicate n (some i))⟩
  | .float x => ⟨name, .float64 (.replicate n (some x))⟩
  | .bool b => ⟨name, .bool (.replicate n (some b))⟩
  | .text s => ⟨name, .string (.replicate n (some s))⟩
  | .null => ⟨name, .null n⟩

def ofTexts (name : String) (rows : Array (Option String)) : Column :=
  ⟨name, .categorical (.encode rows)⟩

def ofMask (name : String) (m : Mask) : Column := ⟨name, .bool m⟩

def nanAsNull (c : Column) : Column :=
  match c.cells with
  | .float64 rows => { c with cells := .float64 (rows.map (·.filter fun x => !Double.isMissing x)) }
  | .float32 rows =>
    { c with cells := .float32 (rows.map (·.filter fun x => !Double.isMissing (Single.widen x))) }
  | _ => c

def slice (c : Column) (offset n : Nat) : Column :=
  let first := min offset c.height
  let count := min n (c.height - first)
  { c with cells := c.cells.rearrange count (·.extract first (first + count)) }

def take (c : Column) (g : Gather) : Column :=
  { c with cells := c.cells.rearrange g.size g.pick }

def gather (c : Column) (rows : Array Nat) : Column := c.take (rows.map some)

/-- Keeps the rows at which the mask holds; when there are none, no dictionary is kept either. -/
def filter (c : Column) (m : Mask) : Except Error Column :=
  if m.size ≠ c.height then .error (.maskLength m.size c.name c.height)
  else if m.count = 0 then .ok (nulls c.name 0 c.dtype)
  else .ok { c with cells := c.cells.rearrange m.count m.keep }

/-- Conversion by way of a number, or of the plain text for the two types of strings. -/
def cast (c : Column) (t : DType) : Column :=
  if c.dtype = t then c
  else
    { c with cells := match t with
      | .float64 => .float64 (c.rows (·.number?))
      | .float32 => .float32 (c.rows fun v => v.number?.map Single.narrow)
      | .int64 => .int64 (c.rows fun v => v.number?.map Value.toInt64)
      | .int32 => .int32 (c.rows fun v => v.number?.map Value.toInt32)
      | .bool => .bool (c.rows (·.truth?))
      | .string => .string c.plainTexts
      | .categorical => .categorical (.encode c.plainTexts)
      | .null => .null c.height }

end Column

end Columnar
