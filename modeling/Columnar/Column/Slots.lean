import Columnar.Column.Order

/-!
What stands in the rows of a column beneath their null marks. A null row of a plain type still has a
value in its place: a zero if it was null from the start, the first row of the source if it was gathered
from nowhere. Only the order of slots looks at it.
-/

namespace Columnar

/-- What stands in every row of a column of a plain type, null or not; doubles by their bits. -/
inductive Slots
  | float64 (rows : Array UInt64)
  | int64 (rows : Array Int64)
  | int32 (rows : Array Int32)
  | bool (rows : Array Bool)
  | string (rows : Array String)
  /-- Columns of the other types show nothing beneath a null. -/
  | hidden

namespace Slots

def ofCells : Cells → Slots
  | .float64 rows => float64 (rows.map fun x => (x.getD Double.zero).toBits)
  | .int64 rows => int64 (rows.map (·.getD 0))
  | .int32 rows => int32 (rows.map (·.getD 0))
  | .bool rows => bool (rows.map (·.getD false))
  | .string rows => string (rows.map (·.getD ""))
  | _ => hidden

/-- Applies to slots of any type what moves rows about; it is told what a row from nowhere holds. -/
def rearrange (s : Slots) (move : {α : Type} → α → Array α → Array α) : Slots :=
  match s with
  | float64 rows => float64 (move (rows[0]?.getD 0) rows)
  | int64 rows => int64 (move (rows[0]?.getD 0) rows)
  | int32 rows => int32 (move (rows[0]?.getD 0) rows)
  | bool rows => bool (move false rows)
  | string rows => string (move "" rows)
  | hidden => hidden

def order? (s : Slots) (i : Nat) (t : Slots) (j : Nat) : Option Ordering :=
  match s, t with
  | float64 a, float64 b => meet (fun x y => compare (Double.patternKey x) (Double.patternKey y)) a b
  | int64 a, int64 b => meet compare a b
  | int32 a, int32 b => meet compare a b
  | bool a, bool b => meet Value.orderBool a b
  | string a, string b => meet Value.orderText a b
  | _, _ => none
where
  meet {α : Type} (f : α → α → Ordering) (a b : Array α) : Option Ordering := do f (← a[i]?) (← b[j]?)

end Slots

structure Slotted where
  column : Column
  slots : Slots

namespace Slotted

def ofColumn (c : Column) : Slotted := ⟨c, .ofCells c.cells⟩

def ofPatterns (name : String) (rows : Array (Option UInt64)) : Slotted :=
  ⟨⟨name, .float64 (rows.map (·.map .ofBits))⟩, .float64 (rows.map (·.getD 0))⟩

def rename (s : Slotted) (name : String) : Slotted := { s with column := s.column.rename name }

def slice (s : Slotted) (offset n : Nat) : Slotted :=
  ⟨s.column.slice offset n, s.slots.rearrange fun _ rows => rows.extract offset (offset + n)⟩

def take (s : Slotted) (g : Gather) : Slotted :=
  ⟨s.column.take g, s.slots.rearrange fun blank rows => g.map fun i => (i.bind (rows[·]?)).getD blank⟩

def filter (s : Slotted) (m : Mask) : Except Error Slotted :=
  (s.column.filter m).map fun c => ⟨c, s.slots.rearrange fun _ => m.keep⟩

/-- A conversion fills the slots anew; a missing value that is read from text keeps its sign. -/
def cast (s : Slotted) (t : DType) : Slotted :=
  if s.column.dtype = t then s
  else if s.column.dtype.isStringLike ∧ t = .float64 then
    .ofPatterns s.column.name (s.column.rows fun v => v.text?.bind (Decimal.pattern? <| Text.trim ·))
  else .ofColumn (s.column.cast t)

/-- Fills the slots anew when one of them is no number, and leaves them alone otherwise. -/
def nanAsNull (s : Slotted) : Slotted :=
  let c := s.column.nanAsNull
  match s.slots with
  | .float64 rows => if rows.any (Double.isMissing ∘ .ofBits) then .ofColumn c else ⟨c, s.slots⟩
  | slots => ⟨c, slots⟩

/-- The order of two rows without regard to nulls: of slots of one type by what stands in them, and
otherwise by what the rows can be read as. -/
def order (a : Slotted) (i : Nat) (b : Slotted) (j : Nat) : Ordering :=
  (a.slots.order? i b.slots j).getD (a.column.orderReadings i b.column j)

end Slotted

end Columnar
