import Columnar.Column.Sorting
import Columnar.Column.Stack

namespace Columnar

structure Frame where
  columns : List Column
  height : Nat

namespace Frame

/-- The greatest height, so that the rows of two frames together still have numbers of 32 bits. -/
def maxRows : Nat := 2147483647

theorem lt_size_of_le_maxRows {n k : Nat} (short : n ≤ maxRows) (le : k ≤ n) : k < UInt32.size :=
  Nat.lt_of_le_of_lt (Nat.le_trans le short) (by decide)

def empty : Frame := ⟨[], 0⟩

def checkColumns (height : Nat) (seen : List String) : List Column → Except Error Unit
  | [] => .ok ()
  | c :: cs =>
    if c.name ∈ seen then .error (.duplicateColumn c.name)
    else if c.height ≠ height then .error (.unevenColumn c.name c.height height)
    else checkColumns height (c.name :: seen) cs

def ofColumns (columns : List Column) : Except Error Frame := do
  let height := Column.heightOf columns
  if maxRows < height then throw (.rowLimit height maxRows)
  checkColumns height [] columns
  pure ⟨columns, height⟩

def ofColumnsAt (height : Nat) (columns : List Column) : Except Error Frame :=
  (fun f => { f with height }) <$> ofColumns columns

def width (f : Frame) : Nat := f.columns.length

def names (f : Frame) : List String := f.columns.map (·.name)

def schema (f : Frame) : List (String × DType) := f.columns.map fun c => (c.name, c.dtype)

def column? (f : Frame) (name : String) : Option Column := f.columns.find? (·.name == name)

def column (f : Frame) (name : String) : Except Error Column :=
  match f.column? name with
  | some c => .ok c
  | none => .error (.missingColumn name)

/-- The named columns; a choice of none keeps the height. -/
def select (f : Frame) (names : List String) : Except Error Frame := do
  let columns ← names.mapM f.column
  if columns.isEmpty then ofColumnsAt f.height columns else ofColumns columns

def setColumn (c : Column) : List Column → List Column
  | [] => [c]
  | d :: ds => if d.name = c.name then c :: ds else d :: setColumn c ds

def withColumn (f : Frame) (c : Column) : Except Error Frame :=
  if !f.columns.isEmpty && c.height ≠ f.height then
    .error (.columnHeight c.name c.height f.height)
  else ofColumns (setColumn c f.columns)

def vstack (f g : Frame) : Except Error Frame :=
  if f.names ≠ g.names then .error (.stackMismatch f.names g.names)
  else ofColumnsAt (f.height + g.height) (f.columns.zipWith (Column.stackOnto · [·]) g.columns)

def filter (f : Frame) (m : Mask) : Except Error Frame := do
  if m.size ≠ f.height then throw (.maskHeight m.size f.height)
  ofColumnsAt m.count (← f.columns.mapM (·.filter m))

def take (f : Frame) (g : Gather) : Except Error Frame :=
  ofColumnsAt g.size (f.columns.map (·.take g))

def slice (f : Frame) (offset n : Nat) : Frame :=
  let first := min offset f.height
  let count := min n (f.height - first)
  ⟨f.columns.map (·.slice first count), count⟩

def head (f : Frame) (n : Nat) : Frame := f.slice 0 n

def tail (f : Frame) (n : Nat) : Frame :=
  let n := min n f.height
  f.slice (f.height - n) n

def sortBy (f : Frame) (names : List String) (descending : List Bool) : Except Error Frame := do
  if names.length ≠ descending.length then throw (.sortDirections names.length descending.length)
  let keys ← names.mapM f.column
  let order := argsort (Column.heightOf keys) (keys.zipWith SortKey.mk descending)
  f.take (order.map some).toArray

def row (f : Frame) (i : Nat) : List Scalar := f.columns.map (·.scalar i)

def sameColumns : List Column → List Column → Bool
  | [], [] => true
  | c :: cs, d :: ds => c.same d && sameColumns cs ds
  | _, _ => false

def same (f g : Frame) : Bool := sameColumns f.columns g.columns && f.height == g.height

end Frame

end Columnar
