import Columnar.Frame.GroupBy

namespace Columnar.Frame

def distinct (host : Host) (f : Frame) (subset : Option (List String)) : Except Error Frame := do
  let names := subset.getD f.names
  if names.isEmpty then pure f
  else
    let keys ← names.mapM f.column
    f.take ((Grouping.ofKeys host keys).firstRows.map some)

def sortedTexts (ss : List String) : List String := (ss.mergeSort (· ≤ ·)).eraseReps

def pivotCells (rows combos : Grouping) (pivot cells : Column) : List (String × Nat × Option Float) :=
  combos.firstRows.toList.zipIdx.filterMap fun (first, combo) =>
    (pivot.value? first).map fun v =>
      (v.scalar.plain, rows.ids[first]?.getD 0, cells.float? combo)

/-- The column of one label; of several cells in one place the last counts. -/
def pivotColumn (height : Nat) (cells : List (String × Nat × Option Float)) (label : String) :
    Column :=
  ⟨label, .float64 (cells.foldl (fun a (l, row, x) => if l = label then a.setIfInBounds row x else a)
    (.replicate height none))⟩

/-- One row for each distinct tuple of the index columns, and one column of floats for each distinct text
of the pivot column; rows where that is null are left out. -/
def pivot (host : Host) (f : Frame) (index : List String) (columns values : String)
    (op : Aggregation) : Except Error Frame := do
  if index.isEmpty then throw .noPivotIndex
  let keys ← index.mapM f.column
  let pivot ← f.column columns
  let value ← f.column values
  let rows := Grouping.ofKeys host keys
  let combos := Grouping.ofKeys host (keys ++ [pivot])
  let cells := pivotCells rows combos pivot (← combos.aggregate host value op)
  let labels := sortedTexts (cells.map (·.1))
  ofColumns (keys.map (·.gather rows.firstRows) ++ labels.map (pivotColumn rows.size cells))

def meltedColumns (f : Frame) (ids values : List String) : List String :=
  if values.isEmpty then f.names.filter (!ids.contains ·) else values

/-- One row for each value of the melted columns, column after column, with the ids repeated. -/
def melt (f : Frame) (ids values : List String) (labelName valueName : String) : Except Error Frame := do
  let names := f.meltedColumns ids values
  let columns ← names.mapM f.column
  let target := if columns.all (·.dtype.isNumeric) then DType.float64 else .string
  let again : Gather := (names.flatMap fun _ => (List.range f.height).map some).toArray
  let idColumns ← ids.mapM fun name => (·.take again) <$> f.column name
  let labels := (names.flatMap fun name => List.replicate f.height (some name)).toArray
  let stacked := match columns.map (·.cast target) with
    | [] => Column.nulls valueName 0 .float64
    | c :: cs => (c.stackOnto cs).rename valueName
  ofColumns (idColumns ++ [⟨labelName, .string labels⟩, stacked])

end Columnar.Frame
