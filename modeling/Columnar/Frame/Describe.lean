import Columnar.Column.Reduction
import Columnar.Frame

namespace Columnar

namespace Column

def deviation (mean : Float) (xs : List Float) : Float :=
  if xs.length < 2 then Double.nan
  else
    let squares := xs.foldl (fun s x => s + (x - mean) * (x - mean)) Double.negativeZero
    (squares / Double.ofInt (xs.length - 1 : Nat)).sqrt

def describe (c : Column) : Except Error Column := do
  let xs := (← c.floats).toList.filterMap id
  let mean := (← c.mean).getD Double.nan
  let least := ((← c.min).float?).getD Double.nan
  let greatest := ((← c.max).float?).getD Double.nan
  let rows := #[Double.ofInt xs.length, Double.ofInt c.nullCount, mean, deviation mean xs, least,
    greatest]
  pure ⟨c.name, .float64 (rows.map some)⟩

end Column

namespace Frame

def statistics : List String := ["count", "null_count", "mean", "std", "min", "max"]

def describe (f : Frame) : Except Error Frame := do
  let columns ← (f.columns.filter (·.dtype.isNumeric)).mapM (·.describe)
  ofColumns (⟨"statistic", .string (statistics.map some).toArray⟩ :: columns)

end Frame

end Columnar
