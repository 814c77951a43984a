import Columnar.Column
import Columnar.Error

namespace Columnar.Cells

def append : Cells → Cells → Cells
  | float64 a, float64 b => float64 (a ++ b)
  | float32 a, float32 b => float32 (a ++ b)
  | int64 a, int64 b => int64 (a ++ b)
  | int32 a, int32 b => int32 (a ++ b)
  | bool a, bool b => bool (a ++ b)
  | string a, string b => string (a ++ b)
  | null m, null n => null (m + n)
  | a, _ => a

end Columnar.Cells

namespace Columnar.Column

def commonType (first : Column) (rest : List Column) : DType :=
  rest.foldl (fun t c => t.common c.dtype) first.dtype

def texts (c : Column) : Array (Option String) := .ofFn fun i : Fin c.height => c.text? i

/-- Stacks at least one column; dictionaries are merged by encoding all texts anew. -/
def stackOnto (first : Column) (rest : List Column) : Column :=
  match commonType first rest with
  | .categorical => ofTexts first.name (rest.foldl (fun rows c => rows ++ c.texts) first.texts)
  | t => rest.foldl (fun acc c => { acc with cells := acc.cells.append (c.cast t).cells }) (first.cast t)

def stack : List Column → Except Error Column
  | [] => .error .nothingToStack
  | c :: cs => .ok (stackOnto c cs)

end Columnar.Column
