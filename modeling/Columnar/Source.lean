import Columnar.Frame

namespace Columnar

structure Source where
  name : String
  schema? : Option (List (String × DType))
  rows? : Option Nat
  width? : Option Nat
  /-- Reads at least the wanted columns, or all of them. -/
  read : Option (List String) → Except Error Frame

namespace Source

def memory (f : Frame) : Source := ⟨"memory", some f.schema, some f.height, some f.width, fun _ => .ok f⟩

def names? (s : Source) : Option (List String) := s.schema?.map (·.map (·.1))

end Source

structure ColumnFunction where
  name : String
  apply : Column → Except Error Column

end Columnar
