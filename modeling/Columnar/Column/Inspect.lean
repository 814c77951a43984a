import Columnar.Column
import Columnar.Expr.Json

namespace Columnar

def Scalar.inspect : Scalar → String
  | int i => s!"Int64({i.toInt})"
  | float x => "Float64(" ++ Decimal.Layout.canonical.write x ++ ")"
  | text s => "Utf8(" ++ Text.quoted s ++ ")"
  | bool b => "Boolean(" ++ boolText b ++ ")"
  | null => "Null"

def Column.inspect (c : Column) : String :=
  let values := ", ".intercalate ((List.range c.height).map fun i => (c.scalar i).inspect)
  "Series \x7b name: " ++ Text.quoted c.name ++ ", dtype: " ++ c.dtype.tag ++ ", values: [" ++ values ++
    "] \x7d"

end Columnar
