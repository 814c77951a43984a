namespace Columnar

inductive Aggregation
  | sum
  | mean
  | min
  | max
  | count
  | first
  | last
  | std
  | var
  | median
  | distinct
  deriving DecidableEq, Repr

namespace Aggregation

def all : List Aggregation :=
  [sum, mean, min, max, count, first, last, std, var, median, distinct]

def text : Aggregation → String
  | sum => "sum"
  | mean => "mean"
  | min => "min"
  | max => "max"
  | count => "count"
  | first => "first"
  | last => "last"
  | std => "std"
  | var => "var"
  | median => "median"
  | distinct => "n_unique"

def ofText? (s : String) : Option Aggregation :=
  match s.toLower with
  | "avg" => some mean
  | "count_distinct" => some distinct
  | s => all.find? (·.text == s)

end Aggregation

end Columnar
