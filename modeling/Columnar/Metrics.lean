import Columnar.Number.Decimal

namespace Columnar

namespace Metrics

def bounds : List Float := [0.005, 0.01, 0.025, 0.05, 0.1, 0.25, 0.5, 1.0, 2.5, 5.0, 10.0]

structure Histogram where
  sum : Float
  count : Nat
  within : List Nat

def Histogram.empty : Histogram := ⟨Double.zero, 0, bounds.map fun _ => 0⟩

/-- A time below zero, or none at all, counts as zero. -/
def Histogram.observe (h : Histogram) (seconds : Float) : Histogram :=
  let x := if Double.zero < seconds then seconds else Double.zero
  ⟨h.sum + x, h.count + 1, bounds.zipWith (fun b n => if x ≤ b then n + 1 else n) h.within⟩

/-- Values by their labels, in ascending order of the labels. Labels count as the same when their texts,
the last one first, run together to the same text; the first such labels stand for all of them. -/
abbrev Family (α : Type) := List (List String × α)

def lessLabels : List String → List String → Bool
  | [], _ => false
  | _ :: _, [] => false
  | a :: as, b :: bs => a < b || a == b && lessLabels as bs

def Family.insert (labels : List String) (x : α) : Family α → Family α
  | [] => [(labels, x)]
  | (ls, y) :: rest =>
    if lessLabels labels ls then (labels, x) :: (ls, y) :: rest else (ls, y) :: insert labels x rest

def sameLabels (as bs : List String) : Bool := String.join as.reverse == String.join bs.reverse

def Family.update (start : α) (f : α → α) (labels : List String) (family : Family α) : Family α :=
  if family.any (sameLabels labels ·.1) then
    family.map fun (ls, x) => (ls, if sameLabels labels ls then f x else x)
  else family.insert labels (f start)

end Metrics

open Metrics in
structure Metrics where
  rowsIn : Family Float
  rowsOut : Family Float
  seconds : Family Histogram
  morsels : Family Float
  joins : Family Float

namespace Metrics

def empty : Metrics := ⟨[], [], [], [], []⟩

def increase (family : Family Float) (labels : List String) (x : Float) : Family Float :=
  family.update Double.zero (· + x) labels

def operator (m : Metrics) (query operator : String) (rowsIn rowsOut : Nat) (seconds : Float) :
    Metrics :=
  let labels := [operator, query]
  { m with
    rowsIn := increase m.rowsIn labels (Double.ofInt rowsIn)
    rowsOut := increase m.rowsOut labels (Double.ofInt rowsOut)
    seconds := m.seconds.update .empty (·.observe seconds) labels }

def addMorsels (m : Metrics) (primitive : String) (n : Nat) : Metrics :=
  { m with morsels := increase m.morsels [primitive] (Double.ofInt n) }

def addJoin (m : Metrics) (strategy : String) : Metrics :=
  { m with joins := increase m.joins [strategy] Double.one }

def escape (c : Char) : List Char :=
  if c = '\\' then ['\\', '\\']
  else if c = '\n' then ['\\', 'n']
  else if c = '"' then ['\\', '"']
  else [c]

def label (name value : String) : String :=
  name ++ "=\"" ++ .ofList (value.toList.flatMap escape) ++ "\""

def sample (name : String) (labels : List String) (value : String) : String :=
  name ++ "\x7b" ++ ",".intercalate labels ++ "\x7d " ++ value

def number (x : Float) : String := Decimal.Layout.plain.write x

def heading (name help kind : String) : List String :=
  ["# HELP " ++ name ++ " " ++ help, "# TYPE " ++ name ++ " " ++ kind]

def familyLines (name help kind : String) (names : List String) (family : Family α)
    (lines : List String → α → List String) : List String :=
  if family.isEmpty then []
  else heading name help kind ++ family.flatMap fun (values, x) => lines (names.zipWith label values) x

def counterLines (name help : String) (names : List String) (family : Family Float) : List String :=
  familyLines name help "counter" names family fun labels x => [sample name labels (number x)]

def histogramLines (name help : String) (names : List String) (family : Family Histogram) :
    List String :=
  familyLines name help "histogram" names family fun labels h =>
    (bounds.zipWith (fun b (n : Nat) =>
      sample (name ++ "_bucket") (labels ++ [label "le" (number b)]) (toString n)) h.within) ++
    [sample (name ++ "_bucket") (labels ++ [label "le" "+Inf"]) (toString h.count),
      sample (name ++ "_sum") labels (number h.sum),
      sample (name ++ "_count") labels (toString h.count)]

def lines (m : Metrics) : List String :=
  counterLines "skiff_join_strategy_total" "Joins executed per physical strategy" ["strategy"]
    m.joins ++
  counterLines "skiff_morsels_claimed_total" "Morsels claimed from the shared cursor" ["primitive"]
    m.morsels ++
  counterLines "skiff_operator_rows_in_total" "Input rows consumed per plan operator"
    ["operator", "query_id"] m.rowsIn ++
  counterLines "skiff_operator_rows_out_total" "Output rows produced per plan operator"
    ["operator", "query_id"] m.rowsOut ++
  histogramLines "skiff_operator_time_seconds" "Wall time spent in each plan operator"
    ["operator", "query_id"] m.seconds

end Metrics

end Columnar
