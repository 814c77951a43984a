import Columnar.Column.Order

namespace Columnar

structure SortKey where
  column : Column
  descending : Bool

namespace SortKey

def orderValues (descending : Bool) : Option Value → Option Value → Ordering
  | some x, some y => if descending then y.order x else x.order y
  | a, b => Column.orderOptional a b

def orderRows (k : SortKey) (i j : Nat) : Ordering :=
  orderValues k.descending (k.column.value? i) (k.column.value? j)

def order (i j : Nat) : List SortKey → Ordering
  | [] => .eq
  | k :: ks => (k.orderRows i j).then (order i j ks)

end SortKey

def argsort (n : Nat) (keys : List SortKey) : List Nat :=
  (List.range n).mergeSort fun i j => SortKey.order i j keys != .gt

end Columnar
