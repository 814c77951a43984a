import Columnar.Column

namespace Columnar.Column

def groupEq (a : Column) (i : Nat) (b : Column) (j : Nat) : Bool :=
  match a.value? i, b.value? j with
  | some x, some y => x.same y
  | none, none => true
  | _, _ => false

def joinEq (a : Column) (i : Nat) (b : Column) (j : Nat) : Bool :=
  match a.value? i, b.value? j with
  | some x, some y => x.same y
  | _, _ => false

def orderOptional : Option Value → Option Value → Ordering
  | some x, some y => x.order y
  | none, some _ => .gt
  | some _, none => .lt
  | none, none => .eq

def orderRows (a : Column) (i : Nat) (b : Column) (j : Nat) : Ordering :=
  orderOptional (a.value? i) (b.value? j)

def orderReadings (a : Column) (i : Nat) (b : Column) (j : Nat) : Ordering :=
  let (s, t) := (a.dtype, b.dtype)
  if s.isStringLike && t.isStringLike then ofOptions (a.text? i) (b.text? j)
  else if s.isInteger && t.isInteger then ofOptions (a.int? i) (b.int? j)
  else
    match a.float? i, b.float? j with
    | some x, some y => Double.order x y
    | _, _ => .eq
where
  ofOptions {α : Type} [Ord α] : Option α → Option α → Ordering
    | none, none => .eq
    | none, some _ => .lt
    | some _, none => .gt
    | some x, some y => Ord.compare x y

def isSorted (c : Column) : Bool :=
  c.nullCount == 0 && (List.range (c.height - 1)).all fun i => c.orderRows i c (i + 1) != .gt

def same (a b : Column) : Bool :=
  a.name == b.name && a.dtype == b.dtype && a.height == b.height
    && (List.range a.height).all fun i => a.groupEq i b i

end Columnar.Column
