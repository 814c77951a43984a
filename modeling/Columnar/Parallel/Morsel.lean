namespace Columnar

structure Morsel where
  start : Nat
  stop : Nat
  deriving DecidableEq, Repr

structure MorselCursor where
  next : Nat
  total : Nat
  size : Nat
  size_pos : 0 < size

namespace MorselCursor

/-- A size of zero counts as one. -/
def ofTotal (total size : Nat) : MorselCursor := ⟨0, total, max size 1, by omega⟩

def claim? (c : MorselCursor) : Option (Morsel × MorselCursor) :=
  if c.next < c.total then
    let stop := min (c.next + c.size) c.total
    some (⟨c.next, stop⟩, { c with next := stop })
  else none

def reset (c : MorselCursor) : MorselCursor := { c with next := 0 }

def count (c : MorselCursor) : Nat := (c.total + c.size - 1) / c.size

end MorselCursor

def Morsel.tiles (total size : Nat) : List Morsel :=
  (List.range (MorselCursor.ofTotal total size).count).map fun k =>
    let size := max size 1
    ⟨k * size, min (k * size + size) total⟩

end Columnar
