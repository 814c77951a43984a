import Columnar.Parallel.Morsel

/-!
Workers that claim ranges of rows from one cursor without waiting for each other: the atomic steps of their
claims, and the state that a schedule of such steps leads to.
-/

namespace Columnar

/-- Rows to hand out in pieces; a size of zero counts as one. -/
structure Claiming where
  total : UInt64
  size : UInt64

namespace Claiming

/-- An atomic step of a worker. The cursor is read without order, so that a worker may see any value that
the cursor has or has had. -/
inductive Action
  | load (worker : Nat) (seen : UInt64)
  | leave (worker : Nat)
  /-- Moves the cursor, which is still where it was seen, and ends a claim with the rows in between. -/
  | exchange (worker : Nat)
  /-- Fails to move the cursor, whether another worker has moved it or not, and reads it again. -/
  | retry (worker : Nat) (seen : UInt64)
  deriving DecidableEq, Repr

structure State where
  cursor : UInt64
  earlier : List UInt64
  held : Nat → Option UInt64
  answers : List (Nat × Option Morsel)

namespace State

def initial : State := ⟨0, [], fun _ => none, []⟩

def shown (s : State) : List UInt64 := s.cursor :: s.earlier

def hold (s : State) (worker : Nat) (seen : Option UInt64) : State :=
  { s with held := fun w => if w = worker then seen else s.held w }

def answer (s : State) (worker : Nat) (m : Option Morsel) : State :=
  { s.hold worker none with answers := s.answers ++ [(worker, m)] }

def advance (s : State) (cursor : UInt64) : State := { s with cursor, earlier := s.shown }

def ranges (s : State) : List Morsel := s.answers.filterMap (·.2)

end State

def saturatingAdd (a b : UInt64) : UInt64 :=
  if b ≤ 0xffffffffffffffff - a then a + b else 0xffffffffffffffff

def stop (c : Claiming) (seen : UInt64) : UInt64 := min (saturatingAdd seen (max c.size 1)) c.total

/-- The state after a step; nothing where the worker cannot take it. -/
def step (c : Claiming) (s : State) : Action → Option State
  | .load w seen => if s.held w = none ∧ seen ∈ s.shown then some (s.hold w (some seen)) else none
  | .leave w =>
    match s.held w with
    | some seen => if c.total ≤ seen then some (s.answer w none) else none
    | none => none
  | .exchange w =>
    match s.held w with
    | some seen =>
      if seen < c.total ∧ seen = s.cursor then
        some ((s.advance (c.stop seen)).answer w (some ⟨seen.toNat, (c.stop seen).toNat⟩))
      else none
    | none => none
  | .retry w seen' =>
    match s.held w with
    | some seen => if seen < c.total ∧ seen' ∈ s.shown then some (s.hold w (some seen')) else none
    | none => none

def run (c : Claiming) (schedule : List Action) : Option State := schedule.foldlM c.step .initial

end Claiming

end Columnar
