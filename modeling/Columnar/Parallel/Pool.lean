import Columnar.Column
import Columnar.Parallel
import Columnar.Parallel.Morsel

namespace Columnar

structure Pool where
  settings : Parallel
  cores : UInt64
  /-- Who takes the next part, by the number of parts taken before. -/
  claimant : Nat → Nat

namespace Pool

def workers (p : Pool) : UInt64 := p.settings.workers p.cores

def spreads (p : Pool) (rows : Nat) : Bool := p.settings.spreads p.cores rows

def crew (workers parts : Nat) : Nat := max 1 (min workers (max parts 1))

/-- The parts as the workers return them: those of one worker together, in the order of its claims. -/
def claims (p : Pool) (workers : Nat) (parts : List Morsel) : List Morsel :=
  let crew := crew workers parts.length
  let owner (part : Morsel × Nat) := p.claimant part.2 % crew
  (parts.zipIdx.mergeSort fun a b => owner a ≤ owner b).map (·.1)

def fanOut (p : Pool) (workers total size : Nat) (body : Morsel → α) : List α :=
  let parts := p.claims workers (Morsel.tiles total size)
  ((parts.map fun m => (m.start, body m)).mergeSort fun a b => a.1 ≤ b.1).map (·.2)

def forRows (p : Pool) (total : Nat) (body : Morsel → α) : List α :=
  if p.spreads total then p.fanOut p.workers.toNat total p.settings.morselSize.toNat body
  else [body ⟨0, total⟩]

def coverage (p : Pool) (total : Nat) : List Morsel :=
  if p.spreads total then Morsel.tiles total p.settings.morselSize.toNat
  else [⟨0, total⟩]

/-- Once a part has failed the parts claimed later are left out. -/
def tryForRows (p : Pool) (total : Nat) (body : Morsel → Except ε Unit) : Except ε Unit :=
  (p.coverage total).forM body

def reduce (p : Pool) (total : Nat) (start : α) (body : Morsel → α) (combine : α → α → α) : α :=
  (p.forRows total body).foldl combine start

def mapRows (p : Pool) (n : Nat) (f : Nat → α) : List α :=
  (p.forRows n fun m => (List.range' m.start (m.stop - m.start)).map f).flatten

def tasks (p : Pool) (n : Nat) (f : Nat → α) : List α :=
  let workers := min p.workers.toNat n
  if p.settings.enabled && 2 ≤ workers then p.fanOut workers n 1 fun m => f m.start
  else (List.range n).map f

/-- One column for each number; of several failures the one with the least number counts. -/
def columns (p : Pool) (n rows : Nat) (build : Nat → Except Error Column) :
    Except Error (List Column) :=
  if n < 2 || !p.spreads rows then (List.range n).mapM build
  else (p.tasks n build).mapM id

end Pool

/-- A pool whose settings always decide whether work pays, as no product overflows on the way. -/
structure PricedPool extends Pool where
  priced : settings.Priced cores

def PricedPool.pays (p : PricedPool) (w : Workload) (rows : Nat) : Bool :=
  (p.settings.pays? p.cores w rows).get (p.priced.isSome_pays? w rows)

end Columnar
