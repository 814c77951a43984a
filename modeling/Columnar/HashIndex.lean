import Columnar.Parallel.Pool
import Columnar.Parallel.Rounding

/-!
An index from hashes to rows in ascending order, split by the low bits of the hashes into a power of two
of partitions that are filled apart from each other.
-/

namespace Columnar

structure HashIndex where
  partitions : Array (Std.HashMap UInt64 (Array Nat))
  rows : Nat

namespace HashIndex

def partitionOf (count : Nat) (h : UInt64) : Nat := h.toNat % count

def scatterRow (hashes : Array UInt64) (keep : Nat → Bool) (count : Nat) (lists : Array (Array Nat))
    (row : Nat) : Array (Array Nat) :=
  match hashes[row]? with
  | some h => if keep row then lists.modify (partitionOf count h) (·.push row) else lists
  | none => lists

def scatter (hashes : Array UInt64) (keep : Nat → Bool) (count : Nat) (m : Morsel) :
    Array (Array Nat) :=
  (List.range' m.start (m.stop - m.start)).foldl (scatterRow hashes keep count) (.replicate count #[])

def insert (hashes : Array UInt64) (map : Std.HashMap UInt64 (Array Nat)) (row : Nat) :
    Std.HashMap UInt64 (Array Nat) :=
  match hashes[row]? with
  | some h => map.alter h fun rows => some ((rows.getD #[]).push row)
  | none => map

def fill (hashes : Array UInt64) (chunks : List (Array (Array Nat))) (part : Nat) :
    Std.HashMap UInt64 (Array Nat) :=
  chunks.foldl (fun map chunk => (chunk[part]?.getD #[]).foldl (insert hashes) map) {}

def split (pool : Pool) (hashes : Array UInt64) (count : Nat) (keep : Nat → Bool) : HashIndex :=
  let scatter := scatter hashes keep count
  let chunks :=
    if 1 < count then pool.forRows hashes.size scatter else [scatter ⟨0, hashes.size⟩]
  { partitions := (pool.tasks count (fill hashes chunks)).toArray
    rows := chunks.foldl (fun n chunk => chunk.foldl (fun n rows => n + rows.size) n) 0 }

def withPartitions? (pool : Pool) (hashes : Array UInt64) (wanted : UInt64) (keep : Nat → Bool) : Option HashIndex :=
  (nextPower? (max wanted 1)).map (split pool hashes ·.toNat keep)

/-- One partition for each worker where spreading the work pays, and a single one elsewhere. -/
def build? (pool : Pool) (hashes : Array UInt64) (keep : Nat → Bool) : Option HashIndex := do
  let pays ← pool.settings.pays? pool.cores .joinBuild hashes.size
  withPartitions? pool hashes (if pays then pool.workers else 1) keep

theorem toNat_max (a b : UInt64) : (max a b).toNat = max a.toNat b.toNat :=
  apply_ite UInt64.toNat (a ≤ b) b a

theorem isSome_withPartitions?_iff {pool : Pool} {hashes : Array UInt64} {wanted : UInt64} {keep : Nat → Bool} :
    (withPartitions? pool hashes wanted keep).isSome = true ↔ wanted.toNat ≤ 1 <<< 63 := by
  have one : (1 : UInt64).toNat ≤ 1 <<< 63 := by decide
  rw [withPartitions?, Option.isSome_map, isSome_nextPower?_iff, toNat_max]
  omega

theorem isSome_build? (pool : PricedPool) (hashes : Array UInt64) (keep : Nat → Bool) :
    (build? pool.toPool hashes keep).isSome := by
  obtain ⟨pays, hpays⟩ := Option.isSome_iff_exists.1 (pool.priced.isSome_pays? .joinBuild hashes.size)
  have wanted : (if pays then pool.workers else 1).toNat ≤ 1 <<< 63 := by
    split
    next work =>
      have fits : pool.workers.toNat * 5000 * 10 < UInt64.size := Parallel.fits_of_pays (work ▸ hpays)
      have words : UInt64.size = 2 * 1 <<< 63 := rfl
      omega
    · decide
  simpa only [build?, hpays, Option.bind_eq_bind, Option.bind_some] using isSome_withPartitions?_iff.2 wanted

def build (pool : PricedPool) (hashes : Array UInt64) (keep : Nat → Bool) : HashIndex :=
  (build? pool.toPool hashes keep).get (isSome_build? pool hashes keep)

def lookup (index : HashIndex) (h : UInt64) : Array Nat :=
  match index.partitions[partitionOf index.partitions.size h]? with
  | some map => map.getD h #[]
  | none => #[]

/-- The pairs of a left row and an indexed row that match, in the order of both; `matching` picks from
the rows that have the same hash. -/
def collect (pool : PricedPool) (index : HashIndex) (hashes : Array UInt64) (height : Nat)
    (matching : Nat → Array Nat → List Nat) : List (Nat × Nat) :=
  let probe (m : Morsel) : List (Nat × Nat) :=
    (List.range' m.start (m.stop - m.start)).flatMap fun row =>
      let candidates := (hashes[row]?.map index.lookup).getD #[]
      if candidates.isEmpty then [] else (matching row candidates).map (row, ·)
  if pool.pays .joinProbe height then (pool.forRows height probe).flatten
  else probe ⟨0, height⟩

end HashIndex

end Columnar
