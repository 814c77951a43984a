import Columnar.Config
import Columnar.Hashing
import Columnar.Parallel.Pool

namespace Columnar

structure Host where
  hasher : Hasher
  pool : PricedPool
  autoSortMerge : Bool

/-- A machine of so many cores under the settings of an engine, unless the price of its workers overflows. -/
def Host.ofConfig? (hasher : Hasher) (cores : UInt64) (claimant : Nat → Nat) (c : Config) : Option Host :=
  if priced : c.parallel.Priced cores then
    some ⟨hasher, ⟨⟨c.parallel, cores, claimant⟩, priced⟩, c.autoSortMerge⟩
  else none

end Columnar
