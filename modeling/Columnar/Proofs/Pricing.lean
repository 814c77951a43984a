import Columnar.Config
import Columnar.HashIndex
import Mathlib.Algebra.Order.Ring.Nat

/-!
Whether spread work pays is decided in words of 64 bits. The work is cut off at the largest word, which changes no
decision; the price of the workers is not, and where it overflows there is no decision at all. The settings are accepted
all the same.
-/

namespace Columnar.Parallel

variable {p : Parallel} {cores : UInt64} {w : Workload} {rows : Nat}

theorem workers_of_several (several : 1 < p.maxWorkers) : p.workers cores = p.maxWorkers := by
  have given : p.maxWorkers ≠ 0 := by
    rintro none
    rw [none] at several
    exact absurd several (by decide)
  exact if_neg given

/-- The cut of the work is never in the way of a price that fits, because no price is the largest word. -/
theorem pays?_of_fits (enabled : p.enabled) (several : 1 < p.maxWorkers)
    (fits : p.maxWorkers.toNat * 5000 * 10 < UInt64.size) :
    p.pays? cores w rows = some (decide (p.maxWorkers.toNat * 5000 * 10 < rows * w.nanosPerRow)) := by
  have words : UInt64.size = 18446744073709551616 := rfl
  obtain ⟨price, hprice⟩ := Option.isSome_iff_exists.1 (isSome_price?_iff.2 fits)
  simp only [pays?, workers_of_several several, enabled, several, hprice, price?_eq_some_iff.1 hprice, decide_true,
    Bool.and_self, if_true, Option.map_some, Option.some_inj, decide_eq_decide]
  omega

theorem pays?_of_overflow (enabled : p.enabled) (several : 1 < p.maxWorkers)
    (large : UInt64.size ≤ p.maxWorkers.toNat * 5000 * 10) : p.pays? cores w rows = none := by
  have none : price? p.maxWorkers = none := by
    rw [← Option.not_isSome_iff_eq_none, isSome_price?_iff]
    exact Nat.not_lt.2 large
  simp [pays?, workers_of_several several, none, enabled, several]

theorem pays?_eq_some_true_iff (enabled : p.enabled) (several : 1 < p.maxWorkers) :
    p.pays? cores w rows = some true ↔
      p.maxWorkers.toNat * 5000 * 10 < UInt64.size ∧ p.maxWorkers.toNat * 5000 * 10 < rows * w.nanosPerRow := by
  rcases Nat.lt_or_ge (p.maxWorkers.toNat * 5000 * 10) UInt64.size with fits | large
  · simp [pays?_of_fits enabled several fits, fits]
  · simp [pays?_of_overflow enabled several large, Nat.not_lt.2 large]

theorem isSome_build?_iff {pool : Pool} {hashes : Array UInt64} {keep : Nat → Bool} (enabled : pool.settings.enabled)
    (several : 1 < pool.settings.maxWorkers) :
    (HashIndex.build? pool hashes keep).isSome = true ↔
      pool.settings.maxWorkers.toNat * 5000 * 10 < UInt64.size := by
  constructor
  · intro built
    refine Nat.lt_of_not_le fun large => ?_
    rw [HashIndex.build?, pays?_of_overflow enabled several large] at built
    cases built
  · intro fits
    have priced : pool.settings.Priced pool.cores := fun _ => by
      rw [workers_of_several several, isSome_price?_iff]
      exact fits
    exact HashIndex.isSome_build? ⟨pool, priced⟩ hashes keep

/-- With several workers the decisions are those over whole numbers as long as the price of the workers fits into a
word, and beyond that there are none. More rows never turn spreading off and more workers never turn it on. An index is
built as long as the price fits; one that is asked for as many partitions as there are workers is filled up to half of
all words. -/
theorem pays_while_fitting (p : Parallel) (enabled : p.enabled) (several : 1 < p.maxWorkers) :
    (p.maxWorkers.toNat * 5000 * 10 < UInt64.size → ∀ cores w (rows : UInt64),
      p.pays? cores w rows.toNat = some (decide (p.maxWorkers.toNat * 5000 * 10 < rows.toNat * w.nanosPerRow))) ∧
    (UInt64.size ≤ p.maxWorkers.toNat * 5000 * 10 → ∀ cores w rows, p.pays? cores w rows = none) ∧
    (∀ cores w rows rows', rows ≤ rows' → p.pays? cores w rows = some true → p.pays? cores w rows' = some true) ∧
    (∀ fewer, 1 < fewer → fewer ≤ p.maxWorkers → ∀ cores w rows, p.pays? cores w rows = some true →
      { p with maxWorkers := fewer }.pays? cores w rows = some true) ∧
    (∀ cores claimant hashes keep, (HashIndex.build? ⟨p, cores, claimant⟩ hashes keep).isSome ↔
      p.maxWorkers.toNat * 5000 * 10 < UInt64.size) ∧
    ∀ pool hashes keep, (HashIndex.withPartitions? pool hashes p.maxWorkers keep).isSome ↔
      p.maxWorkers.toNat ≤ 2 ^ 63 := by
  refine ⟨fun fits cores w rows => pays?_of_fits enabled several fits,
    fun large cores w rows => pays?_of_overflow enabled several large, ?_, ?_,
    fun cores claimant hashes keep => isSome_build?_iff enabled several,
    fun pool hashes keep => HashIndex.isSome_withPartitions?_iff⟩
  · intro cores w rows rows' more pays
    obtain ⟨fits, work⟩ := (pays?_eq_some_true_iff enabled several).1 pays
    have work' := Nat.lt_of_lt_of_le work (Nat.mul_le_mul_right w.nanosPerRow more)
    exact (pays?_eq_some_true_iff enabled several).2 ⟨fits, work'⟩
  · intro fewer several' less cores w rows pays
    obtain ⟨fits, work⟩ := (pays?_eq_some_true_iff enabled several).1 pays
    have cheaper : fewer.toNat * 5000 * 10 ≤ p.maxWorkers.toNat * 5000 * 10 :=
      Nat.mul_le_mul_right _ (Nat.mul_le_mul_right _ (UInt64.le_iff_toNat_le.1 less))
    have on : { p with maxWorkers := fewer }.enabled := enabled
    have few : 1 < { p with maxWorkers := fewer }.maxWorkers := several'
    exact (pays?_eq_some_true_iff on few).2 ⟨Nat.lt_of_le_of_lt cheaper fits, Nat.lt_of_le_of_lt cheaper work⟩

def fullyPriced : Parallel := { standard with maxWorkers := 368934881474191 }

theorem pays_fullyPriced :
    fullyPriced.enabled ∧ 1 < fullyPriced.maxWorkers ∧ fullyPriced.maxWorkers.toNat * 5000 * 10 < UInt64.size ∧
      ∀ cores, fullyPriced.pays? cores .sort 1000 = some false := by
  have fits : fullyPriced.maxWorkers.toNat * 5000 * 10 < UInt64.size := by decide
  obtain ⟨exact, -⟩ := pays_while_fitting fullyPriced rfl (by decide)
  exact ⟨rfl, by decide, fits, fun cores => (exact fits cores .sort 1000).trans (by decide)⟩

/-- With one worker more, settings that are accepted have no answer to whether it pays to sort a thousand rows, although
the work is worth less than the price. The largest number of workers cannot even be rounded up to a power of two. -/
theorem pays_overflowing :
    let p := { fullyPriced with maxWorkers := 368934881474192 }
    let q := { fullyPriced with maxWorkers := 18446744073709551615 }
    { Config.standard with parallel := p }.validate = .ok () ∧
    { Config.standard with parallel := q }.validate = .ok () ∧
    1000 * Workload.sort.nanosPerRow < p.maxWorkers.toNat * 5000 * 10 ∧
    p.pays? 1 .sort 1000 = none ∧ nextPower? q.maxWorkers = none := by
  exact ⟨rfl, rfl, by decide, by decide, by decide⟩

end Columnar.Parallel
