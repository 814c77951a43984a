import Columnar.Error

namespace Columnar

inductive Workload
  | filter
  | sort
  | joinBuild
  | joinProbe
  | groupHash
  | groupAggregate
  | gather
  | other
  deriving DecidableEq, Repr

namespace Workload

def all : List Workload :=
  [filter, sort, joinBuild, joinProbe, groupHash, groupAggregate, gather, other]

def nanosPerRow : Workload → Nat
  | filter => 2
  | sort => 50
  | joinBuild => 20
  | joinProbe => 30
  | groupHash => 15
  | groupAggregate => 5
  | gather => 3
  | other => 10

end Workload

structure Parallel where
  enabled : Bool
  /-- Inputs below this height are worked on by one worker. -/
  minRows : UInt64
  morselSize : UInt64
  /-- The number of workers; zero means one for each core. -/
  maxWorkers : UInt64
  deriving DecidableEq, Repr

namespace Parallel

def standard : Parallel := ⟨true, 8192, 4096, 0⟩

def sequential : Parallel := { standard with enabled := false }

def eager (morselSize maxWorkers : UInt64) : Parallel := ⟨true, 1, morselSize, maxWorkers⟩

def spawnNanos : UInt64 := 5000

def safetyFactor : UInt64 := 10

def validate (p : Parallel) : Except Error Unit :=
  if p.morselSize = 0 then .error .zeroMorsel else .ok ()

def workers (p : Parallel) (cores : UInt64) : UInt64 :=
  if p.maxWorkers = 0 then cores else p.maxWorkers

def spreads (p : Parallel) (cores : UInt64) (rows : Nat) : Bool :=
  p.enabled && p.minRows.toNat ≤ rows && 1 < p.workers cores

def product? (a b : UInt64) : Option UInt64 := if a.toNat * b.toNat < UInt64.size then some (a * b) else none

def price? (workers : UInt64) : Option UInt64 := do product? (← product? workers spawnNanos) safetyFactor

/-- The estimated work, cut off at the largest 64 bit word, outweighs the price of the workers. There is no answer
where the price overflows, which ends the program. -/
def pays? (p : Parallel) (cores : UInt64) (w : Workload) (rows : Nat) : Option Bool :=
  if p.enabled && 1 < p.workers cores then
    (price? (p.workers cores)).map fun price => price.toNat < min (rows * w.nanosPerRow) (UInt64.size - 1)
  else some false

theorem product?_eq_some_iff {a b c : UInt64} : product? a b = some c ↔ c.toNat = a.toNat * b.toNat := by
  unfold product?
  split
  next fits => rw [Option.some_inj, ← UInt64.toNat_inj, UInt64.toNat_mul, Nat.mod_eq_of_lt fits, eq_comm]
  next large =>
    refine iff_of_false nofun fun h => large ?_
    rw [← h]
    exact c.toNat_lt

theorem price?_eq_some_iff {workers price : UInt64} :
    price? workers = some price ↔ price.toNat = workers.toNat * 5000 * 10 := by
  simp only [price?, Option.bind_eq_bind, Option.bind_eq_some_iff, product?_eq_some_iff]
  constructor
  · rintro ⟨start, hstart, hprice⟩
    rw [hprice, hstart]
    rfl
  · intro h
    have fits : workers.toNat * 5000 < UInt64.size :=
      Nat.lt_of_le_of_lt (Nat.le_mul_of_pos_right _ (Nat.succ_pos 9)) (h ▸ price.toNat_lt)
    have start : (UInt64.ofNat (workers.toNat * 5000)).toNat = workers.toNat * 5000 := UInt64.toNat_ofNat_of_lt' fits
    exact ⟨_, start, by rw [h, start]; rfl⟩

theorem isSome_price?_iff {workers : UInt64} : (price? workers).isSome ↔ workers.toNat * 5000 * 10 < UInt64.size := by
  rw [Option.isSome_iff_exists]
  constructor
  · rintro ⟨price, h⟩
    rw [← price?_eq_some_iff.1 h]
    exact price.toNat_lt
  · intro fits
    exact ⟨_, price?_eq_some_iff.2 (UInt64.toNat_ofNat_of_lt' fits)⟩

def Priced (p : Parallel) (cores : UInt64) : Prop :=
  p.enabled && 1 < p.workers cores → (price? (p.workers cores)).isSome

instance (p : Parallel) (cores : UInt64) : Decidable (p.Priced cores) := inferInstanceAs (Decidable (_ → _))

variable {p : Parallel} {cores : UInt64} {w : Workload} {rows : Nat}

theorem Priced.isSome_pays? (h : p.Priced cores) (w : Workload) (rows : Nat) : (p.pays? cores w rows).isSome := by
  unfold pays?
  split
  next several => rw [Option.isSome_map, h several]
  · rfl

theorem fits_of_pays (h : p.pays? cores w rows = some true) : (p.workers cores).toNat * 5000 * 10 < UInt64.size := by
  unfold pays? at h
  split at h
  · obtain ⟨price, hprice, -⟩ := Option.map_eq_some_iff.1 h
    rw [← isSome_price?_iff, hprice]
    rfl
  · cases h

end Parallel

end Columnar
