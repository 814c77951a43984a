namespace Columnar

def nextPower (n : Nat) : Nat := if n ≤ 1 then 1 else 1 <<< ((n - 1).log2 + 1)

theorem exists_nextPower_eq (n : Nat) : ∃ k, nextPower n = 1 <<< k := by
  unfold nextPower
  split
  · exact ⟨0, rfl⟩
  · exact ⟨_, rfl⟩

theorem nextPower_le_iff {n k : Nat} : nextPower n ≤ 1 <<< k ↔ n ≤ 1 <<< k := by
  have one := Nat.one_le_two_pow (n := k)
  simp only [nextPower, Nat.one_shiftLeft]
  split
  · omega
  next several =>
    rw [Nat.pow_le_pow_iff_right Nat.one_lt_two, Nat.succ_le_iff, Nat.log2_lt (by omega)]
    omega

theorem le_nextPower (n : Nat) : n ≤ nextPower n := by
  obtain ⟨k, hk⟩ := exists_nextPower_eq n
  rw [hk]
  exact nextPower_le_iff.1 (Nat.le_of_eq hk)

theorem nextPower_pos (n : Nat) : 0 < nextPower n := by
  obtain ⟨k, hk⟩ := exists_nextPower_eq n
  rw [hk, Nat.one_shiftLeft]
  exact Nat.two_pow_pos k

theorem nextPower_lt_iff {n : Nat} : nextPower n < UInt64.size ↔ n ≤ 1 <<< 63 := by
  obtain ⟨k, hk⟩ := exists_nextPower_eq n
  have words : UInt64.size = 2 ^ 64 := rfl
  rw [← nextPower_le_iff, words, hk, Nat.one_shiftLeft, Nat.one_shiftLeft, Nat.pow_lt_pow_iff_right Nat.one_lt_two,
    Nat.pow_le_pow_iff_right Nat.one_lt_two, Nat.lt_succ_iff]

def nextPower? (n : UInt64) : Option UInt64 :=
  if nextPower n.toNat < UInt64.size then some (.ofNat (nextPower n.toNat)) else none

theorem nextPower?_eq_some_iff {n power : UInt64} : nextPower? n = some power ↔ power.toNat = nextPower n.toNat := by
  unfold nextPower?
  split
  next fits => rw [Option.some_inj, ← UInt64.toNat_inj, UInt64.toNat_ofNat_of_lt' fits, eq_comm]
  next large =>
    refine iff_of_false nofun fun h => large ?_
    rw [← h]
    exact power.toNat_lt

theorem isSome_nextPower?_iff {n : UInt64} : (nextPower? n).isSome = true ↔ n.toNat ≤ 1 <<< 63 := by
  rw [← nextPower_lt_iff, nextPower?]
  split
  next fits => exact iff_of_true rfl fits
  next large => exact iff_of_false nofun large

end Columnar
