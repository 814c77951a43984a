import Columnar.Proofs.Numerals

/-!
A whole number of at most 53 bits is written as a double without a point as it is written as an integer. Every
coarser grid that has a point among the values that round to it has the number itself as that point, and the grid
of the whole numbers is one of those that are tried.
-/

namespace Columnar.Decimal

open Binary

namespace Interval

theorem lt_pow_digitCount (n : Nat) : n < 10 ^ digitCount n :=
  (Nat.length_toDigits_le_iff (by decide) (List.length_pos_iff.2 Nat.toDigits_ne_nil)).1 le_rfl

theorem lt_zpow_point {i : Interval} (h : i.Proper) : (i.value : ℚ) < (10 : ℚ) ^ i.point * i.denominator := by
  let lift := i.denominator.log2 / 3 + 1
  let lifted := i.value * Nat.pow 10 lift / i.denominator
  have bound : i.value * 10 ^ lift < 10 ^ digitCount lifted * i.denominator :=
    (Nat.div_lt_iff_lt_mul h.denominator).1 (lt_pow_digitCount lifted)
  have exponent : i.point = (digitCount lifted : Int) - (lift : Int) := rfl
  rw [exponent, zpow_sub₀ (by norm_num), zpow_natCast, zpow_natCast, div_mul_eq_mul_div,
    lt_div_iff₀ (by positivity)]
  exact_mod_cast bound

end Interval

variable {k n : Nat}

def aroundWhole (k n : Nat) : Interval := .around .double (k * 2 ^ n) (-n)

theorem proper_aroundWhole (pos : 0 < k) (n : Nat) : (aroundWhole k n).Proper :=
  Interval.proper_around (Nat.mul_pos pos (Nat.two_pow_pos n))

theorem value_aroundWhole (k n : Nat) : (aroundWhole k n).value = k * (aroundWhole k n).denominator := by
  have down : (-(n : Int) - 2).toNat = 0 := by omega
  have up : (2 - -(n : Int)).toNat = n + 2 := by omega
  change (4 * (k * 2 ^ n)) <<< (-(n : Int) - 2).toNat = k * 1 <<< (2 - -(n : Int)).toNat
  rw [down, up, Nat.shiftLeft_zero, Nat.one_shiftLeft, Nat.pow_add]
  ring

theorem eq_of_contains {c : Nat} (h : (aroundWhole k n).Contains c) : c = k := by
  have quarters : ((4 * (k * 2 ^ n) : Nat) : ℚ) * 2 ^ (-(n : Int) - 2) = k := by
    rw [zpow_sub₀ (by norm_num), zpow_neg, zpow_natCast]
    push_cast
    field_simp
  have place : (2 : ℚ) ^ (-(n : Int) - 2) ≤ 1 / 4 := calc
    (2 : ℚ) ^ (-(n : Int) - 2) ≤ 2 ^ (-2 : Int) := zpow_le_zpow_right₀ (by norm_num) (by omega)
    _ = 1 / 4 := by norm_num
  obtain ⟨low, high⟩ := Interval.contains_around_iff.1 h
  have low := low.le
  have high := high.le
  have step : ((4 * (k * 2 ^ n) : Nat) : ℚ) - 2 ≤ (4 * (k * 2 ^ n) - below (k * 2 ^ n) (-n) : Nat) := by
    have quarter := below_cases (k * 2 ^ n) (-n)
    rw [sub_le_iff_le_add]
    exact_mod_cast (show 4 * (k * 2 ^ n) ≤ 4 * (k * 2 ^ n) - below (k * 2 ^ n) (-n) + 2 by omega)
  have pos : (0 : ℚ) < 2 ^ (-(n : Int) - 2) := by positivity
  have least : (k : ℚ) - 1 / 2 ≤ c := by nlinarith
  have most : (c : ℚ) ≤ k + 1 / 2 := by
    push_cast at high quarters
    nlinarith
  have least : 2 * k ≤ 2 * c + 1 := by exact_mod_cast (show (2 * k : ℚ) ≤ 2 * c + 1 by linarith)
  have most : 2 * c ≤ 2 * k + 1 := by exact_mod_cast (show (2 * c : ℚ) ≤ 2 * k + 1 by linarith)
  omega

variable {d : Digits}

theorem of_onGrid?_whole (pos : 0 < k) {e : Nat} (h : (aroundWhole k n).onGrid? e = some d) :
    d.exponent = e ∧ d.coefficient * 10 ^ e = k := by
  have proper := proper_aroundWhole pos n
  have exponent : d.exponent = e := by
    obtain ⟨rfl, -⟩ | ⟨rfl, -⟩ := Interval.of_onGrid? h <;> rfl
  have inside := Interval.contains_of_onGrid? proper h
  rw [Digits.value, exponent, zpow_natCast] at inside
  exact ⟨exponent, eq_of_contains (by exact_mod_cast inside)⟩

theorem onGrid?_zero (pos : 0 < k) : (aroundWhole k n).onGrid? 0 ≠ none := by
  intro missing
  have proper := proper_aroundWhole pos n
  have below : (aroundWhole k n).pointBelow 0 = k := by
    change (aroundWhole k n).value * 1 / ((aroundWhole k n).denominator * 1) = k
    rw [Nat.mul_one, Nat.mul_one, value_aroundWhole, Nat.mul_div_cancel _ proper.denominator]
  refine (Interval.of_onGrid?_none missing).1 (.of_lt ?_)
  have point : Digits.value ⟨k, 0⟩ * (aroundWhole k n).denominator = (aroundWhole k n).value := by
    rw [value_aroundWhole, Digits.value]
    push_cast
    ring
  rw [below, point]
  exact Nat.cast_lt.2 proper.low

theorem point_bounds (pos : 0 < k) (high : k < 2 ^ 53) : 0 < (aroundWhole k n).point ∧ (aroundWhole k n).point ≤ 17 := by
  have proper := proper_aroundWhole pos n
  have denominator : (0 : ℚ) < (aroundWhole k n).denominator := Nat.cast_pos.2 proper.denominator
  have below := Interval.lt_zpow_point proper
  have above := Interval.zpow_point_le proper
  rw [value_aroundWhole, Nat.cast_mul, mul_lt_mul_iff_of_pos_right denominator] at below
  rw [value_aroundWhole, Nat.cast_mul, mul_le_mul_iff_of_pos_right denominator] at above
  constructor
  · by_contra less
    have small : (10 : ℚ) ^ (aroundWhole k n).point ≤ 1 := zpow_le_one_of_nonpos₀ (by norm_num) (by omega)
    have one : (1 : ℚ) ≤ k := Nat.one_le_cast.2 pos
    linarith
  · by_contra more
    have large : (10 : ℚ) ^ (17 : Int) ≤ 10 ^ ((aroundWhole k n).point - 1) := zpow_le_zpow_right₀ (by norm_num) (by omega)
    have bound : (k : ℚ) < 2 ^ 53 := by exact_mod_cast high
    exact absurd (large.trans above) (not_le.2 (bound.trans (by norm_num)))

theorem exists_findSome?_range {α : Type} (f : Nat → Option α) {last bound : Nat} (within : last < bound)
    (hit : f last ≠ none) : ∃ j ≤ last, ∃ d, f j = some d ∧ (List.range bound).findSome? f = some d := by
  have early : (List.range (last + 1)).findSome? f ≠ none := fun none =>
    hit (List.findSome?_eq_none_iff.1 none last (List.mem_range.2 (Nat.lt_succ_self last)))
  obtain ⟨d, found⟩ := Option.ne_none_iff_exists'.1 early
  obtain ⟨j, hj, hd⟩ := List.exists_of_findSome?_eq_some found
  refine ⟨j, Nat.le_of_lt_succ (List.mem_range.1 hj), d, hd, ?_⟩
  rw [← Nat.add_sub_cancel' within, List.range_add, List.findSome?_append, found]
  rfl

theorem shortest_whole (pos : 0 < k) (high : k < 2 ^ 53) (n : Nat) :
    ∃ e : Nat, (shortest (k * 2 ^ n) (-n)).exponent = e ∧
      (shortest (k * 2 ^ n) (-n)).coefficient * 10 ^ e = k := by
  obtain ⟨low, top⟩ := point_bounds (n := n) pos high
  have last : (aroundWhole k n).point - ((aroundWhole k n).point.toNat - 1 : Nat) - 1 = 0 := by omega
  obtain ⟨j, least, d, hd, found⟩ := exists_findSome?_range
    (fun j : Nat => (aroundWhole k n).onGrid? ((aroundWhole k n).point - j - 1))
    (show (aroundWhole k n).point.toNat - 1 < 17 by omega) (by rw [last]; exact onGrid?_zero pos)
  have result : shortest (k * 2 ^ n) (-n) = d := congrArg (Option.getD · _) found
  obtain ⟨e, exponent⟩ : ∃ e : Nat, (aroundWhole k n).point - j - 1 = e := Int.eq_ofNat_of_zero_le (by omega)
  rw [exponent] at hd
  rw [result]
  exact ⟨e, of_onGrid?_whole pos hd⟩

theorem toDigits_mul_pow {c : Nat} (pos : 0 < c) (e : Nat) :
    Nat.toDigits 10 (c * 10 ^ e) = Nat.toDigits 10 c ++ List.replicate e '0' := by
  induction e with
  | zero => rw [Nat.pow_zero, Nat.mul_one, List.replicate_zero, List.append_nil]
  | succ e ih =>
    have last := Nat.toDigits_append_toDigits (b := 10) (n := c * 10 ^ e) (d := 0) (by decide) (by positivity)
      (by decide)
    rw [Nat.pow_succ, ← Nat.mul_assoc, Nat.mul_comm _ 10, ← Nat.add_zero (10 * _), ← last, ih, List.append_assoc,
      List.replicate_succ']
    rfl

theorem plain_digits {ds : List Char} (hne : ds ≠ []) (e : Nat) :
    Layout.plain.digits (dropZeros ds) (e + ds.length - 1) = ds ++ List.replicate e '0' := by
  obtain ⟨n, padded⟩ := dropZeros_append ds
  have length := congrArg List.length padded
  rw [List.length_append, List.length_replicate] at length
  have positive : 0 < ds.length := List.length_pos_iff.2 hne
  have whole : ((e : Int) + ds.length - 1 + 1).toNat = e + ds.length := by omega
  have zeros : e + ds.length - (dropZeros ds).length = n + e := by omega
  simp only [Layout.digits, Layout.plain, Option.all_none, ↓reduceIte, whole]
  rw [if_neg (by omega), if_pos (by omega), zeros, List.replicate_add, ← List.append_assoc, padded]
  exact List.append_nil _

theorem plain_magnitude {k : Nat} (high : k < 2 ^ 53) (n : Nat) :
    Layout.plain.magnitude (k * 2 ^ n) (-n) = Nat.toDigits 10 k := by
  obtain rfl | pos := Nat.eq_zero_or_pos k
  · rw [Nat.zero_mul]
    rfl
  · obtain ⟨e, exponent, digits⟩ := shortest_whole pos high n
    have pos' : 0 < (shortest (k * 2 ^ n) (-n)).coefficient := by
      by_contra none
      rw [Nat.eq_zero_of_not_pos none, Nat.zero_mul] at digits
      exact pos.ne digits
    rw [Layout.magnitude, if_neg (Nat.mul_pos pos (Nat.two_pow_pos n)).ne', exponent,
      plain_digits Nat.toDigits_ne_nil, ← toDigits_mul_pow pos', digits]

/-- A whole number has one text as a double and as an integer. -/
theorem write_ofInt {i : Int} (high : i.natAbs < 2 ^ 53) : Layout.plain.write (Double.ofInt i) = toString i := by
  obtain ⟨n, datum⟩ := Double.datum_ofInt high
  rw [← String.toList_inj, write_finite _ datum, plain_magnitude high, toList_toString]
  by_cases negative : i < 0
  · rw [if_pos negative, if_pos (decide_eq_true negative)]
  · rw [if_neg negative, if_neg (by simpa using negative)]

end Columnar.Decimal
