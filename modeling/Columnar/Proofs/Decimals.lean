import Columnar.Number.Decimal
import Mathlib.Algebra.Order.Field.Power
import Mathlib.Algebra.Order.Ring.Rat
import Mathlib.Tactic.Linarith
import Mathlib.Tactic.NormNum
import Mathlib.Tactic.Positivity
import Mathlib.Tactic.Ring

namespace Columnar.Decimal

open Binary

theorem zpow_mul_pow_toNat {b : ℚ} (hb : b ≠ 0) (e : Int) : b ^ e * b ^ (-e).toNat = b ^ e.toNat := by
  rw [← zpow_natCast, ← zpow_natCast, ← zpow_add₀ hb]
  congr 1
  omega

def Digits.value (d : Digits) : ℚ := d.coefficient * (10 : ℚ) ^ d.exponent

/-- The order of an end and a value, which may be the end itself if that belongs to the interval. -/
def AtMost (closed : Bool) (a b : ℚ) : Prop := if closed then a ≤ b else a < b

namespace AtMost

variable {closed : Bool} {a b c : ℚ}

theorem of_lt (h : a < b) : AtMost closed a b := by
  cases closed
  · exact h
  · exact h.le

theorem le (h : AtMost closed a b) : a ≤ b := by
  cases closed
  · exact le_of_lt h
  · exact h

theorem not_le (h : ¬ AtMost closed a b) : b ≤ a := by
  cases closed
  · exact not_lt.1 h
  · exact (not_le.1 h).le

theorem mul_right_iff (hc : 0 < c) : AtMost closed (a * c) (b * c) ↔ AtMost closed a b := by
  cases closed
  · exact mul_lt_mul_iff_of_pos_right hc
  · exact mul_le_mul_iff_of_pos_right hc

theorem natCast_iff {m n : Nat} : AtMost closed (m : ℚ) n ↔ if closed then m ≤ n else m < n := by
  cases closed
  · exact Nat.cast_lt
  · exact Nat.cast_le

end AtMost

namespace Interval

def Contains (i : Interval) (x : ℚ) : Prop :=
  AtMost i.closed i.low (x * i.denominator) ∧ AtMost i.closed (x * i.denominator) i.high

structure Proper (i : Interval) : Prop where
  low : i.low < i.value
  high : i.value < i.high
  denominator : 0 < i.denominator

variable {i : Interval} {e : Int}

def finer (e : Int) : Nat := Nat.pow 10 (-e).toNat

theorem finer_pos (e : Int) : 0 < finer e := Nat.pow_pos (by decide)

/-- A point of a grid and the denominator, brought to whole numbers. -/
theorem point_mul_finer (i : Interval) (c : Nat) (e : Int) :
    Digits.value ⟨c, e⟩ * i.denominator * finer e = (c * (i.denominator * Nat.pow 10 e.toNat) : Nat) := by
  have shift := zpow_mul_pow_toNat (b := 10) (by norm_num) e
  simp only [Digits.value, finer, Nat.pow_eq]
  push_cast
  rw [← shift]
  ring

theorem low_atMost_iff (i : Interval) (c : Nat) (e : Int) :
    AtMost i.closed i.low (Digits.value ⟨c, e⟩ * i.denominator) ↔
      if i.closed then i.low * finer e ≤ c * (i.denominator * Nat.pow 10 e.toNat)
      else i.low * finer e < c * (i.denominator * Nat.pow 10 e.toNat) := by
  rw [← AtMost.mul_right_iff (Nat.cast_pos.2 (finer_pos e)), point_mul_finer, ← Nat.cast_mul, AtMost.natCast_iff]

theorem atMost_high_iff (i : Interval) (c : Nat) (e : Int) :
    AtMost i.closed (Digits.value ⟨c, e⟩ * i.denominator) i.high ↔
      if i.closed then c * (i.denominator * Nat.pow 10 e.toNat) ≤ i.high * finer e
      else c * (i.denominator * Nat.pow 10 e.toNat) < i.high * finer e := by
  rw [← AtMost.mul_right_iff (Nat.cast_pos.2 (finer_pos e)), point_mul_finer, ← Nat.cast_mul, AtMost.natCast_iff]

def pointBelow (i : Interval) (e : Int) : Nat := i.value * finer e / (i.denominator * Nat.pow 10 e.toNat)

theorem neighbour_cases {down up near : Prop} [Decidable down] [Decidable up] [Decidable near] {c : Nat}
    {found : Option Digits}
    (h : found = if down ∧ up then some ⟨if near then c else c + 1, e⟩
      else if down then some ⟨c, e⟩ else if up then some ⟨c + 1, e⟩ else none) :
    (∀ d ∈ found, d = ⟨c, e⟩ ∧ down ∨ d = ⟨c + 1, e⟩ ∧ up) ∧ (found = none → ¬ down ∧ ¬ up) := by
  by_cases hd : down <;> by_cases hu : up <;> by_cases hn : near <;> simp [h, hd, hu, hn]

theorem of_onGrid? {d : Digits} (h : i.onGrid? e = some d) :
    d = ⟨i.pointBelow e, e⟩ ∧ AtMost i.closed i.low (d.value * i.denominator) ∨
      d = ⟨i.pointBelow e + 1, e⟩ ∧ AtMost i.closed (d.value * i.denominator) i.high := by
  obtain ⟨rfl, down⟩ | ⟨rfl, up⟩ := (neighbour_cases (Eq.refl (i.onGrid? e))).1 d h
  · exact .inl ⟨rfl, (low_atMost_iff ..).2 down⟩
  · exact .inr ⟨rfl, (atMost_high_iff ..).2 up⟩

theorem of_onGrid?_none (h : i.onGrid? e = none) :
    ¬ AtMost i.closed i.low (Digits.value ⟨i.pointBelow e, e⟩ * i.denominator) ∧
      ¬ AtMost i.closed (Digits.value ⟨i.pointBelow e + 1, e⟩ * i.denominator) i.high := by
  obtain ⟨down, up⟩ := (neighbour_cases (Eq.refl (i.onGrid? e))).2 h
  exact ⟨fun below => down ((low_atMost_iff ..).1 below), fun above => up ((atMost_high_iff ..).1 above)⟩

theorem pointBelow_le (h : i.Proper) (e : Int) :
    Digits.value ⟨i.pointBelow e, e⟩ * i.denominator ≤ i.value ∧
      (i.value : ℚ) < Digits.value ⟨i.pointBelow e + 1, e⟩ * i.denominator := by
  have finer : (0 : ℚ) < finer e := Nat.cast_pos.2 (finer_pos e)
  rw [← mul_le_mul_iff_of_pos_right finer, ← mul_lt_mul_iff_of_pos_right finer, point_mul_finer,
    point_mul_finer, ← Nat.cast_mul, Nat.cast_le, Nat.cast_lt]
  have step : 0 < i.denominator * Nat.pow 10 e.toNat :=
    Nat.mul_pos h.denominator (Nat.pow_pos (by decide))
  exact ⟨Nat.div_mul_le_self .., (Nat.div_lt_iff_lt_mul step).1 (Nat.lt_succ_self _)⟩

theorem contains_of_onGrid? (h : i.Proper) {d : Digits} (hd : i.onGrid? e = some d) : i.Contains d.value := by
  obtain ⟨below, above⟩ := pointBelow_le h e
  obtain ⟨rfl, low⟩ | ⟨rfl, high⟩ := of_onGrid? hd
  · exact ⟨low, .of_lt (below.trans_lt (Nat.cast_lt.2 h.high))⟩
  · exact ⟨.of_lt ((Nat.cast_lt.2 h.low).trans above), high⟩

theorem width_le_of_onGrid? (h : i.onGrid? e = none) :
    (i.high : ℚ) - i.low ≤ (10 : ℚ) ^ e * i.denominator := by
  obtain ⟨below, above⟩ := of_onGrid?_none h
  have below := AtMost.not_le below
  have above := AtMost.not_le above
  simp only [Digits.value] at below above
  push_cast at above
  linarith

theorem pow_digitCount_le {n : Nat} (h : 0 < n) : 10 ^ (digitCount n - 1) ≤ n := by
  obtain single | several := Nat.eq_zero_or_pos (digitCount n - 1)
  · rw [single]
    exact h
  · by_contra small
    have := (Nat.length_toDigits_le_iff (by decide) several).2 (not_le.1 small)
    rw [← digitCount] at this
    omega

theorem zpow_point_le (h : i.Proper) : (10 : ℚ) ^ (i.point - 1) * i.denominator ≤ i.value := by
  let lift := i.denominator.log2 / 3 + 1
  let lifted := i.value * Nat.pow 10 lift / i.denominator
  have fits : i.denominator ≤ 10 ^ lift := calc
    i.denominator ≤ 2 ^ (i.denominator.log2 + 1) := Nat.lt_log2_self.le
    _ ≤ 2 ^ (3 * lift) := Nat.pow_le_pow_right (by decide) (by omega)
    _ = 8 ^ lift := Nat.pow_mul ..
    _ ≤ 10 ^ lift := Nat.pow_le_pow_left (by decide) _
  have positive : 0 < lifted :=
    Nat.div_pos (fits.trans (Nat.le_mul_of_pos_left _ (Nat.zero_lt_of_lt h.low))) h.denominator
  have digits : digitCount lifted = digitCount lifted - 1 + 1 :=
    (Nat.sub_add_cancel (List.length_pos_iff.2 Nat.toDigits_ne_nil)).symm
  have exponent : i.point - 1 = (digitCount lifted - 1 : Nat) - (lift : Int) := by
    have whole : i.point = digitCount lifted - (lift : Int) := rfl
    omega
  have bound : 10 ^ (digitCount lifted - 1) * i.denominator ≤ i.value * 10 ^ lift :=
    (Nat.mul_le_mul_right _ (pow_digitCount_le positive)).trans (Nat.div_mul_le_self ..)
  rw [exponent, zpow_sub₀ (by norm_num), zpow_natCast, zpow_natCast, div_mul_eq_mul_div,
    div_le_iff₀ (by positivity)]
  exact_mod_cast bound

end Interval

structure Normal (m : Nat) (q : Int) : Prop where
  pos : 0 < m
  bound : m < 2 ^ 53
  least : Format.double.minExponent ≤ q
  full : 2 ^ 52 ≤ m ∨ q = Format.double.minExponent

def below (m : Nat) (q : Int) : Nat :=
  if m == Format.double.hidden && Format.double.minExponent < q then 1 else 2

variable {m m' : Nat} {q q' : Int} {x : ℚ}

theorem below_cases (m : Nat) (q : Int) :
    below m q = 1 ∧ m = 2 ^ 52 ∧ Format.double.minExponent < q ∨
      below m q = 2 ∧ (m ≠ 2 ^ 52 ∨ q ≤ Format.double.minExponent) := by
  have hidden : Format.double.hidden = 2 ^ 52 := rfl
  simp only [below, hidden, Bool.and_eq_true, beq_iff_eq, decide_eq_true_eq]
  split <;> omega

namespace Interval

theorem proper_around (h : 0 < m) : (around .double m q).Proper where
  low := by
    have := below_cases m q
    change (4 * m - below m q) <<< _ < (4 * m) <<< _
    rw [Nat.shiftLeft_eq, Nat.shiftLeft_eq]
    exact Nat.mul_lt_mul_of_pos_right (by omega) (by positivity)
  high := by
    change (4 * m) <<< _ < (4 * m + 2) <<< _
    rw [Nat.shiftLeft_eq, Nat.shiftLeft_eq]
    exact Nat.mul_lt_mul_of_pos_right (by omega) (by positivity)
  denominator := by
    change 0 < 1 <<< _
    rw [Nat.shiftLeft_eq]
    positivity

theorem contains_around_iff : (around .double m q).Contains x ↔
    AtMost (m % 2 == 0) ((4 * m - below m q : Nat) * 2 ^ (q - 2)) x ∧
      AtMost (m % 2 == 0) x ((4 * m + 2 : Nat) * 2 ^ (q - 2)) := by
  have scale : ((1 <<< (2 - q).toNat : Nat) : ℚ) = 2 ^ (-(q - 2)).toNat := by
    rw [Nat.one_shiftLeft, Nat.cast_pow, neg_sub]
    rfl
  have quarters (n : Nat) : ((n <<< (q - 2).toNat : Nat) : ℚ) = n * 2 ^ (q - 2) * 2 ^ (-(q - 2)).toNat := by
    rw [mul_assoc, zpow_mul_pow_toNat (by norm_num), Nat.shiftLeft_eq, Nat.cast_mul, Nat.cast_pow]
    rfl
  have denominator : (0 : ℚ) < 2 ^ (-(q - 2)).toNat := by positivity
  have low : (around .double m q).low = (4 * m - below m q) <<< (q - 2).toNat := rfl
  have high : (around .double m q).high = (4 * m + 2) <<< (q - 2).toNat := rfl
  have same : (around .double m q).denominator = 1 <<< (2 - q).toNat := rfl
  rw [Contains, low, high, same, quarters, quarters, scale, AtMost.mul_right_iff denominator,
    AtMost.mul_right_iff denominator]
  rfl

end Interval

theorem onGrid?_seventeenth (h : Normal m q) :
    (Interval.around .double m q).onGrid? ((Interval.around .double m q).point - 16 - 1) ≠ none := by
  intro missing
  have proper := Interval.proper_around (q := q) h.pos
  generalize hi : Interval.around .double m q = i at missing proper
  have width := Interval.width_le_of_onGrid? missing
  have leading := Interval.zpow_point_le proper
  have tens : (10 : ℚ) ^ (i.point - 1) = 10 ^ (i.point - 16 - 1) * 10 ^ 16 := by
    rw [← zpow_natCast, ← zpow_add₀ (by norm_num)]
    congr 1
    omega
  have narrow : (i.high : ℚ) * 10 ^ 16 ≤ i.value + i.low * 10 ^ 16 := by
    rw [tens] at leading
    linarith
  have narrow : (4 * m + 2) <<< (q - 2).toNat * 10 ^ 16 ≤
      (4 * m) <<< (q - 2).toNat + (4 * m - below m q) <<< (q - 2).toNat * 10 ^ 16 := by
    subst hi
    exact_mod_cast narrow
  rw [Nat.shiftLeft_eq, Nat.shiftLeft_eq, Nat.shiftLeft_eq, mul_right_comm, mul_right_comm (4 * m - below m q),
    ← Nat.add_mul] at narrow
  have narrow := Nat.le_of_mul_le_mul_right narrow (by positivity)
  have bound := h.bound
  have pos := h.pos
  obtain ⟨quarter, least, -⟩ | ⟨half, -⟩ := below_cases m q
  · rw [quarter] at narrow
    omega
  · rw [half] at narrow
    omega

theorem contains_shortest (h : Normal m q) : (Interval.around .double m q).Contains (shortest m q).value := by
  simp only [shortest]
  cases found : (List.range 17).findSome? fun n : Nat =>
      (Interval.around .double m q).onGrid? ((Interval.around .double m q).point - n - 1) with
  | none => exact absurd (List.findSome?_eq_none_iff.1 found 16 (by decide)) (onGrid?_seventeenth h)
  | some d =>
    obtain ⟨n, -, hd⟩ := List.exists_of_findSome?_eq_some found
    exact Interval.contains_of_onGrid? (Interval.proper_around h.pos) hd

theorem shortest_pos (h : Normal m q) : 0 < (shortest m q).value := by
  have low := (Interval.contains_around_iff.1 (contains_shortest h)).1.le
  have positive : 0 < 4 * m - below m q := by
    have := h.pos
    have := below_cases m q
    omega
  exact lt_of_lt_of_le (by positivity) low

theorem Normal.ends_le (h : Normal m q) (h' : Normal m' q') (less : q < q' ∨ q = q' ∧ m < m') :
    ((4 * m + 2 : Nat) : ℚ) * 2 ^ (q - 2) ≤ (4 * m' - below m' q' : Nat) * 2 ^ (q' - 2) ∧
      (((4 * m + 2 : Nat) : ℚ) * 2 ^ (q - 2) < (4 * m' - below m' q' : Nat) * 2 ^ (q' - 2) ∨
        m % 2 = 1 ∨ m' % 2 = 1) := by
  have bound := h.bound
  have place : (0 : ℚ) < 2 ^ (q - 2) := by positivity
  obtain finer | ⟨rfl, less⟩ := less
  · have least := h.least
    have full := h'.full
    have low : 2 ^ 54 - 1 ≤ 4 * m' - below m' q' := by
      have := below_cases m' q'
      omega
    have doubled : (2 : ℚ) ^ (q - 2) * 2 ≤ 2 ^ (q' - 2) := by
      rw [← zpow_add_one₀ (by norm_num)]
      exact zpow_le_zpow_right₀ (by norm_num) (by omega)
    have twice : ((2 ^ 55 - 2 : Nat) : ℚ) * 2 ^ (q - 2) ≤ (4 * m' - below m' q' : Nat) * 2 ^ (q' - 2) := calc
      ((2 ^ 55 - 2 : Nat) : ℚ) * 2 ^ (q - 2) = (2 ^ 54 - 1 : Nat) * (2 ^ (q - 2) * 2) := by
        push_cast
        ring
      _ ≤ (4 * m' - below m' q' : Nat) * 2 ^ (q' - 2) := by gcongr
    obtain last | before : m = 2 ^ 53 - 1 ∨ 4 * m + 2 < 2 ^ 55 - 2 := by omega
    · subst last
      exact ⟨twice, .inr (.inl rfl)⟩
    · have : ((4 * m + 2 : Nat) : ℚ) * 2 ^ (q - 2) < (2 ^ 55 - 2 : Nat) * 2 ^ (q - 2) := by gcongr
      exact ⟨this.le.trans twice, .inl (this.trans_le twice)⟩
  · have := below_cases m' q
    rw [mul_le_mul_iff_of_pos_right place, mul_lt_mul_iff_of_pos_right place, Nat.cast_le, Nat.cast_lt]
    omega

theorem Normal.separate (h : Normal m q) (h' : Normal m' q') (less : q < q' ∨ q = q' ∧ m < m') {x' : ℚ}
    (hx : (Interval.around .double m q).Contains x) (hx' : (Interval.around .double m' q').Contains x') :
    x < x' := by
  obtain ⟨-, above⟩ := Interval.contains_around_iff.1 hx
  obtain ⟨below', -⟩ := Interval.contains_around_iff.1 hx'
  obtain ⟨ends, apart | odd | odd⟩ := h.ends_le h' less
  · exact above.le.trans_lt (apart.trans_le below'.le)
  · rw [odd] at above
    exact above.trans_le (ends.trans below'.le)
  · rw [odd] at below'
    exact (above.le.trans ends).trans_lt below'

/-- No value rounds to two numbers. -/
theorem Normal.unique (h : Normal m q) (h' : Normal m' q') (hx : (Interval.around .double m q).Contains x)
    (hx' : (Interval.around .double m' q').Contains x) : m = m' ∧ q = q' := by
  by_contra other
  obtain less | less : (q < q' ∨ q = q' ∧ m < m') ∨ q' < q ∨ q' = q ∧ m' < m := by omega
  · exact lt_irrefl x (h.separate h' less hx hx')
  · exact lt_irrefl x (h'.separate h less hx' hx)

theorem shortest_injective (h : Normal m q) (h' : Normal m' q')
    (same : (shortest m q).value = (shortest m' q').value) : m = m' ∧ q = q' :=
  h.unique h' (contains_shortest h) (same ▸ contains_shortest h')

end Columnar.Decimal
