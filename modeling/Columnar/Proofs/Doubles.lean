import Columnar.Number.Double
import Mathlib

/-!
What doubles keep. Whole numbers of up to 53 bits survive the way there and back, adding zero changes nothing
but a negative zero, which no sum from zero on ever becomes, and nothing lies beyond the infinite numbers.

Mathlib is imported whole as the lemmas about packing and unpacking a float stand in none of its modules alone.
-/

namespace Columnar.Double

open Float.Model UnpackedFloat

theorem eq_of_bits {x y : Float} (h : x.toModel.toBits.toBitVec = y.toModel.toBits.toBitVec) : x = y :=
  Float.toBits_inj.1 (UInt64.toBitVec_inj.1 h)

theorem unpackExponent_toNat (b : UInt64) :
    (@unpackExponent Format.binary64 b.toBitVec).toNat = b.toNat % 2 ^ 63 / 2 ^ 52 := by
  have := b.toNat_lt
  simp [unpackExponent, Nat.shiftRight_eq_div_pow]
  omega

theorem unpackMantissa_toNat (b : UInt64) :
    (@unpackMantissa Format.binary64 b.toBitVec).toNat = b.toNat % 2 ^ 63 % 2 ^ 52 := by
  have := b.toNat_lt
  simp [unpackMantissa]

end Columnar.Double

namespace Columnar.Binary

theorem decode_double (n : Nat) : Format.double.decode n =
    if n % 2 ^ 63 / 2 ^ 52 = 0 then .finite (decide (2 ^ 63 ≤ n)) (n % 2 ^ 63 % 2 ^ 52) (-1074)
    else if n % 2 ^ 63 / 2 ^ 52 = 2047 then
      if n % 2 ^ 63 % 2 ^ 52 = 0 then .infinite (decide (2 ^ 63 ≤ n)) else .nan
    else .finite (decide (2 ^ 63 ≤ n)) (2 ^ 52 + n % 2 ^ 63 % 2 ^ 52) (-1074 + (n % 2 ^ 63 / 2 ^ 52 : Nat) - 1) :=
  rfl

theorem aligned_bounds {m : Nat} (pos : 0 < m) (high : m < 2 ^ 53) :
    2 ^ 52 ≤ m * 2 ^ (52 - m.log2) ∧ m * 2 ^ (52 - m.log2) < 2 ^ 53 := by
  have bits : m.log2 < 53 := (Nat.log2_lt pos.ne').2 high
  constructor
  · calc 2 ^ 52 = 2 ^ m.log2 * 2 ^ (52 - m.log2) := by
          rw [← Nat.pow_add, show m.log2 + (52 - m.log2) = 52 by omega]
      _ ≤ m * 2 ^ (52 - m.log2) := Nat.mul_le_mul_right _ (Nat.log2_self_le pos.ne')
  · calc m * 2 ^ (52 - m.log2) < 2 ^ (m.log2 + 1) * 2 ^ (52 - m.log2) :=
          Nat.mul_lt_mul_of_pos_right Nat.lt_log2_self (Nat.two_pow_pos _)
      _ = 2 ^ 53 := by rw [← Nat.pow_add, show m.log2 + 1 + (52 - m.log2) = 53 by omega]

theorem magnitude_whole {m : Nat} (pos : 0 < m) (high : m < 2 ^ 53) :
    Format.double.magnitude m 0 = (1022 + m.log2) * 2 ^ 52 + m * 2 ^ (52 - m.log2) := by
  have bits : m.log2 < 53 := (Nat.log2_lt pos.ne').2 high
  have below := (aligned_bounds pos high).2
  have precision : (Format.double.precision : Int) = 53 := rfl
  have least : Format.double.minExponent = -1074 := rfl
  have hidden : Format.double.hidden = 2 ^ 52 := rfl
  have top : Format.double.infinityBits = 2047 * 2 ^ 52 := rfl
  have exponent : max ((0 : Int) + m.log2 + 1 - 53) (-1074) = m.log2 - 52 := by omega
  have shift : (0 - ((m.log2 : Int) - 52)).toNat = 52 - m.log2 := by omega
  have field : ((m.log2 : Int) - 52 - -1074).toNat = 1022 + m.log2 := by omega
  have whole : (m.log2 : Int) - 52 ≤ 0 := by omega
  have size : (1022 + m.log2) * 2 ^ 52 + m * 2 ^ (52 - m.log2) ≤ 2047 * 2 ^ 52 := by omega
  unfold Format.magnitude
  rw [if_neg pos.ne']
  simp only [precision, least, hidden, top, exponent, shift, field]
  rw [if_pos whole, Nat.shiftLeft_eq]
  exact Nat.min_eq_left size

theorem decode_whole (negative : Bool) {m : Nat} (high : m < 2 ^ 53) :
    ∃ n : Nat, Format.double.decode (Format.double.encode negative m 0) = .finite negative (m * 2 ^ n) (-n) ∧
      Format.double.encode negative m 0 < 2 ^ 64 := by
  have encoded : Format.double.encode negative m 0 =
      (if negative then 2 ^ 63 else 0) + Format.double.magnitude m 0 := rfl
  rw [encoded]
  rcases Nat.eq_zero_or_pos m with rfl | pos
  · refine ⟨1074, ?_⟩
    rw [Nat.zero_mul]
    cases negative <;> decide
  · refine ⟨52 - m.log2, ?_⟩
    have bits : m.log2 < 53 := (Nat.log2_lt pos.ne').2 high
    obtain ⟨low, below⟩ := aligned_bounds pos high
    rw [magnitude_whole pos high, decode_double]
    generalize m * 2 ^ (52 - m.log2) = w at *
    have sign : decide (2 ^ 63 ≤ (if negative then 2 ^ 63 else 0) + ((1022 + m.log2) * 2 ^ 52 + w)) =
        negative := by
      cases negative
      · exact decide_eq_false (by rw [if_neg Bool.false_ne_true]; omega)
      · exact decide_eq_true (by rw [if_pos rfl]; omega)
    have rest : ((if negative then 2 ^ 63 else 0) + ((1022 + m.log2) * 2 ^ 52 + w)) % 2 ^ 63 =
        (1022 + m.log2) * 2 ^ 52 + w := by split <;> omega
    have field : ((1022 + m.log2) * 2 ^ 52 + w) / 2 ^ 52 = 1023 + m.log2 := by omega
    have fraction : ((1022 + m.log2) * 2 ^ 52 + w) % 2 ^ 52 = w - 2 ^ 52 := by omega
    have exponent : (-1074 : Int) + (1023 + m.log2 : Nat) - 1 = -(52 - m.log2 : Nat) := by omega
    rw [sign, rest, field, fraction, if_neg (by omega), if_neg (by omega), Nat.add_sub_cancel' low, exponent]
    exact ⟨rfl, by split <;> omega⟩

end Columnar.Binary

namespace Columnar.Double

open Binary Float.Model UnpackedFloat

theorem toBits_of_nan {x : Float} (h : datum x = .nan) : x.toBits = nan.toBits := by
  have valid := x.toModel.valid.eq_packedNaN
  rw [datum, decode_double] at h
  split_ifs at h with zero top none
  have full := valid (BitVec.eq_of_toNat_eq ((unpackExponent_toNat x.toBits).trans top)) fun zero =>
    none ((unpackMantissa_toNat x.toBits).symm.trans (congrArg BitVec.toNat zero))
  exact UInt64.toBitVec_inj.1 (full.trans (by decide))

theorem toBits_ofBits {b : UInt64} (h : Format.double.decode b.toNat ≠ .nan) : (Float.ofBits b).toBits = b := by
  have valid : Float.Model.Format.binary64.Valid b.toBitVec := by
    refine ⟨fun top payload => absurd ?_ h⟩
    have exponent : b.toNat % 2 ^ 63 / 2 ^ 52 = 2047 := (unpackExponent_toNat b).symm.trans (by rw [top]; rfl)
    have mantissa : b.toNat % 2 ^ 63 % 2 ^ 52 ≠ 0 := fun none =>
      payload (BitVec.eq_of_toNat_eq ((unpackMantissa_toNat b).trans none))
    rw [decode_double, exponent, if_neg (by decide), if_pos rfl, if_neg mantissa]
  exact UInt64.toBitVec_inj.1 (pack_unpack_of_valid valid)

theorem datum_ofBits {n : Nat} (h : Format.double.decode n ≠ .nan) (bound : n < 2 ^ 64) :
    datum (Float.ofBits (.ofNat n)) = Format.double.decode n := by
  have same : (UInt64.ofNat n).toNat = n := UInt64.toNat_ofNat_of_lt' bound
  rw [datum, toBits_ofBits (by rwa [same]), same]

theorem datum_ofInt {i : Int} (high : i.natAbs < 2 ^ 53) :
    ∃ n : Nat, datum (ofInt i) = .finite (i < 0) (i.natAbs * 2 ^ n) (-n) := by
  obtain ⟨n, decoded, bound⟩ := decode_whole (i < 0) high
  refine ⟨n, ?_⟩
  rw [ofInt, ofParts, datum_ofBits (by rw [decoded]; nofun) bound, decoded]

theorem truncate_ofInt {i lo hi : Int} (high : i.natAbs < 2 ^ 53) (hlo : lo ≤ i) (hhi : i ≤ hi) :
    truncate lo hi (ofInt i) = i := by
  obtain ⟨n, h⟩ := datum_ofInt high
  have whole : (if 0 ≤ -(n : Int) then (((i.natAbs * 2 ^ n) <<< (-(n : Int)).toNat : Nat) : Int)
      else ((i.natAbs * 2 ^ n) >>> (-(-(n : Int))).toNat : Nat)) = i.natAbs := by
    rcases Nat.eq_zero_or_pos n with rfl | pos
    · simp
    · rw [if_neg (by omega), Int.neg_neg, Int.toNat_natCast, Nat.shiftRight_eq_div_pow,
        Nat.mul_div_cancel _ (Nat.two_pow_pos n)]
  rw [truncate, h]
  simp only [whole, decide_eq_true_eq]
  split <;> omega

def Fits (m : Nat) (e : Int) : Prop := 0 < m ∧ m < 2 ^ 53 ∧ -1074 ≤ e

theorem mantissa_shiftRight (x : ExtendedMantissa) (n : Nat) : (x >>> n).mantissa = x.mantissa / 2 ^ n := by
  change (n.repeat ExtendedMantissa.shiftRightOne x).mantissa = _
  induction n with
  | zero => exact (Nat.div_one _).symm
  | succ n ih =>
    rw [Nat.repeat, ExtendedMantissa.shiftRightOne, ih, Nat.div_div_eq_div_mul, Nat.pow_succ]

theorem mantissa_of (m : Nat) (a : Accuracy) : (ExtendedMantissa.ofMantissaAndAccuracy m a).mantissa = m := by
  rcases a with _ | _ | _ | _ <;> rfl

theorem le_roundedMantissa (x : ExtendedMantissa) : x.mantissa ≤ x.roundedMantissa := by
  obtain ⟨m, _ | _, _ | _⟩ := x <;>
    simp [ExtendedMantissa.roundedMantissa, ExtendedMantissa.accuracy, Accuracy.roundToNearestEven]

theorem fits_shift {m : Nat} {e : Int} (a : Accuracy) (pos : 0 < m) (low : -1074 ≤ e) :
    Fits (shiftToTargetExponent .binary64 m e a).1.mantissa (shiftToTargetExponent .binary64 m e a).2 := by
  have target : Format.binary64.targetExponent (totalExponent m e) = max (m.log2 + 1 + e - 53) (-1074) := rfl
  simp only [shiftToTargetExponent, shiftToExponent, mantissa_shiftRight, mantissa_of, target]
  have least : 2 ^ m.log2 ≤ m := Nat.log2_self_le pos.ne'
  have bound : m < 2 ^ (m.log2 + 1) := Nat.lt_log2_self
  have amount : (max ((m.log2 : Int) + 1 + e - 53) (-1074) - e).toNat = m.log2 - 52 := by omega
  rw [amount]
  refine ⟨Nat.div_pos (le_trans (Nat.pow_le_pow_right (by decide) (Nat.sub_le _ _)) least) (Nat.two_pow_pos _), ?_,
    by omega⟩
  rw [Nat.div_lt_iff_lt_mul (Nat.two_pow_pos _), ← Nat.pow_add]
  exact lt_of_lt_of_le bound (Nat.pow_le_pow_right (by decide) (by omega))

theorem roundWithAccuracy_fits (s : Sign) {m : Nat} {e : Int} (a : Accuracy) (pos : 0 < m) (low : -1074 ≤ e) :
    ∃ m' e' h, roundWithAccuracy .binary64 s m e a = .finite s m' e' h ∧ Fits m' e' := by
  have first := fits_shift a pos low
  have second := fits_shift .exact (lt_of_lt_of_le first.1 (le_roundedMantissa _)) first.2.2
  exact ⟨_, _, second.1, dif_neg second.1.ne', second⟩

theorem round_fits (s : Sign) {m : Nat} {e : Int} (pos : 0 < m) (low : -1074 ≤ e) :
    ∃ m' e' h, UnpackedFloat.round .binary64 s m e = .finite s m' e' h ∧ Fits m' e' := by
  have target (t : Int) : Format.binary64.targetExponent t = max (t - 53) (-1074) := rfl
  refine roundWithAccuracy_fits s .exact ?_ ?_
  · rw [Nat.shiftLeft_eq]
    exact Nat.mul_pos pos (Nat.two_pow_pos _)
  · rw [target]
    omega

theorem pack_finite_ne (s : Sign) {m : Nat} {e : Int} {h : 0 < m} (fits : Fits m e) :
    UnpackedFloat.pack .binary64 (.finite s m e h) ≠ packedZero .binary64 .negative := by
  obtain ⟨-, high, low⟩ := fits
  have bias : (Format.binary64.exponentBias : Int) = 1023 := rfl
  have bits : Format.binary64.mantissaBits = 53 := rfl
  have zero (n : Nat) : BitVec.toNat (0 : BitVec n) = 0 := rfl
  intro eq
  have exponent := congrArg (fun b => (unpackExponent b).toNat) eq
  have mantissa := congrArg (fun b => (unpackMantissa b).toNat) eq
  simp only [UnpackedFloat.pack, packedZero, packedInfinity, bias, bits] at exponent mantissa
  split at exponent
  next => simp at exponent
  next notTop =>
    rw [if_neg notTop] at mantissa
    split at exponent
    next normal =>
      simp only [unpackExponent_packComponents, BitVec.toNat_ofNat, zero] at exponent
      omega
    next subnormal =>
      have small : m < 2 ^ 52 := (Nat.log2_lt h.ne').1 (by
        have := (Nat.log2_lt h.ne').2 high
        omega)
      rw [if_neg subnormal] at mantissa
      simp only [unpackMantissa_packComponents, BitVec.toNat_ofNat, zero] at mantissa
      omega

theorem low_of_unpack {b : BitVec Format.binary64.numBits} {s : Sign} {m : Nat} {e : Int} {h : 0 < m}
    (eq : UnpackedFloat.unpack .binary64 b = .finite s m e h) : -1074 ≤ e := by
  have bias : (Format.binary64.exponentBias : Int) = 1023 := rfl
  unfold UnpackedFloat.unpack at eq
  simp only [bias] at eq
  split_ifs at eq with top none bottom none
  · cases eq
    omega
  · have notZero : (unpackExponent b).toNat ≠ 0 := fun he => bottom (BitVec.eq_of_toNat_eq he)
    cases eq
    omega

theorem negativeZero_of_unpack {x : Float} (h : x.toModel.unpack = .zero .negative) : x = negativeZero :=
  eq_of_bits ((unpack_eq_zero_iff_of_valid x.toModel.valid).1 h)

theorem add_zero_of_ne {x : Float} (h : x ≠ negativeZero) : x + zero = x := by
  have same : UnpackedFloat.add .binary64 x.toModel.unpack (.zero .positive) = x.toModel.unpack := by
    cases eq : x.toModel.unpack with
    | zero s =>
      cases s with
      | positive => rfl
      | negative => exact absurd (negativeZero_of_unpack eq) h
    | _ => rfl
  have sum : (x + zero).toModel.toBits.toBitVec =
      UnpackedFloat.pack .binary64 (UnpackedFloat.add .binary64 x.toModel.unpack (.zero .positive)) := rfl
  exact eq_of_bits (sum.trans ((congrArg _ same).trans (pack_unpack_of_valid x.toModel.valid)))

theorem normalize_ne {m : Int} {e : Int} (low : -1074 ≤ e) :
    UnpackedFloat.pack .binary64 (UnpackedFloat.normalize .binary64 m e .positive) ≠
      packedZero .binary64 .negative := by
  unfold UnpackedFloat.normalize
  split
  next lt =>
    have := Int.compare_eq_lt.1 lt
    obtain ⟨_, _, _, eq, fits⟩ := round_fits .negative (m := (-m).toNat) (by omega) low
    exact eq ▸ pack_finite_ne .negative fits
  next => decide
  next gt =>
    have := Int.compare_eq_gt.1 gt
    obtain ⟨_, _, _, eq, fits⟩ := round_fits .positive (m := m.toNat) (by omega) low
    exact eq ▸ pack_finite_ne .positive fits

/-- A sum is a negative zero only if its first number is. -/
theorem add_ne_negativeZero {x : Float} (h : x ≠ negativeZero) (y : Float) : x + y ≠ negativeZero := by
  intro eq
  have packed : UnpackedFloat.pack .binary64 (UnpackedFloat.add .binary64 x.toModel.unpack y.toModel.unpack) =
      packedZero .binary64 .negative := congrArg (·.toModel.toBits.toBitVec) eq
  have own {z : Float} (hz : UnpackedFloat.pack .binary64 z.toModel.unpack = packedZero .binary64 .negative) :
      z = negativeZero :=
    eq_of_bits ((pack_unpack_of_valid z.toModel.valid).symm.trans hz)
  have nan : UnpackedFloat.pack .binary64 .notANumber ≠ packedZero .binary64 .negative := by decide
  have infinite (s : Sign) : UnpackedFloat.pack .binary64 (.infinity s) ≠ packedZero .binary64 .negative := by
    cases s <;> decide
  cases hx : x.toModel.unpack with
  | notANumber =>
    rw [hx] at packed
    exact nan packed
  | infinity s =>
    rw [hx] at packed
    cases hy : y.toModel.unpack with
    | notANumber => exact nan (by rwa [hy] at packed)
    | infinity t =>
      rw [hy, UnpackedFloat.add] at packed
      split at packed
      · exact infinite s packed
      · exact nan packed
    | _ => exact infinite s (by rwa [hy] at packed)
  | zero s =>
    cases s with
    | negative => exact h (negativeZero_of_unpack hx)
    | positive =>
      rw [hx] at packed
      cases hy : y.toModel.unpack with
      | notANumber => exact nan (by rwa [hy] at packed)
      | infinity t => exact infinite t (by rwa [hy] at packed)
      | zero t => cases t <;> exact absurd (hy ▸ packed) (by decide)
      | finite t n f pos =>
        have zero : y = negativeZero := own (by rwa [hy] at packed ⊢)
        rw [zero] at hy
        cases hy
  | finite s m e pos =>
    cases hy : y.toModel.unpack with
    | notANumber => exact nan (by rwa [hx, hy] at packed)
    | infinity t => exact infinite t (by rwa [hx, hy] at packed)
    | zero t => exact h (own (by rw [hx]; rwa [hx, hy] at packed))
    | finite t n f pos' =>
      rw [hx, hy] at packed
      have low := low_of_unpack hx
      have low' := low_of_unpack hy
      exact normalize_ne (le_min low low') packed

theorem lt_iff_unpack {x y : Float} : x < y ↔ x.toModel.unpack.lt y.toModel.unpack = true := by
  change decide (x.toModel < y.toModel) = true ↔ _
  exact decide_eq_true_iff

theorem not_infinity_lt (x : Float) : ¬ infinity < x := by
  have unpacked : infinity.toModel.unpack = .infinity .positive := rfl
  rw [lt_iff_unpack, unpacked]
  cases x.toModel.unpack with
  | infinity s => cases s <;> decide
  | _ => simp [UnpackedFloat.lt, UnpackedFloat.compare]

theorem not_lt_negativeInfinity (x : Float) : ¬ x < negativeInfinity := by
  have unpacked : negativeInfinity.toModel.unpack = .infinity .negative := rfl
  rw [lt_iff_unpack, unpacked]
  cases x.toModel.unpack with
  | infinity s => cases s <;> decide
  | zero s => cases s <;> decide
  | finite s m e => cases s <;> simp [UnpackedFloat.lt, UnpackedFloat.compare]
  | _ => simp [UnpackedFloat.lt, UnpackedFloat.compare]

end Columnar.Double
