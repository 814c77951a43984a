import Columnar.Proofs.Broadcasting
import Columnar.Proofs.Extremes
import Columnar.Proofs.Wholes

/-!
Conversions to common types, one after the other. Upwards a value is never lost, and going by a type in between
makes a difference for texts alone: a truth value that became a number is written as one, and so is a whole number
that became a double, which need not have its digits.
-/

namespace Columnar

namespace DType

theorem common_assoc (r s t : DType) : (r.common s).common t = r.common (s.common t) := by
  cases r <;> cases s <;> cases t <;> rfl

theorem null_common (t : DType) : null.common t = t := by cases t <;> rfl

def Below (s t : DType) : Prop := s.common t = t

instance (s t : DType) : Decidable (s.Below t) := inferInstanceAs (Decidable (_ = _))

theorem below_common_left (s t : DType) : s.Below (s.common t) := by
  rw [Below, ← common_assoc, common_self]

theorem below_common_right (s t : DType) : t.Below (s.common t) := by
  rw [common_comm]
  exact below_common_left t s

theorem Below.trans {r s t : DType} (h : r.Below s) (h' : s.Below t) : r.Below t := calc
  r.common t = (r.common s).common t := by rw [common_assoc, h']
  _ = t := by rw [h, h']

/-- A type of values as they are read that a column of the other type can give: one below, or any for a dictionary,
which reads as texts. -/
def Fits (s t : DType) : Prop := s ≠ categorical ∧ s ≠ null ∧ (s.Below t ∨ t = categorical)

instance (s t : DType) : Decidable (s.Fits t) := inferInstanceAs (Decidable (_ ∧ _ ∧ _))

theorem Fits.mono {r s t : DType} (h : r.Fits s) (up : s.Below t) : r.Fits t := by
  refine ⟨h.1, h.2.1, ?_⟩
  rcases h.2.2 with below | rfl
  · exact .inl (below.trans up)
  · revert h up
    cases r <;> cases t <;> decide

def rises : DType → DType → Bool
  | bool, t => t.isNumeric
  | int32, int64 | int32, float64 | int64, float64 | float32, float64 => true
  | _, _ => false

theorem Fits.cases {s t : DType} (h : s.Fits t) : s = t ∨ t.isStringLike ∨ s.rises t := by
  revert h
  cases s <;> cases t <;> decide

theorem text_of_below {s t : DType} (h : s.isStringLike) (up : s.Below t) : t.isStringLike := by
  revert h up
  cases s <;> cases t <;> decide

theorem cases_of_rises {r s t : DType} (h : r.rises s) (up : s.Below t) : s = t ∨ t = string ∨ s.rises t := by
  revert h up
  cases r <;> cases s <;> cases t <;> decide

end DType

namespace Double

open Binary

theorem isMissing_ofInt (i : Int) : isMissing (ofInt i) = false := by
  have bound : Format.double.magnitude i.natAbs 0 ≤ 2047 * 2 ^ 52 := by
    unfold Format.magnitude
    split
    · exact Nat.zero_le _
    · exact Nat.min_le_right _ _
  have encoded : Format.double.encode (i < 0) i.natAbs 0 =
      (if decide (i < 0) then 2 ^ 63 else 0) + Format.double.magnitude i.natAbs 0 := rfl
  have number : Format.double.decode (Format.double.encode (i < 0) i.natAbs 0) ≠ .nan := by
    rw [encoded, decode_double]
    generalize Format.double.magnitude i.natAbs 0 = m at bound
    split_ifs <;> first | omega | simp
  by_contra missing
  have none := datum_of_isMissing (Bool.not_eq_false _ ▸ missing)
  rw [ofInt, ofParts, datum_ofBits number (by rw [encoded]; split <;> omega)] at none
  exact number none

end Double

namespace Value

def convert (t : DType) (v : Value) : Option Value := if v.dtype = t then some v else v.castTo t

/-- The text of a value is not the one that it has by way of another type: a truth value has become a number, or a
whole number has become a double that is not written with its digits. -/
def Blurs (s t : DType) (v : Value) : Prop :=
  t = .string ∧
    match v with
    | bool _ => s.isNumeric
    | int64 n => s = .float64 ∧ Decimal.Layout.plain.write (Double.ofInt n.toInt) ≠ toString n.toInt
    | _ => False

variable {v w : Value} {r s t : DType}

theorem convert_dtype (v : Value) : v.convert v.dtype = some v := if_pos rfl

theorem convert_text (h : v.dtype ≠ .categorical) (text : t.isStringLike) :
    v.convert t = v.plain?.map .string := by
  have cast : v.castTo t = v.plain?.map .string := by
    cases t with
    | string => rfl
    | categorical => rfl
    | _ => cases text
  unfold convert
  split
  next same =>
    cases v with
    | string s => rfl
    | category c s => exact absurd rfl h
    | _ => rw [← same] at text; cases text
  · exact cast

theorem plain?_eq_some (present : v.isMissing = false) : v.plain? = some v.scalar.plain := by
  rw [plain?, present]
  rfl

theorem convert_float32_float64 {x : Float32} (there : Double.isMissing (Single.widen x) = false) :
    (float32 x).convert .float64 = some (float64 (Single.widen x)) := by
  change (if Double.isMissing (Single.widen x) then none else some (Single.widen x)).map Value.float64 = _
  rw [there]
  rfl

theorem toInt64_ofInt (i : Int32) : toInt64 (Double.ofInt i.toInt) = i.toInt64 := by
  have low : -2 ^ 31 ≤ i.toInt := i.le_toInt
  have high : i.toInt < 2 ^ 31 := i.toInt_lt
  have least : Int64.minValue.toInt = -2 ^ 63 := rfl
  have most : Int64.maxValue.toInt = 2 ^ 63 - 1 := rfl
  have whole := Double.truncate_ofInt (i := i.toInt) (by omega) (show Int64.minValue.toInt ≤ i.toInt by omega)
    (show i.toInt ≤ Int64.maxValue.toInt by omega)
  rw [toInt64, whole, ← Int32.toInt_toInt64, Int64.ofInt_toInt]

theorem convert_int32_int64 (i : Int32) : (int32 i).convert .int64 = some (int64 i.toInt64) := by
  change some (Value.int64 (toInt64 (Double.ofInt i.toInt))) = _
  rw [toInt64_ofInt]

theorem write_int32 (i : Int32) : Decimal.Layout.plain.write (Double.ofInt i.toInt) = toString i.toInt := by
  have low : -2 ^ 31 ≤ i.toInt := i.le_toInt
  have high : i.toInt < 2 ^ 31 := i.toInt_lt
  exact Decimal.write_ofInt (by omega)

theorem exists_convert_of_rises (h : v.dtype.rises t) (present : v.isMissing = false) :
    ∃ w, v.convert t = some w ∧ w.isMissing = false ∧ w.dtype = t := by
  cases v with
  | bool b =>
    cases t with
    | float64 | float32 | int64 | int32 => exact ⟨_, rfl, by cases b <;> decide, rfl⟩
    | _ => cases h
  | int32 i =>
    cases t with
    | int64 => exact ⟨_, convert_int32_int64 i, rfl, rfl⟩
    | float64 => exact ⟨_, rfl, Double.isMissing_ofInt _, rfl⟩
    | _ => cases h
  | int64 i =>
    cases t with
    | float64 => exact ⟨_, rfl, Double.isMissing_ofInt _, rfl⟩
    | _ => cases h
  | float32 x =>
    cases t with
    | float64 => exact ⟨_, convert_float32_float64 present, present, rfl⟩
    | _ => cases h
  | _ => cases h

theorem exists_convert (h : v.dtype.Fits t) (present : v.isMissing = false) :
    ∃ w, v.convert t = some w ∧ w.isMissing = false ∧ w.dtype.Fits t := by
  rcases h.cases with same | text | rises
  · exact ⟨v, if_pos same, present, h⟩
  · refine ⟨.string v.scalar.plain, ?_, rfl, ?_⟩
    · rw [convert_text h.1 text, plain?_eq_some present]
      rfl
    · change DType.Fits .string t
      revert text
      cases t <;> decide
  · obtain ⟨w, hw, there, rfl⟩ := exists_convert_of_rises rises present
    refine ⟨w, hw, there, ?_⟩
    revert rises
    cases v.dtype <;> cases w.dtype <;> decide

theorem convert_of_rises (first : v.dtype.rises s) (second : s.rises t) (hw : v.convert s = some w) :
    w.convert t = v.convert t := by
  cases v with
  | bool b =>
    cases s with
    | int32 =>
      cases t with
      | int64 | float64 =>
        cases hw
        cases b <;> decide
      | _ => cases second
    | int64 | float32 =>
      cases t with
      | float64 =>
        cases hw
        cases b <;> decide
      | _ => cases second
    | float64 => cases second
    | _ => cases first
  | int32 i =>
    cases s with
    | int64 =>
      rw [convert_int32_int64] at hw
      cases hw
      cases t with
      | float64 =>
        change some (float64 (Double.ofInt i.toInt64.toInt)) = some (float64 (Double.ofInt i.toInt))
        rw [Int32.toInt_toInt64]
      | _ => cases second
    | float64 => cases second
    | _ => cases first
  | int64 i =>
    cases s with
    | float64 => cases second
    | _ => cases first
  | float32 x =>
    cases s with
    | float64 => cases second
    | _ => cases first
  | _ => cases first

theorem plain_of_rises (h : v.dtype.rises s) (present : v.isMissing = false) (clear : ¬ v.Blurs s .string)
    (hw : v.convert s = some w) : w.scalar.plain = v.scalar.plain := by
  cases v with
  | bool b => exact absurd ⟨rfl, h⟩ clear
  | int32 i =>
    cases s with
    | int64 =>
      rw [convert_int32_int64] at hw
      cases hw
      rfl
    | float64 =>
      cases hw
      exact (write_int32 i).trans (congrArg toString i.toInt_toInt64.symm)
    | _ => cases h
  | int64 i =>
    cases s with
    | float64 =>
      cases hw
      by_contra other
      exact clear ⟨rfl, rfl, other⟩
    | _ => cases h
  | float32 x =>
    cases s with
    | float64 =>
      rw [convert_float32_float64 present] at hw
      cases hw
      rfl
    | _ => cases h
  | _ => cases h

/-- Upwards two conversions are one, unless a text is blurred. -/
theorem convert_convert (h : v.dtype.Fits s) (up : s.Below t) (present : v.isMissing = false)
    (clear : ¬ v.Blurs s t) : (v.convert s).bind (·.convert t) = v.convert t := by
  rcases h.cases with rfl | text | rises
  · rw [convert_dtype]
    rfl
  · have text' := DType.text_of_below text up
    rw [convert_text h.1 text, convert_text h.1 text', plain?_eq_some present]
    exact convert_text (v := string v.scalar.plain) nofun text'
  · obtain ⟨w, hw, there, type⟩ := exists_convert_of_rises rises present
    rw [hw]
    change w.convert t = v.convert t
    rcases DType.cases_of_rises rises up with rfl | rfl | again
    · rw [hw, ← type, convert_dtype]
    · have number : w.dtype ≠ .categorical := by
        rw [type]
        revert rises
        cases v.dtype <;> cases s <;> decide
      rw [convert_text number rfl, convert_text h.1 rfl, plain?_eq_some present, plain?_eq_some there,
        plain_of_rises rises present clear hw]
    · exact convert_of_rises rises again hw

theorem convert_ne_of_blurs (h : v.dtype.Fits s) (present : v.isMissing = false) (blurred : v.Blurs s t) :
    (v.convert s).bind (·.convert t) ≠ v.convert t := by
  obtain ⟨rfl, blurred⟩ := blurred
  cases v with
  | bool b =>
    cases s with
    | float64 | float32 | int64 | int32 => cases b <;> decide
    | _ => cases blurred
  | int64 n =>
    obtain ⟨rfl, other⟩ := blurred
    intro same
    have number : (float64 (Double.ofInt n.toInt)).plain? = some (Decimal.Layout.plain.write (Double.ofInt n.toInt)) :=
      plain?_eq_some (v := float64 _) (Double.isMissing_ofInt _)
    have text : (float64 (Double.ofInt n.toInt)).plain?.map string = some (string (toString n.toInt)) := same
    rw [number] at text
    exact other (string.inj (Option.some.inj text))
  | _ => cases blurred

theorem not_blurs_dtype (v : Value) (t : DType) : ¬ v.Blurs v.dtype t := by
  rintro ⟨-, blurred⟩
  cases v with
  | bool b => cases blurred
  | int64 n => cases blurred.1
  | _ => exact blurred

theorem not_blurs_self (v : Value) (t : DType) : ¬ v.Blurs t t := by
  rintro ⟨rfl, blurred⟩
  cases v with
  | bool b => cases blurred
  | int64 n => cases blurred.1
  | _ => exact blurred

theorem eq_of_blurs_convert (h : v.dtype.Fits r) (present : v.isMissing = false) (hw : v.convert r = some w)
    (blurred : w.Blurs s t) : w = v := by
  obtain ⟨-, blurred⟩ := blurred
  rcases h.cases with rfl | text | rises
  · rw [convert_dtype] at hw
    exact (Option.some.inj hw).symm
  · rw [convert_text h.1 text, plain?_eq_some present] at hw
    cases hw
    cases blurred
  · cases v with
    | bool b =>
      cases r with
      | int64 =>
        cases hw
        cases b <;> exact absurd (by decide) blurred.2
      | float64 | float32 | int32 =>
        cases hw
        cases blurred
      | _ => cases rises
    | int32 i =>
      cases r with
      | int64 =>
        rw [convert_int32_int64] at hw
        cases hw
        exact absurd (by rw [Int32.toInt_toInt64, write_int32]) blurred.2
      | float64 =>
        cases hw
        cases blurred
      | _ => cases rises
    | int64 i =>
      cases r with
      | float64 =>
        cases hw
        cases blurred
      | _ => cases rises
    | float32 x =>
      cases r with
      | float64 =>
        rw [convert_float32_float64 present] at hw
        cases hw
        cases blurred
      | _ => cases rises
    | _ => cases rises

theorem Blurs.convert (blurred : v.Blurs s t) (h : v.dtype.Fits r) (up : r.Below s) (clear : ¬ v.Blurs r t)
    (hw : v.convert r = some w) : w.Blurs s t := by
  rcases h.cases with rfl | text | rises
  · rw [convert_dtype] at hw
    cases hw
    exact blurred
  · have text' := DType.text_of_below text up
    obtain ⟨-, blurred⟩ := blurred
    cases v with
    | bool b =>
      cases s with
      | string | categorical => cases blurred
      | _ => cases text'
    | int64 n =>
      cases blurred.1
      cases text'
    | _ => cases blurred
  · obtain ⟨rfl, blurred⟩ := blurred
    cases v with
    | bool b => exact absurd ⟨rfl, rises⟩ clear
    | int64 n =>
      cases r with
      | float64 => exact absurd ⟨rfl, rfl, blurred.2⟩ clear
      | _ => cases rises
    | _ => cases blurred

theorem Blurs.later (blurred : v.Blurs s t) (h : v.dtype.Fits r) (up : r.Below s) (present : v.isMissing = false)
    (hw : v.convert r = some w) (same : w.convert t = v.convert t) : w.Blurs s t := by
  refine blurred.convert h up (fun own => convert_ne_of_blurs h present own ?_) hw
  rw [hw]
  exact same

end Value

end Columnar
