import Columnar.Frame.Reshape
import Columnar.Proofs.Numerals
import Columnar.Proofs.Ranks
import Mathlib.Data.String.Basic

namespace Columnar

theorem Double.eq_iff_agree {x y : Float} (hx : isMissing x = false) (hy : isMissing y = false) :
    x = y ↔ agree x y ∧ (isZero x → isZero y → x.toBits = y.toBits) := by
  rw [← Float.toBits_inj, ← orderKey_eq_iff hx hy, UInt64.toNat_inj, orderKey, orderKey, patternKey_inj]

namespace Value

theorem plain_float {x y : Float} : (Scalar.float x).plain = (Scalar.float y).plain ↔ x = y :=
  ⟨Decimal.write_injective, fun h => by rw [h]⟩

theorem plain_int {i j : Int64} : (Scalar.int i).plain = (Scalar.int j).plain ↔ i = j :=
  ⟨fun same => Int64.toInt_inj.1 (Decimal.toString_injective same), fun h => by rw [h]⟩

theorem plain_eq_iff {v w : Value} (kind : v.dtype = w.dtype) (hv : v.isMissing = false)
    (hw : w.isMissing = false) : v.scalar.plain = w.scalar.plain ↔ v.same w ∧ v.SignsAgree w := by
  cases v <;> cases w <;> cases kind
  case float64.float64 x y =>
    simp_all [scalar, plain_float, same, SignsAgree, isMissing, float?, Double.eq_iff_agree]
  case float32.float32 x y =>
    simp_all [scalar, plain_float, same, SignsAgree, isMissing, float?, dtype, DType.isStringLike, DType.isInteger,
      DType.isNumeric, DType.isFloat, agreeFloat, Double.eq_iff_agree]
  case int64.int64 i j =>
    simp_all [scalar, plain_int, same, SignsAgree, float?]
  case int32.int32 i j =>
    simp_all [scalar, plain_int, toInt64_inj, same, SignsAgree, float?]
  case bool.bool a b =>
    cases a <;> cases b <;> simp [scalar, Scalar.plain, Scalar.boolText, same, SignsAgree, float?]
  case string.string s t =>
    simp [scalar, Scalar.plain, same, SignsAgree, float?]
  case category.category m s n t =>
    simp [scalar, Scalar.plain, same, SignsAgree, float?, dtype, DType.isStringLike, text?]

end Value

theorem Column.plain_eq_iff {c : Column} {i j : Nat} (hi : c.isNull i = false) (hj : c.isNull j = false) :
    (c.scalar i).plain = (c.scalar j).plain ↔ c.groupEq i c j ∧ c.SignsAgree i c j := by
  obtain ⟨v, hv⟩ := Option.isSome_iff_exists.1 (Option.isNone_eq_false_iff.1 hi)
  obtain ⟨w, hw⟩ := Option.isSome_iff_exists.1 (Option.isNone_eq_false_iff.1 hj)
  simp only [scalar, groupEq, SignsAgree, float?, hv, hw, held?_of_value? hv, held?_of_value? hw,
    Option.map_some, Option.getD_some, Option.bind_some]
  exact Value.plain_eq_iff ((dtype_of_value? hv).trans (dtype_of_value? hw).symm) (isMissing_of_value? hv)
    (isMissing_of_value? hw)

theorem eraseReps_spec [LinearOrder α] {xs : List α} (h : xs.Pairwise (· ≤ ·)) :
    xs.eraseReps.Pairwise (· < ·) ∧ ∀ x, x ∈ xs.eraseReps ↔ x ∈ xs := by
  -- The elements seen so far come in reverse, the latest of them apart.
  have loop (a : α) (xs seen : List α) (sorted : (a :: xs).Pairwise (· ≤ ·)) (strict : (a :: seen).Pairwise (· > ·)) :
      (List.eraseRepsBy.loop (· == ·) a xs seen).Pairwise (· < ·) ∧
        ∀ x, x ∈ List.eraseRepsBy.loop (· == ·) a xs seen ↔ x ∈ seen ∨ x ∈ a :: xs := by
    induction xs generalizing a seen with
    | nil =>
      rw [List.eraseRepsBy.loop, List.pairwise_reverse]
      exact ⟨strict, by simp [or_comm]⟩
    | cons b xs ih =>
      obtain ⟨first, rest⟩ := List.pairwise_cons.1 sorted
      rw [List.eraseRepsBy.loop]
      by_cases same : a = b
      · subst same
        obtain ⟨pairwise, mem⟩ := ih a seen rest strict
        simp only [BEq.rfl]
        exact ⟨pairwise, fun x => by simp [mem]⟩
      · have lt : a < b := lt_of_le_of_ne (first b List.mem_cons_self) same
        obtain ⟨pairwise, mem⟩ := ih b (a :: seen) rest
          (List.pairwise_cons.2 ⟨List.forall_mem_cons.2 ⟨lt, fun x hx =>
            ((List.pairwise_cons.1 strict).1 x hx).trans lt⟩, strict⟩)
        rw [beq_eq_false_iff_ne.2 same]
        exact ⟨pairwise, fun x => by simp [mem, or_left_comm, or_assoc]⟩
  cases xs with
  | nil => exact ⟨.nil, fun _ => .rfl⟩
  | cons a xs =>
    obtain ⟨pairwise, mem⟩ := loop a xs [] h (List.pairwise_singleton _ a)
    exact ⟨pairwise, fun x => (mem x).trans (by simp)⟩

theorem Frame.sortedTexts_spec (ss : List String) :
    (sortedTexts ss).Pairwise (· < ·) ∧ ∀ s, s ∈ sortedTexts ss ↔ s ∈ ss := by
  obtain ⟨pairwise, mem⟩ := eraseReps_spec (List.sortedLE_mergeSort (l := ss)).pairwise
  exact ⟨pairwise, fun s => (mem s).trans List.mem_mergeSort⟩

end Columnar
