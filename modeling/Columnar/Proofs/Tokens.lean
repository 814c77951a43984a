import Columnar.Proofs.Hashes

namespace Columnar

theorem Double.canonicalBits_of_isZero {x : Float} (h : isZero x) : canonicalBits x = 0 := if_pos h

theorem Double.isZero_of_canonicalBits {x : Float} (h : canonicalBits x = 0) : isZero x := by
  by_cases hx : isZero x
  · exact hx
  · have bits : x.toBits = 0 := (if_neg hx).symm.trans h
    simp [isZero, magnitudeBits, bits]

theorem Double.agree_iff_canonicalBits {x y : Float} (hx : isMissing x = false) (hy : isMissing y = false) :
    agree x y ↔ canonicalBits x = canonicalBits y := by
  refine ⟨canonicalBits_of_agree, fun h => ?_⟩
  by_cases zero : isZero x
  · have zero' : isZero y := isZero_of_canonicalBits (h ▸ canonicalBits_of_isZero zero)
    simp [agree, hx, hy, zero, zero']
  · have zero' : ¬ isZero y := fun hzy => zero (isZero_of_canonicalBits (h ▸ canonicalBits_of_isZero hzy))
    have bits : x.toBits = y.toBits := by rwa [canonicalBits, canonicalBits, if_neg zero, if_neg zero'] at h
    simp [agree, hx, hy, bits]

theorem toInt64_inj {i j : Int32} : i.toInt64 = j.toInt64 ↔ i = j :=
  ⟨fun h => by simpa using congrArg Int64.toInt32 h, congrArg _⟩

theorem toUInt64_inj {i j : Int64} : i.toUInt64 = j.toUInt64 ↔ i = j := by
  cases i
  cases j
  simp

namespace Value

/-- What equality looks at: a text, or a word that stands for a number. -/
def token : Value → UInt64 ⊕ String
  | int64 i => .inl i.toUInt64
  | int32 i => .inl i.toInt64.toUInt64
  | float64 x => .inl (Double.canonicalBits x)
  | float32 x => .inl (Double.canonicalBits (Single.widen x))
  | bool b => .inl (if b then 1 else 0)
  | string s => .inr s
  | category _ s => .inr s

theorem same_iff_token {v w : Value} (space : Join.sameSpace v.dtype w.dtype) (hv : v.isMissing = false)
    (hw : w.isMissing = false) : v.same w ↔ v.token = w.token := by
  cases v <;> cases w <;>
    simp_all [Join.sameSpace, dtype, same, isMissing, float?, int?, text?, agreeFloat, DType.isInteger,
      DType.isFloat, DType.isStringLike, DType.isNumeric, token, Double.agree_iff_canonicalBits,
      toUInt64_inj, toInt64_inj]
  case bool.bool a b => cases a <;> cases b <;> decide

end Value

namespace Column

def token? (c : Column) (i : Nat) : Option (UInt64 ⊕ String) := (c.value? i).map (·.token)

theorem held?_of_value? {c : Column} {i : Nat} {v : Value} (h : c.value? i = some v) : c.held? i = some v :=
  (Option.filter_eq_some_iff.1 h).1

theorem isMissing_of_value? {c : Column} {i : Nat} {v : Value} (h : c.value? i = some v) :
    v.isMissing = false := by simpa using (Option.filter_eq_some_iff.1 h).2

theorem dtype_of_value? {c : Column} {i : Nat} {v : Value} (h : c.value? i = some v) :
    v.dtype = c.dtype := dtype_of_held? (held?_of_value? h)

theorem sameSpace_of_value? {c : Column} {i j : Nat} {v w : Value} (hv : c.value? i = some v)
    (hw : c.value? j = some w) : Join.sameSpace v.dtype w.dtype := by
  simp [Join.sameSpace, dtype_of_value? hv, dtype_of_value? hw]

theorem same_iff_token? {c : Column} {i j : Nat} {v w : Value} (hv : c.value? i = some v)
    (hw : c.value? j = some w) : v.same w ↔ c.token? i = c.token? j := by
  rw [Value.same_iff_token (sameSpace_of_value? hv hw) (isMissing_of_value? hv) (isMissing_of_value? hw),
    token?, token?, hv, hw]
  exact Option.some_inj.symm

theorem groupEq_iff_token? (c : Column) (i j : Nat) : c.groupEq i c j ↔ c.token? i = c.token? j := by
  unfold groupEq
  cases hv : c.value? i with
  | none => cases hw : c.value? j <;> simp [token?, hv, hw]
  | some v =>
    cases hw : c.value? j with
    | none => simp [token?, hv, hw]
    | some w => exact same_iff_token? hv hw

end Column

end Columnar
