import Columnar.Proofs.Doubles
import Columnar.Proofs.RowByRow
import Columnar.Proofs.Typing

namespace Columnar

namespace Double

open Binary Float.Model

theorem datum_of_isMissing {x : Float} (h : isMissing x) : datum x = .nan := by
  have size : (magnitudeBits x).toNat = x.toBits.toNat % 2 ^ 63 := by
    rw [magnitudeBits, UInt64.toNat_and]
    exact Nat.and_two_pow_sub_one_eq_mod _ 63
  have high : 2047 * 2 ^ 52 < x.toBits.toNat % 2 ^ 63 := by
    rw [← size]
    exact UInt64.lt_iff_toNat_lt.1 (of_decide_eq_true h)
  rw [datum, decode_double, if_neg (by omega), if_pos (by omega), if_neg (by omega)]

theorem eq_nan_of_isMissing {x : Float} (h : isMissing x) : x = nan :=
  Float.toBits_inj.1 (toBits_of_nan (datum_of_isMissing h))

theorem apply_nan (op : ArithOp) (x : Float) : op.apply x nan = nan := by
  apply eq_of_bits
  cases op with
  | add =>
    change UnpackedFloat.pack .binary64 (.add .binary64 x.toModel.unpack .notANumber) = _
    cases x.toModel.unpack <;> rfl
  | sub =>
    change UnpackedFloat.pack .binary64 (.sub .binary64 x.toModel.unpack .notANumber) = _
    cases x.toModel.unpack <;> rfl
  | mul =>
    change UnpackedFloat.pack .binary64 (.mul .binary64 x.toModel.unpack .notANumber) = _
    cases x.toModel.unpack <;> rfl
  | div =>
    change UnpackedFloat.pack .binary64 (.div .binary64 x.toModel.unpack .notANumber) = _
    cases x.toModel.unpack <;> rfl

end Double

theorem Scalar.isNull_cases {v : Scalar} (h : v.isNull) : v = .null ∨ v = .float Double.nan := by
  cases v with
  | null => exact .inl rfl
  | float x => exact .inr (congrArg _ (Double.eq_nan_of_isMissing h))
  | _ => cases h

namespace Column

structure Equivalent (c d : Column) : Prop where
  name : c.name = d.name
  dtype : c.dtype = d.dtype
  height : c.height = d.height
  present : ∀ i, c.present? i = d.present? i

theorem Equivalent.same {c d : Column} (h : c.Equivalent d) : c.same d := by
  have rows (i : Nat) : c.groupEq i d i := by
    have present : (c.reads i).filter (!·.isMissing) = (d.reads i).filter (!·.isMissing) := h.present i
    rw [groupEq_eq, ← present, ← groupEq_eq]
    exact (groupEq_iff_token? c i i).2 rfl
  simp [Column.same, h.name, h.dtype, h.height, rows]

variable {l r c : Column} {v : Scalar}

theorem name_nulls (name : String) (n : Nat) (t : DType) : (nulls name n t).name = name := by
  cases t <;> rfl

theorem name_arith {op : ArithOp} (h : l.arith op r = .ok c) : c.name = l.name := by
  obtain ⟨_, -, h⟩ := bind_eq_ok.1 h
  obtain ⟨t, -, h⟩ := bind_eq_ok.1 h
  split at h
  · obtain rfl := pure_eq_ok.1 h
    exact name_nulls ..
  · obtain rfl := pure_eq_ok.1 h
    rfl

theorem name_arithScalar {op : ArithOp} (h : l.arithScalar op v = .ok c) : c.name = l.name := by
  obtain ⟨t, -, h⟩ := bind_eq_ok.1 h
  split at h
  · obtain rfl := pure_eq_ok.1 h
    exact name_nulls ..
  · obtain rfl := pure_eq_ok.1 h
    rfl

theorem reads_cast_full (name : String) (n : Nat) (v : Scalar) (t : DType) (i : Nat) :
    ((full name n v).cast t).reads i = if i < n then ((full "" 1 v).cast t).reads 0 else none := by
  have types : (full name n v).dtype = (full "" 1 v).dtype :=
    (has_full name n v).2.trans (has_full "" 1 v).2.symm
  rw [reads_cast, reads_cast, types, reads_full]
  split <;> split <;> rfl

theorem reads_cast_full_null (name : String) (n : Nat) (h : v.isNull) (t : DType) (i : Nat) :
    ((full name n v).cast t).reads i = none ∨ ((full name n v).cast t).reads i = some (.float64 Double.nan) := by
  rcases Scalar.isNull_cases h with rfl | rfl
  · exact .inl (reads_cast_of_null (has_full name n .null).2 t i)
  · rw [reads_cast_full, reads_cast]
    split
    · split
      · exact .inr rfl
      · change Value.castTo t (.float64 Double.nan) = none ∨ _
        exact .inl (by cases t <;> rfl)
    · exact .inl rfl

theorem filter_arithRows_null (op : ArithOp) (x : Option Value) (name : String) (n : Nat) (h : v.isNull)
    (t : DType) (i : Nat) :
    (arithRows op x (((full name n v).cast t).reads i)).filter (!·.isMissing) = none := by
  rcases reads_cast_full_null name n h t i with none | nan
  · rw [none]
    cases x <;> rfl
  · rw [nan]
    cases x with
    | none => rfl
    | some x =>
      cases x with
      | float64 x =>
        change Option.filter _ (some (Value.float64 (op.apply x Double.nan))) = none
        rw [Double.apply_nan]
        rfl
      | _ => rfl

theorem compareReads_null (op : CmpOp) (x : Option Value) (name : String) (n : Nat) (h : v.isNull)
    (t : DType) (i : Nat) : compareReads op x (((full name n v).cast t).reads i) = none := by
  have missing : (((full name n v).cast t).reads i).filter (!·.isMissing) = none := by
    rcases reads_cast_full_null name n h t i with none | nan
    · rw [none]
      rfl
    · rw [nan]
      rfl
  rw [compareReads, missing]
  cases x.filter (!·.isMissing) <;> rfl

variable (s : Column) (v : Scalar) (name : String)

theorem reads_beside (t : DType) (i : Nat) :
    (s.cast t).reads i = none ∨ ((full name s.height v).cast t).reads i = ((full "" 1 v).cast t).reads 0 := by
  rw [reads_cast_full]
  split
  · exact .inr rfl
  next out => exact .inl (reads_eq_none ((height_cast s t).symm ▸ Nat.le_of_not_lt out))

theorem arithScalar_full (op : ArithOp) :
    Coincides Equivalent (s.arithScalar op v) (s.arith op (full name s.height v)) := by
  obtain ⟨height, dtype⟩ := has_full name s.height v
  cases ht : op.target s.dtype v.dtype with
  | error e =>
    rw [arithScalar_error ht, arith_error height.symm (dtype ▸ ht)]
    exact .error e
  | ok t =>
    obtain ⟨c, hc, type, size, rows⟩ := arithScalar_spec ht
    obtain ⟨d, hd, type', size', rows'⟩ := arith_spec height.symm (dtype ▸ ht)
    rw [hc, hd]
    refine .ok ⟨(name_arithScalar hc).trans (name_arith hd).symm, type.trans type'.symm, size.trans size'.symm,
      fun i => ?_⟩
    rw [present?, present?, rows, rows']
    split
    next null => rw [filter_arithRows_null op _ name s.height null, Option.filter_none]
    next typed =>
      rcases reads_beside s v name t i with out | same
      · rw [out]
        rfl
      · rw [same]

theorem mask_ext {m k : Mask} (size : m.size = k.size) (answers : ∀ i : Nat, m[i]?.join = k[i]?.join) : m = k := by
  refine Array.ext size fun i hi hi' => ?_
  have same := answers i
  rwa [Array.getElem?_eq_getElem hi, Array.getElem?_eq_getElem hi'] at same

theorem compareScalar_full (op : CmpOp) : s.compareScalar op v = s.compare op (full name s.height v) := by
  obtain ⟨height, dtype⟩ := has_full name s.height v
  cases ht : CmpOp.target s.dtype v.dtype with
  | error e => rw [compareScalar_error op ht, compare_error op height.symm (dtype ▸ ht)]
  | ok t =>
    obtain ⟨m, hm, size, answers⟩ := compareScalar_spec op ht
    obtain ⟨k, hk, size', answers'⟩ := compare_spec op height.symm (dtype ▸ ht)
    rw [hm, hk]
    refine congrArg _ (mask_ext (size.trans size'.symm) fun i => ?_)
    rw [answers, answers']
    split
    next null => rw [compareReads_null op _ name s.height null]
    next typed =>
      rcases reads_beside s v name t i with out | same
      · rw [out]
        rfl
      · rw [same]

/-- Arithmetic and comparison do not tell a literal from the column that repeats it in every row. -/
theorem literal_as_column :
    (∀ op : ArithOp, Coincides (fun c d => c.Equivalent d ∧ c.same d)
      (s.arithScalar op v) (s.arith op (full name s.height v))) ∧
    ∀ op : CmpOp, s.compareScalar op v = s.compare op (full name s.height v) :=
  ⟨fun op => (arithScalar_full s v name op).mono fun _ _ h => ⟨h, h.same⟩, compareScalar_full s v name⟩

end Column

end Columnar
