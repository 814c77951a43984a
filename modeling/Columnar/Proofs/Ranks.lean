import Columnar.Join
import Columnar.Proofs.Tokens
import Mathlib.Algebra.Order.Ring.Int

namespace Columnar

structure Rank where
  last : Bool
  number : Int
  text : String
  deriving DecidableEq

namespace Rank

def order (a b : Rank) : Ordering :=
  (compare a.last b.last).then ((compare a.number b.number).then (compare a.text b.text))

instance : Std.TransCmp order :=
  inferInstanceAs (Std.TransCmp (compareLex (compareOn Rank.last)
    (compareLex (compareOn Rank.number) (compareOn Rank.text))))

def null : Rank := ⟨true, 0, ""⟩

theorem order_null_left {a : Rank} (h : a.last = false) : order null a = .gt := by
  rw [order, h]
  rfl

theorem order_null_right {a : Rank} (h : a.last = false) : order a null = .lt := by
  rw [order, h]
  rfl

def ofNumber (n : Int) : Rank := ⟨false, n, ""⟩

def ofText (s : String) : Rank := ⟨false, 0, s⟩

@[simp] theorem order_ofNumber (m n : Int) : order (ofNumber m) (ofNumber n) = compare m n := by
  simp [order, ofNumber]

@[simp] theorem order_ofText (s t : String) : order (ofText s) (ofText t) = compare s t := by
  simp [order, ofText]

end Rank

theorem compareOfLessAndEq_map [LT α] [DecidableLT α] [DecidableEq α] [LT β] [DecidableLT β] [DecidableEq β]
    {f : α → β} (lt : ∀ a b, a < b ↔ f a < f b) (eq : ∀ a b, a = b ↔ f a = f b) (a b : α) :
    compareOfLessAndEq a b = compareOfLessAndEq (f a) (f b) := by
  simp only [compareOfLessAndEq, lt, eq]

theorem compare_int64 (a b : Int64) : compare a b = compare a.toInt b.toInt :=
  compareOfLessAndEq_map (fun _ _ => Int64.lt_iff_toInt_lt) (fun _ _ => Int64.toInt_inj.symm) a b

theorem compare_int32 (a b : Int32) : compare a b = compare a.toInt b.toInt :=
  compareOfLessAndEq_map (fun _ _ => Int32.lt_iff_toInt_lt) (fun _ _ => Int32.toInt_inj.symm) a b

theorem compare_uint64 (a b : UInt64) : compare a b = compare (a.toNat : Int) b.toNat :=
  compareOfLessAndEq_map (f := fun x : UInt64 => (x.toNat : Int))
    (fun _ _ => UInt64.lt_iff_toNat_lt.trans Int.ofNat_lt.symm)
    (fun _ _ => UInt64.toNat_inj.symm.trans Int.ofNat_inj.symm) a b

namespace Double

theorem toNat_patternKey (bits : UInt64) :
    (patternKey bits).toNat = if bits.toNat < 2 ^ 63 then 2 ^ 63 + bits.toNat else 2 ^ 64 - 1 - bits.toNat := by
  have lt : bits < 0x8000000000000000 ↔ bits.toNat < 2 ^ 63 := UInt64.lt_iff_toNat_lt
  unfold patternKey
  by_cases h : bits.toNat < 2 ^ 63
  · rw [if_pos (lt.2 h), if_pos h, UInt64.toNat_or, Nat.or_comm]
    exact (Nat.two_pow_add_eq_or_of_lt h 1).symm
  · rw [if_neg (lt.not.2 h), if_neg h]
    exact UInt64.toNat_not bits

theorem patternKey_inj {a b : UInt64} : patternKey a = patternKey b ↔ a = b := by
  refine ⟨fun h => ?_, congrArg _⟩
  have key := congrArg UInt64.toNat h
  rw [toNat_patternKey, toNat_patternKey] at key
  have ha := a.toNat_lt
  have hb := b.toNat_lt
  apply UInt64.toNat_inj.1
  split at key <;> split at key <;> omega

theorem orderKey_eq_iff {x y : Float} (hx : isMissing x = false) (hy : isMissing y = false) :
    (orderKey x).toNat = (orderKey y).toNat ↔
      agree x y ∧ (isZero x → isZero y → x.toBits = y.toBits) := by
  rw [UInt64.toNat_inj, orderKey, orderKey, patternKey_inj]
  simp only [agree, hx, hy, Bool.not_false, Bool.true_and, Bool.or_eq_true, Bool.and_eq_true, beq_iff_eq]
  constructor
  · exact fun h => ⟨.inl h, fun _ _ => h⟩
  · rintro ⟨bits | ⟨hzx, hzy⟩, zeros⟩
    · exact bits
    · exact zeros hzx hzy

end Double

namespace Value

def rank : Value → Rank
  | int64 i => .ofNumber i.toInt
  | int32 i => .ofNumber i.toInt
  | float64 x => .ofNumber (Double.orderKey x).toNat
  | float32 x => .ofNumber (Double.orderKey (Single.widen x)).toNat
  | bool b => .ofNumber b.toNat
  | string s => .ofText s
  | category _ s => .ofText s

@[simp] theorem rank_last (v : Value) : v.rank.last = false := by cases v <;> rfl

theorem orderBool_eq (a b : Bool) : orderBool a b = compare (a.toNat : Int) b.toNat := by
  cases a <;> cases b <;> rfl

theorem order_eq_rank {v w : Value} (space : Join.sameSpace v.dtype w.dtype) (hv : v.isMissing = false)
    (hw : w.isMissing = false) : v.order w = v.rank.order w.rank := by
  cases v <;> cases w <;>
    simp_all [Join.sameSpace, dtype, order, isMissing, float?, int?, text?, DType.isInteger, DType.isFloat,
      DType.isStringLike, rank, compare_int64, compare_int32, Double.order, compare_uint64, orderBool_eq]
  all_goals rfl

def SignsAgree (v w : Value) : Prop :=
  ∀ x ∈ v.float?, ∀ y ∈ w.float?, Double.isZero x → Double.isZero y → x.toBits = y.toBits

theorem order_eq_iff {v w : Value} (space : Join.sameSpace v.dtype w.dtype) (hv : v.isMissing = false)
    (hw : w.isMissing = false) : v.order w = .eq ↔ v.same w ∧ v.SignsAgree w := by
  rw [order_eq_rank space hv hw]
  have across (i : Int64) (j : Int32) : i.toInt = j.toInt ↔ i = j.toInt64 := by
    rw [← Int32.toInt_toInt64, Int64.toInt_inj]
  cases v <;> cases w <;>
    simp_all [Join.sameSpace, dtype, SignsAgree, rank, same, isMissing, float?, int?, text?, DType.isInteger,
      DType.isFloat, DType.isStringLike, DType.isNumeric, agreeFloat,
      Double.orderKey_eq_iff, Int64.toInt_inj, Int32.toInt_inj]
  -- Integers that are equal across widths are one number, whose sign agrees with itself.
  case int32.int64 i j =>
    rw [eq_comm, across, eq_comm]
    exact (and_iff_left_of_imp fun h => by simp [← h]).symm
  case bool.bool a b =>
    cases a <;> cases b <;> simp

end Value

namespace Column

def rank (c : Column) (i : Nat) : Rank := (c.value? i).elim .null Value.rank

theorem order_eq_rank {c : Column} {i j : Nat} {v w : Value} (hv : c.value? i = some v) (hw : c.value? j = some w) :
    v.order w = v.rank.order w.rank :=
  Value.order_eq_rank (sameSpace_of_value? hv hw) (isMissing_of_value? hv) (isMissing_of_value? hw)

theorem orderRows_eq_rank {a b : Column} (space : Join.sameSpace a.dtype b.dtype) (i j : Nat) :
    a.orderRows i b j = (a.rank i).order (b.rank j) := by
  unfold orderRows rank
  cases hv : a.value? i with
  | none =>
    cases b.value? j with
    | none => rfl
    | some w => exact (Rank.order_null_left w.rank_last).symm
  | some v =>
    cases hw : b.value? j with
    | none => exact (Rank.order_null_right v.rank_last).symm
    | some w =>
      rw [← dtype_of_value? hv, ← dtype_of_value? hw] at space
      exact Value.order_eq_rank space (isMissing_of_value? hv) (isMissing_of_value? hw)

def SignsAgree (a : Column) (i : Nat) (b : Column) (j : Nat) : Prop :=
  ∀ x ∈ a.float? i, ∀ y ∈ b.float? j, Double.isZero x → Double.isZero y → x.toBits = y.toBits

instance (a : Column) (i : Nat) (b : Column) (j : Nat) : Decidable (a.SignsAgree i b j) :=
  inferInstanceAs (Decidable (∀ x ∈ a.float? i, ∀ y ∈ b.float? j,
    Double.isZero x → Double.isZero y → x.toBits = y.toBits))

theorem orderRows_eq_iff {a b : Column} (space : Join.sameSpace a.dtype b.dtype) {i j : Nat}
    (hi : a.isNull i = false) (hj : b.isNull j = false) :
    a.orderRows i b j = .eq ↔ a.joinEq i b j ∧ a.SignsAgree i b j := by
  obtain ⟨v, hv⟩ := Option.isSome_iff_exists.1 (Option.isNone_eq_false_iff.1 hi)
  obtain ⟨w, hw⟩ := Option.isSome_iff_exists.1 (Option.isNone_eq_false_iff.1 hj)
  rw [← dtype_of_value? hv, ← dtype_of_value? hw] at space
  simp only [orderRows, joinEq, SignsAgree, float?, hv, hw, held?_of_value? hv, held?_of_value? hw,
    orderOptional, Option.bind_some]
  exact Value.order_eq_iff space (isMissing_of_value? hv) (isMissing_of_value? hw)

end Column

end Columnar
