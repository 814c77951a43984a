import Columnar.Expr.Eval
import Columnar.Proofs.Outcome
import Columnar.Proofs.Stacking

namespace Columnar

def Value.bool? : Value → Option Bool
  | bool b => some b
  | _ => none

def Value.arith (op : ArithOp) : Value → Value → Option Value
  | float64 x, float64 y => some (float64 (op.apply x y))
  | float32 x, float32 y => some (float32 (op.apply x y))
  | int64 i, int64 j => some (int64 (op.apply i j))
  | int32 i, int32 j => some (int32 (op.apply i j))
  | _, _ => none

@[simp] theorem Value.reading_arith (op : ArithOp) (v w : Value) :
    (Value.arith op v.reading w.reading) = (Value.arith op v w).map (·.reading) := by
  cases v <;> cases w <;> rfl

theorem ArithOp.isNumeric_of_target {op : ArithOp} {s t u : DType} (h : op.target s t = .ok u) :
    u.isNumeric := by
  revert h
  cases op <;> cases s <;> cases t <;> cases u <;> decide

theorem ArithOp.ne_categorical_of_target {op : ArithOp} {s t u : DType} (h : op.target s t = .ok u) :
    u ≠ .categorical := by
  rintro rfl
  cases isNumeric_of_target h

namespace Column

def arithRows (op : ArithOp) (x y : Option Value) : Option Value := do Value.arith op (← x) (← y)

theorem reading_arithRows (op : ArithOp) (x y : Option Value) :
    arithRows op (x.map (·.reading)) (y.map (·.reading)) = (arithRows op x y).map (·.reading) := by
  cases x <;> cases y <;> simp [arithRows]

theorem map_both (op : ArithOp) {f : α → α → α} {value : α → Value}
    (h : ∀ x y, Value.arith op (value x) (value y) = some (value (f x y))) (x y : Option α) :
    (both f x y).map value = arithRows op (x.map value) (y.map value) := by
  cases x with
  | none => rfl
  | some x =>
    cases y with
    | none => rfl
    | some y => exact (h x y).symm

theorem join_zipWith_both (f : α → α → α) (xs ys : Array (Option α)) (i : Nat) :
    (xs.zipWith (both f) ys)[i]?.join = both f xs[i]?.join ys[i]?.join := by
  rw [Array.getElem?_zipWith]
  cases xs[i]? with
  | none => rfl
  | some x =>
    cases ys[i]? with
    | none => cases x <;> rfl
    | some y => rfl

theorem join_map_both (f : α → α → α) (xs : Array (Option α)) (y : Option α) (i : Nat) :
    (xs.map (both f · y))[i]?.join = both f xs[i]?.join y := by
  rw [Array.getElem?_map]
  cases xs[i]? <;> rfl

theorem combine_zipWith (op : ArithOp) {a b : Cells} (h : a.dtype = b.dtype) (hn : a.dtype.isNumeric)
    (hh : a.height = b.height) :
    let c := combine op a b fun f a b => a.zipWith f b
    c.dtype = a.dtype ∧ c.height = a.height ∧
      ∀ i, c.held? i = arithRows op (a.held? i) (b.held? i) := by
  have size {α : Type} (f : α → α → α) (xs ys : Array (Option α)) (hxy : xs.size = ys.size) :
      (xs.zipWith (both f) ys).size = xs.size := by simp [hxy]
  cases a <;> cases b <;> simp only [Cells.dtype, DType.isNumeric, DType.isFloat, DType.isInteger,
    Bool.or_self, Bool.false_eq_true, reduceCtorEq] at h hn
  all_goals
    refine ⟨rfl, size _ _ _ hh, fun i => ?_⟩
    simp only [combine, Cells.held?, join_zipWith_both]
    exact map_both op (fun _ _ => rfl) ..

theorem combine_map (op : ArithOp) {a b : Cells} (h : a.dtype = b.dtype) (hn : a.dtype.isNumeric) :
    let c := combine op a b fun f a b => a.map (f · b[0]?.join)
    c.dtype = a.dtype ∧ c.height = a.height ∧
      ∀ i, c.held? i = arithRows op (a.held? i) (b.held? 0) := by
  cases a <;> cases b <;> simp only [Cells.dtype, DType.isNumeric, DType.isFloat, DType.isInteger,
    Bool.or_self, Bool.false_eq_true, reduceCtorEq] at h hn
  all_goals
    refine ⟨rfl, Array.size_map, fun i => ?_⟩
    simp only [combine, Cells.held?, join_map_both]
    exact map_both op (fun _ _ => rfl) ..

theorem reads_of_held? {c a b : Column} {i j k : Nat} {op : ArithOp}
    (h : c.held? i = arithRows op (a.held? j) (b.held? k)) :
    c.reads i = arithRows op (a.reads j) (b.reads k) := by
  rw [reads, reads, reads, h, reading_arithRows]

theorem reads_of_null {c : Column} (h : c.dtype = .null) (i : Nat) : c.reads i = none := by
  obtain ⟨name, cells⟩ := c
  cases cells with
  | null => rfl
  | _ => cases h

theorem reads_cast_of_null {c : Column} (h : c.dtype = .null) (t : DType) (i : Nat) :
    (c.cast t).reads i = none := by
  rw [reads_cast, reads_of_null h]
  split <;> rfl

theorem reads_nulls (name : String) (n : Nat) (t : DType) (i : Nat) : (nulls name n t).reads i = none := by
  rw [reads, held?_nulls, Option.map_none]

theorem reads_full (name : String) (n : Nat) (v : Scalar) (i : Nat) :
    (full name n v).reads i = if i < n then (full "" 1 v).reads 0 else none := by
  cases v <;> simp [full, reads, held?, Cells.held?, Array.getElem?_replicate] <;> split <;> rfl

theorem checkHeights_eq_ok {l r : Column} (h : l.height = r.height) : checkHeights l r = .ok () := by
  rw [checkHeights, if_pos h]

theorem heights_of_check {l r : Column} (h : checkHeights l r = .ok ()) : l.height = r.height := by
  unfold checkHeights at h
  split at h
  · assumption
  · cases h

theorem arith_error {l r : Column} {op : ArithOp} {e : Error} (hh : l.height = r.height)
    (ht : op.target l.dtype r.dtype = .error e) : l.arith op r = .error e := by
  simp only [arith, checkHeights_eq_ok hh, ht, bind, Except.bind]

theorem arith_spec {l r : Column} {op : ArithOp} {t : DType} (hh : l.height = r.height)
    (ht : op.target l.dtype r.dtype = .ok t) :
    ∃ c, l.arith op r = .ok c ∧ c.dtype = t ∧ c.height = l.height ∧
      ∀ i, c.reads i = arithRows op ((l.cast t).reads i) ((r.cast t).reads i) := by
  simp only [arith, checkHeights_eq_ok hh, ht, pure, Except.pure, bind, Except.bind]
  split
  next null =>
    refine ⟨_, rfl, dtype_nulls .., height_nulls .., fun i => ?_⟩
    rw [reads_nulls]
    rcases null with hl | hr
    · rw [reads_cast_of_null hl]
      rfl
    · rw [reads_cast_of_null hr]
      cases (l.cast t).reads i <;> rfl
  · have numeric : (l.cast t).cells.dtype.isNumeric := by
      rw [show (l.cast t).cells.dtype = t from dtype_cast l t]
      exact ArithOp.isNumeric_of_target ht
    have heights : (l.cast t).cells.height = (r.cast t).cells.height :=
      (height_cast l t).trans (hh.trans (height_cast r t).symm)
    obtain ⟨dtype, height, held⟩ := combine_zipWith op ((dtype_cast l t).trans (dtype_cast r t).symm)
      numeric heights
    exact ⟨_, rfl, dtype.trans (dtype_cast l t), height.trans (height_cast l t), fun i =>
      reads_of_held? (held i)⟩

theorem arithScalar_error {l : Column} {op : ArithOp} {v : Scalar} {e : Error}
    (ht : op.target l.dtype v.dtype = .error e) : l.arithScalar op v = .error e := by
  simp only [arithScalar, ht, bind, Except.bind]

theorem arithScalar_spec {l : Column} {op : ArithOp} {v : Scalar} {t : DType}
    (ht : op.target l.dtype v.dtype = .ok t) :
    ∃ c, l.arithScalar op v = .ok c ∧ c.dtype = t ∧ c.height = l.height ∧
      ∀ i, c.reads i = if v.isNull then none else
        arithRows op ((l.cast t).reads i) (((full "" 1 v).cast t).reads 0) := by
  simp only [arithScalar, ht, pure, Except.pure, bind, Except.bind]
  split
  next null =>
    refine ⟨_, rfl, dtype_nulls .., height_nulls .., fun i => ?_⟩
    rw [reads_nulls]
    rcases null with hl | hv
    · rw [reads_cast_of_null hl]
      split <;> rfl
    · rw [if_pos hv]
  next other =>
    have numeric : (l.cast t).cells.dtype.isNumeric := by
      rw [show (l.cast t).cells.dtype = t from dtype_cast l t]
      exact ArithOp.isNumeric_of_target ht
    obtain ⟨dtype, height, held⟩ := combine_map op
      ((dtype_cast l t).trans (dtype_cast (full "" 1 v) t).symm) numeric
    refine ⟨_, rfl, dtype.trans (dtype_cast l t), height.trans (height_cast l t), fun i => ?_⟩
    rw [if_neg fun hv => other (.inr hv)]
    exact reads_of_held? (held i)

theorem sound_arith {l r c : Column} {op : ArithOp} (h : l.arith op r = .ok c) : c.Sound := by
  have checked := h
  obtain ⟨_, heights, checked⟩ := bind_eq_ok.1 checked
  obtain ⟨t, ht, -⟩ := bind_eq_ok.1 checked
  obtain ⟨d, hd, dtype, -⟩ := arith_spec (heights_of_check heights) ht
  cases hd.symm.trans h
  exact sound_of_dtype (dtype ▸ ArithOp.ne_categorical_of_target ht)

theorem sound_arithScalar {l c : Column} {op : ArithOp} {v : Scalar} (h : l.arithScalar op v = .ok c) :
    c.Sound := by
  have checked := h
  obtain ⟨t, ht, -⟩ := bind_eq_ok.1 checked
  obtain ⟨d, hd, dtype, -⟩ := arithScalar_spec ht
  cases hd.symm.trans h
  exact sound_of_dtype (dtype ▸ ArithOp.ne_categorical_of_target ht)

def compareReads (op : CmpOp) (x y : Option Value) : Option Bool :=
  compareValues op (x.filter (!·.isMissing)) (y.filter (!·.isMissing))

theorem compareValues_value? (op : CmpOp) (a b : Column) (i j : Nat) :
    compareValues op (a.value? i) (b.value? j) = compareReads op (a.reads i) (b.reads j) := by
  rw [compareReads, ← value?_of_held?, ← value?_of_held?]
  cases a.value? i <;> cases b.value? j <;> simp [compareValues]

theorem join_ofFn {n : Nat} (f : Nat → Option α) (h : ∀ i, n ≤ i → f i = none) (i : Nat) :
    (Array.ofFn fun i : Fin n => f i)[i]?.join = f i := by
  rw [Array.getElem?_ofFn]
  split
  · rfl
  next hi => exact (h i (Nat.le_of_not_lt hi)).symm

theorem join_replicate_none (n i : Nat) : (Array.replicate n (none : Option α))[i]?.join = none := by
  rw [Array.getElem?_replicate]
  split <;> rfl

theorem compare_error (op : CmpOp) {l r : Column} {e : Error} (hh : l.height = r.height)
    (ht : CmpOp.target l.dtype r.dtype = .error e) : l.compare op r = .error e := by
  simp only [Column.compare, checkHeights_eq_ok hh, ht, bind, Except.bind]

theorem compare_spec (op : CmpOp) {l r : Column} {t : DType} (hh : l.height = r.height)
    (ht : CmpOp.target l.dtype r.dtype = .ok t) :
    ∃ m, l.compare op r = .ok m ∧ m.size = l.height ∧
      ∀ i, m[i]?.join = compareReads op ((l.cast t).reads i) ((r.cast t).reads i) := by
  simp only [Column.compare, checkHeights_eq_ok hh, ht, pure, Except.pure, bind, Except.bind]
  split
  next null =>
    refine ⟨_, rfl, Array.size_replicate, fun i => ?_⟩
    rw [join_replicate_none, null, reads_of_null (dtype_cast l .null)]
    rfl
  · refine ⟨_, rfl, Array.size_ofFn, fun i => ?_⟩
    simp only [compareValues_value?]
    refine join_ofFn (fun i => compareReads op ((l.cast t).reads i) ((r.cast t).reads i)) (fun i hi => ?_) i
    rw [reads_eq_none ((height_cast l t).symm ▸ hi)]
    rfl

theorem compareScalar_error (op : CmpOp) {l : Column} {v : Scalar} {e : Error}
    (ht : CmpOp.target l.dtype v.dtype = .error e) : l.compareScalar op v = .error e := by
  simp only [compareScalar, ht, bind, Except.bind]

theorem compareScalar_spec (op : CmpOp) {l : Column} {v : Scalar} {t : DType}
    (ht : CmpOp.target l.dtype v.dtype = .ok t) :
    ∃ m, l.compareScalar op v = .ok m ∧ m.size = l.height ∧
      ∀ i, m[i]?.join = if v.isNull then none else
        compareReads op ((l.cast t).reads i) (((full "" 1 v).cast t).reads 0) := by
  simp only [compareScalar, ht, pure, Except.pure, bind, Except.bind]
  split
  next null =>
    refine ⟨_, rfl, Array.size_replicate, fun i => ?_⟩
    rw [join_replicate_none]
    rcases null with null | hv
    · rw [null, reads_of_null (dtype_cast l .null)]
      split <;> rfl
    · rw [if_pos hv]
  next other =>
    refine ⟨_, rfl, Array.size_ofFn, fun i => ?_⟩
    rw [if_neg fun hv => other (.inr hv)]
    simp only [compareValues_value?]
    refine join_ofFn (fun i => compareReads op ((l.cast t).reads i) (((full "" 1 v).cast t).reads 0))
      (fun i hi => ?_) i
    rw [reads_eq_none ((height_cast l t).symm ▸ hi)]
    rfl

theorem sound_choose {a b c : Column} {first : Nat → Bool} (h : a.choose b first = .ok c) : c.Sound := by
  obtain ⟨_, -, h⟩ := bind_eq_ok.1 h
  obtain ⟨rows, -, h⟩ := bind_eq_ok.1 h
  obtain rfl := pure_eq_ok.1 h
  exact sound_take (sound_stackOnto a [b]) _

theorem chosenRow_ok {n i : Nat} (short : n ≤ Frame.maxRows) (below : i < n) (first : Nat → Bool) :
    ∃ row, chosenRow (.ofNat n) first i = .ok row ∧ row.toNat = if first i then i else n + i := by
  have limit : n ≤ 2147483647 := short
  have words : UInt32.size = 4294967296 := rfl
  have height : (UInt32.ofNat n).toNat = n := UInt32.toNat_ofNat_of_lt' (by omega)
  have own : (UInt32.ofNat i).toNat = i := UInt32.toNat_ofNat_of_lt' (by omega)
  have fits : (UInt32.ofNat n).toNat + (UInt32.ofNat i).toNat < UInt32.size := by omega
  simp only [chosenRow, if_pos fits]
  split
  · exact ⟨_, rfl, own⟩
  · refine ⟨_, rfl, ?_⟩
    rw [UInt32.toNat_add, Nat.mod_eq_of_lt fits, height, own]

theorem choose_eq {a b : Column} (hh : a.height = b.height) (short : a.height ≤ Frame.maxRows) (first : Nat → Bool) :
    a.choose b first = .ok ((a.stackOnto [b]).gather
      ((List.range a.height).map fun i => if first i then i else a.height + i).toArray) := by
  have height : (UInt32.ofNat a.height).toNat = a.height :=
    UInt32.toNat_ofNat_of_lt' (Frame.lt_size_of_le_maxRows short le_rfl)
  obtain ⟨rows, ok, numbers⟩ := mapM_ok_map fun i hi => chosenRow_ok short (List.mem_range.1 hi) first
  simp only [choose, checkHeights_eq_ok hh, height, ok, numbers, bind, Except.bind, pure, Except.pure]

theorem choose_spec {a b : Column} (hh : a.height = b.height) (short : a.height ≤ Frame.maxRows)
    (first : Nat → Bool) :
    ∃ c, a.choose b first = .ok c ∧ c.dtype = a.dtype.common b.dtype ∧ c.height = a.height ∧
      ∀ i, c.reads i = if i < a.height then
        ((if first i then a else b).cast (a.dtype.common b.dtype)).reads i else none := by
  refine ⟨_, choose_eq hh short first, (dtype_take ..).trans (stackOnto_spec a [b]).1, ?_, fun i => ?_⟩
  · simp [gather, height_take]
  · rw [gather, reads_take, Array.getElem?_map, List.getElem?_toArray, List.getElem?_map]
    split
    next hi =>
      simp only [List.getElem?_range hi, Option.map_some, Option.join_some, Option.bind_some]
      split
      · rw [reads_stackOnto_upper a b hi]
      · rw [reads_stackOnto_lower]
    next hi =>
      rw [List.getElem?_eq_none (by simpa using hi)]
      rfl

end Column

end Columnar
