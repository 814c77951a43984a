import Columnar.Proofs.Framing
import Columnar.Proofs.Rowwise

/-!
Expressions are evaluated row by row: over a frame that holds picked rows of another one they give the
picked rows of what they give there, and look at no other columns than those that they name.
-/

namespace Columnar

/-- Rows picked from so many, where both are no more than a frame may have. -/
structure Picking (n : Nat) (rows : List Nat) : Prop where
  below : ∀ i ∈ rows, i < n
  tall : n ≤ Frame.maxRows
  fewer : rows.length ≤ Frame.maxRows

theorem Picking.all {n : Nat} (tall : n ≤ Frame.maxRows) : Picking n (List.range n) :=
  ⟨fun _ => List.mem_range.1, tall, List.length_range.symm ▸ tall⟩

theorem Frame.Capped.picking {f : Frame} (hf : f.Capped) {rows : List Nat} (below : ∀ i ∈ rows, i < f.height)
    (fewer : rows.length ≤ f.height) : Picking f.height rows :=
  ⟨below, hf.short, Nat.le_trans fewer hf.short⟩

structure Mask.Local (n : Nat) (rows : List Nat) (m m' : Mask) : Prop where
  height : m.size = n
  size : m'.size = rows.length
  answers (i : Nat) : m'[i]?.join = rows[i]?.bind fun j : Nat => m[j]?.join

namespace Column

structure Local (n : Nat) (rows : List Nat) (c d : Column) : Prop where
  height : c.height = n
  picks : Picks rows c d

namespace Local

variable {n : Nat} {rows : List Nat} {l l' r r' : Column}

theorem heights (hl : Local n rows l l') (hr : Local n rows r r') :
    l.height = r.height ∧ l'.height = r'.height :=
  ⟨hl.height.trans hr.height.symm, hl.picks.height.trans hr.picks.height.symm⟩

theorem cast (h : Local n rows l l') (t : DType) : Local n rows (l.cast t) (l'.cast t) :=
  ⟨(height_cast l t).trans h.height, h.picks.cast t⟩

theorem rename (h : Local n rows l l') (a b : String) : Local n rows (l.rename a) (l'.rename b) :=
  ⟨h.height, h.picks.dtype, h.picks.height, h.picks.reads⟩

theorem bind_both (f : Option α → Option α → Option β) (hf : f none none = none) (i : Nat)
    (g g' : Nat → Option α) : f (rows[i]?.bind g) (rows[i]?.bind g') = rows[i]?.bind fun j => f (g j) (g' j) := by
  cases rows[i]? with
  | none => exact hf
  | some j => rfl

theorem arith (hl : Local n rows l l') (hr : Local n rows r r') (op : ArithOp) :
    Agrees (Local n rows) (l.arith op r) (l'.arith op r') := by
  obtain ⟨heights, heights'⟩ := hl.heights hr
  have types : op.target l'.dtype r'.dtype = op.target l.dtype r.dtype := by
    rw [hl.picks.dtype, hr.picks.dtype]
  cases ht : op.target l.dtype r.dtype with
  | error e =>
    rw [arith_error heights ht, arith_error heights' (types.trans ht)]
    exact .error e e
  | ok t =>
    obtain ⟨c, hc, dtype, height, reads⟩ := arith_spec heights ht
    obtain ⟨c', hc', dtype', height', reads'⟩ := arith_spec heights' (types.trans ht)
    rw [hc, hc']
    refine .ok ⟨height.trans hl.height, dtype'.trans dtype.symm, height'.trans hl.picks.height,
      fun i => ?_⟩
    rw [reads', (hl.cast t).picks.reads, (hr.cast t).picks.reads, bind_both (arithRows op) rfl]
    exact congrArg _ (funext fun j => (reads j).symm)

theorem arithScalar (hl : Local n rows l l') (op : ArithOp) (v : Scalar) :
    Agrees (Local n rows) (l.arithScalar op v) (l'.arithScalar op v) := by
  have types : op.target l'.dtype v.dtype = op.target l.dtype v.dtype := by rw [hl.picks.dtype]
  cases ht : op.target l.dtype v.dtype with
  | error e =>
    rw [arithScalar_error ht, arithScalar_error (types.trans ht)]
    exact .error e e
  | ok t =>
    obtain ⟨c, hc, dtype, height, reads⟩ := arithScalar_spec ht
    obtain ⟨c', hc', dtype', height', reads'⟩ := arithScalar_spec (types.trans ht)
    rw [hc, hc']
    refine .ok ⟨height.trans hl.height, dtype'.trans dtype.symm, height'.trans hl.picks.height,
      fun i => ?_⟩
    rw [reads', (hl.cast t).picks.reads]
    cases rows[i]? with
    | none => split <;> rfl
    | some j => exact (reads j).symm

theorem compare (hl : Local n rows l l') (hr : Local n rows r r') (op : CmpOp) :
    Agrees (Mask.Local n rows) (l.compare op r) (l'.compare op r') := by
  obtain ⟨heights, heights'⟩ := hl.heights hr
  have types : CmpOp.target l'.dtype r'.dtype = CmpOp.target l.dtype r.dtype := by
    rw [hl.picks.dtype, hr.picks.dtype]
  cases ht : CmpOp.target l.dtype r.dtype with
  | error e =>
    rw [compare_error op heights ht, compare_error op heights' (types.trans ht)]
    exact .error e e
  | ok t =>
    obtain ⟨m, hm, size, answers⟩ := compare_spec op heights ht
    obtain ⟨m', hm', size', answers'⟩ := compare_spec op heights' (types.trans ht)
    rw [hm, hm']
    refine .ok ⟨size.trans hl.height, size'.trans hl.picks.height, fun i => ?_⟩
    rw [answers', (hl.cast t).picks.reads, (hr.cast t).picks.reads, bind_both (compareReads op) rfl]
    exact congrArg _ (funext fun j => (answers j).symm)

theorem compareScalar (hl : Local n rows l l') (op : CmpOp) (v : Scalar) :
    Agrees (Mask.Local n rows) (l.compareScalar op v) (l'.compareScalar op v) := by
  have types : CmpOp.target l'.dtype v.dtype = CmpOp.target l.dtype v.dtype := by rw [hl.picks.dtype]
  cases ht : CmpOp.target l.dtype v.dtype with
  | error e =>
    rw [compareScalar_error op ht, compareScalar_error op (types.trans ht)]
    exact .error e e
  | ok t =>
    obtain ⟨m, hm, size, answers⟩ := compareScalar_spec op ht
    obtain ⟨m', hm', size', answers'⟩ := compareScalar_spec op (types.trans ht)
    rw [hm, hm']
    refine .ok ⟨size.trans hl.height, size'.trans hl.picks.height, fun i => ?_⟩
    rw [answers', (hl.cast t).picks.reads]
    cases rows[i]? with
    | none => split <;> rfl
    | some j => exact (answers j).symm

theorem choose (hl : Local n rows l l') (hr : Local n rows r r') {first first' : Nat → Bool}
    (picking : Picking n rows) (same : ∀ i j, rows[i]? = some j → first' i = first j) :
    Agrees (Local n rows) (l.choose r first) (l'.choose r' first') := by
  obtain ⟨heights, heights'⟩ := hl.heights hr
  obtain ⟨c, hc, dtype, height, reads⟩ := choose_spec heights (hl.height ▸ picking.tall) first
  obtain ⟨c', hc', dtype', height', reads'⟩ := choose_spec heights' (hl.picks.height ▸ picking.fewer) first'
  rw [hc, hc']
  refine .ok ⟨height.trans hl.height, ?_, height'.trans hl.picks.height, fun i => ?_⟩
  · rw [dtype, dtype', hl.picks.dtype, hr.picks.dtype]
  · rw [reads', hl.picks.height, hl.picks.dtype, hr.picks.dtype]
    cases hi : rows[i]? with
    | none =>
      rw [if_neg (Nat.not_lt.2 (List.getElem?_eq_none_iff.1 hi))]
      rfl
    | some j =>
      have hj : j < l.height := hl.height.symm ▸ picking.below j (List.mem_of_getElem? hi)
      rw [if_pos (List.getElem?_eq_some_iff.1 hi).1, same i j hi, Option.bind_some, reads, if_pos hj]
      split
      · rw [(hl.cast _).picks.reads, hi, Option.bind_some]
      · rw [(hr.cast _).picks.reads, hi, Option.bind_some]

theorem isNull (h : Local n rows l l') {i j : Nat} (hij : rows[i]? = some j) :
    l'.isNull i = l.isNull j := by
  rw [isNull_eq, isNull_eq, h.picks.reads, hij, Option.bind_some]

theorem nullMask (h : Local n rows l l') (below : ∀ i ∈ rows, i < n) :
    Mask.Local n rows l.nullMask l'.nullMask := by
  refine ⟨Array.size_ofFn.trans h.height, Array.size_ofFn.trans h.picks.height, fun i => ?_⟩
  rw [Column.nullMask, Array.getElem?_ofFn, h.picks.height]
  cases hi : rows[i]? with
  | none =>
    rw [dif_neg (Nat.not_lt.2 (List.getElem?_eq_none_iff.1 hi))]
    rfl
  | some j =>
    have hj : j < l.height := h.height.symm ▸ below j (List.mem_of_getElem? hi)
    rw [dif_pos (List.getElem?_eq_some_iff.1 hi).1, Option.bind_some, Column.nullMask,
      Array.getElem?_ofFn, dif_pos hj, h.isNull hi]

theorem full (h : rows.length = n') (below : ∀ i ∈ rows, i < n) (name : String) (v : Scalar) :
    Local n rows (Column.full name n v) (Column.full name n' v) := by
  have height (m : Nat) : (Column.full name m v).height = m := by
    cases v <;> simp [Column.full, Column.height, Cells.height]
  refine ⟨height n, ?_, (height n').trans h.symm, fun i => ?_⟩
  · cases v <;> rfl
  · rw [reads_full, ← h]
    cases hi : rows[i]? with
    | none =>
      rw [if_neg (Nat.not_lt.2 (List.getElem?_eq_none_iff.1 hi))]
      rfl
    | some j =>
      rw [if_pos (List.getElem?_eq_some_iff.1 hi).1, Option.bind_some, reads_full name n v j,
        if_pos (below j (List.mem_of_getElem? hi))]

theorem ofMask {m m' : Mask} (h : Mask.Local n rows m m') (name : String) :
    Local n rows (Column.ofMask name m) (Column.ofMask name m') := by
  refine ⟨h.height, rfl, h.size, fun i => ?_⟩
  simp only [Column.reads, Column.ofMask, Column.held?, Cells.held?, h.answers]
  cases rows[i]? <;> rfl

end Local

end Column

namespace Mask.Local

variable {n : Nat} {rows : List Nat} {m m' k k' : Mask}

theorem not (h : Mask.Local n rows m m') : Mask.Local n rows m.not m'.not := by
  have answers (m : Mask) (i : Nat) : m.not[i]?.join = m[i]?.join.map (!·) := by
    rw [Mask.not, Array.getElem?_map]
    cases m[i]? <;> rfl
  refine ⟨Array.size_map.trans h.height, Array.size_map.trans h.size, fun i => ?_⟩
  rw [answers, h.answers]
  cases rows[i]? with
  | none => rfl
  | some j => exact (answers m j).symm

theorem join_zipWith {f : Option Bool → Option Bool → Option Bool} {m k : Mask} {i : Nat}
    (hm : i < m.size) (hk : i < k.size) : (m.zipWith f k)[i]?.join = f m[i]?.join k[i]?.join := by
  rw [Array.getElem?_zipWith, Array.getElem?_eq_getElem hm, Array.getElem?_eq_getElem hk]
  rfl

theorem zipWith (hm : Mask.Local n rows m m') (hk : Mask.Local n rows k k') (below : ∀ i ∈ rows, i < n)
    (f : Option Bool → Option Bool → Option Bool) :
    Mask.Local n rows (m.zipWith f k) (m'.zipWith f k') := by
  refine ⟨by simp [hm.height, hk.height], by simp [hm.size, hk.size], fun i => ?_⟩
  cases hi : rows[i]? with
  | none =>
    have out : (m'.zipWith f k').size ≤ i := by
      simpa [hm.size, hk.size] using List.getElem?_eq_none_iff.1 hi
    rw [Array.getElem?_eq_none out]
    rfl
  | some j =>
    have hj := below j (List.mem_of_getElem? hi)
    have hi' := (List.getElem?_eq_some_iff.1 hi).1
    rw [Option.bind_some, join_zipWith (hm.size.symm ▸ hi') (hk.size.symm ▸ hi'),
      join_zipWith (hm.height.symm ▸ hj) (hk.height.symm ▸ hj), hm.answers, hk.answers, hi]
    rfl

theorem holds (h : Mask.Local n rows m m') {i j : Nat} (hij : rows[i]? = some j) :
    m'.holds i = m.holds j := by
  rw [Mask.holds, Mask.holds, h.answers, hij, Option.bind_some]

end Mask.Local

namespace Expr

theorem toMask_ok (e : Expr) {c : Column} (h : c.dtype = .bool ∨ c.dtype = .null) :
    ∃ m, e.toMask c = .ok m ∧ m.size = c.height ∧ ∀ i : Nat, m[i]?.join = (c.reads i).bind (·.bool?) := by
  obtain ⟨name, cells⟩ := c
  cases cells with
  | bool rows =>
    refine ⟨rows, rfl, rfl, fun i => ?_⟩
    simp only [Column.reads, Column.held?, Cells.held?]
    cases rows[i]? with
    | none => rfl
    | some b => cases b <;> rfl
  | null n => exact ⟨_, rfl, Array.size_replicate, fun i => Column.join_replicate_none n i⟩
  | _ => rcases h with h | h <;> cases h

theorem toMask_error (e : Expr) {c : Column} (h : ¬(c.dtype = .bool ∨ c.dtype = .null)) :
    ∃ err, e.toMask c = .error err := by
  obtain ⟨name, cells⟩ := c
  cases cells with
  | bool => exact absurd (.inl rfl) h
  | null => exact absurd (.inr rfl) h
  | _ => exact ⟨_, rfl⟩

theorem toMask_local {n : Nat} {rows : List Nat} (e e' : Expr) {c c' : Column}
    (h : Column.Local n rows c c') : Agrees (Mask.Local n rows) (e.toMask c) (e'.toMask c') := by
  by_cases ht : c.dtype = .bool ∨ c.dtype = .null
  · obtain ⟨m, hm, size, answers⟩ := toMask_ok e ht
    obtain ⟨m', hm', size', answers'⟩ := toMask_ok e' (h.picks.dtype ▸ ht)
    rw [hm, hm']
    refine .ok ⟨size.trans h.height, size'.trans h.picks.height, fun i => ?_⟩
    rw [answers', h.picks.reads]
    cases rows[i]? with
    | none => rfl
    | some j => exact (answers j).symm
  · obtain ⟨err, he⟩ := toMask_error e ht
    obtain ⟨err', he'⟩ := toMask_error e' (h.picks.dtype ▸ ht)
    rw [he, he']
    exact .error err err'

end Expr

end Columnar
