import Columnar.Proofs.Evaluation

namespace Columnar

theorem Frame.lookup_schema (f : Frame) (name : String) : f.schema.lookup name = (f.column? name).map (·.dtype) := by
  unfold schema column?
  induction f.columns with
  | nil => rfl
  | cons c cs ih =>
    rw [List.map_cons, List.lookup_cons, List.find?_cons, BEq.comm (a := name)]
    split
    · rfl
    · exact ih

namespace Expr

def checkMask (e : Expr) (t : DType) : Except Error Unit :=
  if t = .bool ∨ t = .null then .ok () else .error (.notBoolean e.text t)

mutual

/-- The type of the column that an expression gives over a frame of a schema, without the rows. -/
def typeOf (schema : List (String × DType)) : Expr → Except Error DType
  | column name => (schema.lookup name).elim (.error (.missingColumn name)) .ok
  | literal v => .ok v.dtype
  | named e _ => e.typeOf schema
  | binary op l r => do
    let s ← l.typeOf schema
    match op.family with
    | .conjunction | .disjunction => do
      l.checkMask s
      r.checkMask (← r.typeOf schema)
      pure .bool
    | .compare _ => do
      let _ ← CmpOp.target s (← r.typeOf schema)
      pure .bool
    | .arith op => do op.target s (← r.typeOf schema)
  | not e => do
    e.checkMask (← e.typeOf schema)
    pure .bool
  | e@(aggregate ..) => .error (.strayAggregation e.text)
  | cast e t => do
    let _ ← e.typeOf schema
    pure t
  | when c v => do
    c.checkMask (← c.typeOf schema)
    pure ((← v.typeOf schema).common .null)
  | whenElse c v o => do
    c.checkMask (← c.typeOf schema)
    let s ← v.typeOf schema
    pure (s.common (← o.typeOf schema))
  | isNull e | isNotNull e => do
    let _ ← e.typeOf schema
    pure .bool
  | fillNull e fill => do
    let s ← e.typeOf schema
    pure (s.common (← fill.typeOf schema))
  | coalesce [] => .error .emptyCoalesce
  | coalesce (e :: es) => do typeOfAll schema (← e.typeOf schema) es
  | structField _ name => .error (.structField name)
  | listGet _ i => .error (.listElement i)

def typeOfAll (schema : List (String × DType)) (s : DType) : List Expr → Except Error DType
  | [] => .ok s
  | e :: es => do typeOfAll schema (s.common (← e.typeOf schema)) es

end

end Expr

namespace Column

def Has (n : Nat) (c : Column) (t : DType) : Prop := c.height = n ∧ c.dtype = t

variable {n : Nat} {a b : Column} {s t : DType}

theorem has_ofMask (name : String) {m : Mask} (h : m.size = n) : (ofMask name m).Has n .bool := ⟨h, rfl⟩

theorem arith_coincides (ha : a.Has n s) (hb : b.Has n t) (op : ArithOp) :
    Coincides (Has n) (a.arith op b) (op.target s t) := by
  obtain ⟨height, rfl⟩ := ha
  obtain ⟨height', rfl⟩ := hb
  have heights := height.trans height'.symm
  refine .intro (fun u hu => ?_) fun e => arith_error heights
  obtain ⟨c, hc, dtype, heightC, -⟩ := arith_spec heights hu
  exact ⟨c, hc, heightC.trans height, dtype⟩

theorem arithScalar_coincides (ha : a.Has n s) (op : ArithOp) (v : Scalar) :
    Coincides (Has n) (a.arithScalar op v) (op.target s v.dtype) := by
  obtain ⟨height, rfl⟩ := ha
  refine .intro (fun u hu => ?_) fun e => arithScalar_error
  obtain ⟨c, hc, dtype, heightC, -⟩ := arithScalar_spec hu
  exact ⟨c, hc, heightC.trans height, dtype⟩

theorem compare_coincides (ha : a.Has n s) (hb : b.Has n t) (op : CmpOp) :
    Coincides (fun m _ => m.size = n) (a.compare op b) (CmpOp.target s t) := by
  obtain ⟨height, rfl⟩ := ha
  obtain ⟨height', rfl⟩ := hb
  have heights := height.trans height'.symm
  refine .intro (fun u hu => ?_) fun e => compare_error op heights
  obtain ⟨m, hm, size, -⟩ := compare_spec op heights hu
  exact ⟨m, hm, size.trans height⟩

theorem compareScalar_coincides (ha : a.Has n s) (op : CmpOp) (v : Scalar) :
    Coincides (fun m _ => m.size = n) (a.compareScalar op v) (CmpOp.target s v.dtype) := by
  obtain ⟨height, rfl⟩ := ha
  refine .intro (fun u hu => ?_) fun e => compareScalar_error op
  obtain ⟨m, hm, size, -⟩ := compareScalar_spec op hu
  exact ⟨m, hm, size.trans height⟩

theorem choose_has (short : n ≤ Frame.maxRows) (ha : a.Has n s) (hb : b.Has n t) (first : Nat → Bool) :
    Coincides (Has n) (a.choose b first) (.ok (s.common t)) := by
  obtain ⟨height, rfl⟩ := ha
  obtain ⟨height', rfl⟩ := hb
  obtain ⟨c, hc, dtype, heightC, -⟩ := choose_spec (height.trans height'.symm) (height ▸ short) first
  rw [hc]
  exact .ok ⟨heightC.trans height, dtype⟩

theorem has_full (name : String) (n : Nat) (v : Scalar) : (full name n v).Has n v.dtype := by
  cases v <;> exact ⟨by simp [full, height, Cells.height], rfl⟩

end Column

namespace Expr

open Column (Has)

variable {f : Frame} {e l r : Expr} {n : Nat} {a : Column} {s : DType}

theorem toMask_coincides (e : Expr) (ha : a.Has n s) :
    Coincides (fun m _ => m.size = n) (e.toMask a) (e.checkMask s) := by
  obtain ⟨height, rfl⟩ := ha
  unfold checkMask
  split
  next bools =>
    obtain ⟨m, hm, size, -⟩ := toMask_ok e bools
    rw [hm]
    exact .ok (size.trans height)
  next other =>
    obtain ⟨name, cells⟩ := a
    cases cells with
    | bool => exact absurd (.inl rfl) other
    | null => exact absurd (.inr rfl) other
    | _ => exact .error _

def Typed (f : Frame) (e : Expr) : Prop := Coincides (Has f.height) (e.eval f) (e.typeOf f.schema)

theorem typed_column (hf : f.Rectangular) (name : String) : Typed f (column name) := by
  unfold Typed
  rw [eval_column, typeOf, Frame.lookup_schema, Frame.column]
  cases hc : f.column? name with
  | none => exact .error _
  | some c => exact .ok ⟨hf.height hc, rfl⟩

theorem junction_coincides (ha : a.Has f.height s) (hr : Typed f r) (l : Expr)
    (join : Option Bool → Option Bool → Option Bool) :
    Coincides (Has f.height)
      (do let m ← l.toMask a; pure (.ofMask "mask" (m.zipWith join (← r.toMask (← r.eval f)))))
      (do l.checkMask s; r.checkMask (← r.typeOf f.schema); pure .bool) := by
  refine (toMask_coincides l ha).bind fun m _ hm => Coincides.bind hr fun b t hb => ?_
  refine (toMask_coincides r hb).bind fun k _ hk => .ok (Column.has_ofMask "mask" ?_)
  rw [Array.size_zipWith, hm, hk, Nat.min_self]

theorem typed_binary (op : BinaryOp) (hl : Typed f l) (hr : Typed f r) : Typed f (binary op l r) := by
  unfold Typed
  rw [typeOf]
  by_cases hv : ∃ v, r = .literal v
  · obtain ⟨v, rfl⟩ := hv
    rw [eval_binary_literal]
    refine Coincides.bind hl fun a s ha => ?_
    cases op.family with
    | arith op => exact Column.arithScalar_coincides ha op v
    | compare op => exact (Column.compareScalar_coincides ha op v).bind fun _ _ hm => .ok (Column.has_ofMask "mask" hm)
    | conjunction => exact junction_coincides ha hr l Mask.andValue
    | disjunction => exact junction_coincides ha hr l Mask.orValue
  · rw [eval_binary f op l fun v h => hv ⟨v, h⟩]
    refine Coincides.bind hl fun a s ha => ?_
    cases op.family with
    | arith op => exact Coincides.bind hr fun b t hb => Column.arith_coincides ha hb op
    | compare op =>
      refine Coincides.bind hr fun b t hb => (Column.compare_coincides ha hb op).bind fun _ _ hm => ?_
      exact .ok (Column.has_ofMask "mask" hm)
    | conjunction => exact junction_coincides ha hr l Mask.andValue
    | disjunction => exact junction_coincides ha hr l Mask.orValue

theorem coalesceWith_coincides (short : f.height ≤ Frame.maxRows) {es : List Expr} (h : ∀ e ∈ es, Typed f e)
    (ha : a.Has f.height s) :
    Coincides (Has f.height) (coalesceWith f a es) (typeOfAll f.schema s es) := by
  induction es generalizing a s with
  | nil =>
    rw [coalesceWith, typeOfAll]
    exact .ok ha
  | cons e es ih =>
    obtain ⟨he, hes⟩ := List.forall_mem_cons.1 h
    rw [coalesceWith, typeOfAll]
    refine Coincides.bind he fun b t hb => ?_
    exact (Column.choose_has short ha hb _).bind (g := fun u => typeOfAll f.schema u es) fun c u hc => ih hes hc

/-- Over a frame as it is built an expression gives a column of the type that the schema tells, and of the height
of the frame, or it fails with the error that the schema tells. -/
theorem eval_typed (hf : f.Capped) (e : Expr) : Typed f e := by
  induction e using parts_induction with
  | step e ih =>
    cases e with
    | column name => exact typed_column hf.toRectangular name
    | literal v =>
      rw [Typed, eval, typeOf]
      exact .ok (Column.has_full "literal" f.height v)
    | named e name =>
      rw [Typed, eval, typeOf]
      exact ih e List.mem_cons_self
    | binary op l r => exact typed_binary op (ih l (by simp [children])) (ih r (by simp [children]))
    | not e =>
      rw [Typed, eval, typeOf]
      refine Coincides.bind (ih e List.mem_cons_self) fun a s ha => ?_
      refine (toMask_coincides e ha).bind fun m _ hm => .ok (Column.has_ofMask "mask" ?_)
      rw [Mask.not, Array.size_map, hm]
    | aggregate op e =>
      rw [Typed, eval, typeOf]
      exact .error _
    | structField e name =>
      rw [Typed, eval, typeOf]
      exact .error _
    | listGet e i =>
      rw [Typed, eval, typeOf]
      exact .error _
    | cast e t =>
      rw [Typed, eval, typeOf]
      have given : Typed f e := ih e List.mem_cons_self
      exact given.map fun a _ ha => ⟨(Column.height_cast a t).trans ha.1, Column.dtype_cast a t⟩
    | isNull e =>
      rw [Typed, eval, typeOf]
      refine Coincides.bind (ih e List.mem_cons_self) fun a s ha => ?_
      exact .ok (Column.has_ofMask "mask" (Array.size_ofFn.trans ha.1))
    | isNotNull e =>
      rw [Typed, eval, typeOf]
      refine Coincides.bind (ih e List.mem_cons_self) fun a s ha => .ok (Column.has_ofMask "mask" ?_)
      rw [Mask.not, Array.size_map]
      exact Array.size_ofFn.trans ha.1
    | fillNull e v =>
      rw [Typed, eval, typeOf]
      refine Coincides.bind (ih e List.mem_cons_self) fun a s ha => ?_
      exact Coincides.bind (ih v (by simp [children])) fun b t hb => Column.choose_has hf.short ha hb _
    | when c v =>
      rw [Typed, eval, typeOf]
      refine Coincides.bind (ih c List.mem_cons_self) fun k u hk => (toMask_coincides c hk).bind fun m _ _ => ?_
      exact Coincides.bind (ih v (by simp [children])) fun a s ha =>
        Column.choose_has hf.short ha (Column.has_full "otherwise" f.height .null) m.holds
    | whenElse c v o =>
      rw [Typed, eval, typeOf]
      refine Coincides.bind (ih c List.mem_cons_self) fun k u hk => (toMask_coincides c hk).bind fun m _ _ => ?_
      refine Coincides.bind (ih v (by simp [children])) fun a s ha => ?_
      exact Coincides.bind (ih o (by simp [children])) fun b t hb => Column.choose_has hf.short ha hb m.holds
    | coalesce es =>
      cases es with
      | nil =>
        rw [Typed, eval, typeOf]
        exact .error _
      | cons e es =>
        rw [Typed, eval, typeOf]
        obtain ⟨he, hes⟩ := List.forall_mem_cons.1 ih
        exact Coincides.bind he fun a s ha => coalesceWith_coincides hf.short hes ha

theorem evaluateMask_coincides (hf : f.Capped) (e : Expr) :
    Coincides (fun m _ => m.size = f.height) (e.evaluateMask f) (e.typeOf f.schema >>= e.checkMask) :=
  Coincides.bind (eval_typed hf e) fun _ _ ha => toMask_coincides e ha

theorem evaluateMask_error_of_schema {g : Frame} (hf : f.Capped) (hg : g.Capped) (schema : g.schema = f.schema)
    {err : Error} (h : e.evaluateMask f = .error err) : e.evaluateMask g = .error err := by
  have typed := evaluateMask_coincides hg e
  rw [schema] at typed
  exact (evaluateMask_coincides hf e).error_of_common typed h

end Expr

end Columnar
