import Columnar.Proofs.Locality

namespace Columnar.Expr

def applyScalar (f : Frame) (l : Expr) (a : Column) (v : Scalar) : BinaryOp.Family → Except Error Column
  | .conjunction => do
    let m ← l.toMask a
    pure (.ofMask "mask" (m.and (← (literal v).toMask (← (literal v).eval f))))
  | .disjunction => do
    let m ← l.toMask a
    pure (.ofMask "mask" (m.or (← (literal v).toMask (← (literal v).eval f))))
  | .compare op => .ofMask "mask" <$> a.compareScalar op v
  | .arith op => a.arithScalar op v

def applyColumns (f : Frame) (l r : Expr) (a : Column) : BinaryOp.Family → Except Error Column
  | .conjunction => do
    let m ← l.toMask a
    pure (.ofMask "mask" (m.and (← r.toMask (← r.eval f))))
  | .disjunction => do
    let m ← l.toMask a
    pure (.ofMask "mask" (m.or (← r.toMask (← r.eval f))))
  | .compare op => do pure (.ofMask "mask" (← a.compare op (← r.eval f)))
  | .arith op => do a.arith op (← r.eval f)

theorem eval_binary_literal (f : Frame) (op : BinaryOp) (l : Expr) (v : Scalar) :
    (binary op l (.literal v)).eval f = l.eval f >>= (applyScalar f l · v op.family) := by
  rw [eval]
  congr 1
  funext a
  cases op.family <;> rfl

theorem eval_binary (f : Frame) (op : BinaryOp) (l : Expr) {r : Expr} (h : ∀ v, r ≠ .literal v) :
    (binary op l r).eval f = l.eval f >>= (applyColumns f l r · op.family) := by
  rw [eval]
  congr 1
  funext a
  cases r with
  | literal v => exact absurd rfl (h v)
  | _ => cases op.family <;> rfl

theorem junction_eq_ok {f : Frame} {l r : Expr} {a c : Column} {join : Option Bool → Option Bool → Option Bool}
    (h : (do let m ← l.toMask a; pure (Column.ofMask "mask" (m.zipWith join (← r.toMask (← r.eval f))))) = .ok c) :
    ∃ b, r.eval f = .ok b ∧ ∃ m, c = .ofMask "mask" m := by
  obtain ⟨m, -, h⟩ := bind_eq_ok.1 h
  obtain ⟨b, hb, h⟩ := bind_eq_ok.1 h
  obtain ⟨k, -, h⟩ := bind_eq_ok.1 h
  exact ⟨b, hb, _, (pure_eq_ok.1 h).symm⟩

/-- Over a frame of picked rows the second expression gives the picked rows of what the first one gives
over the frame that they come from. -/
def Alongside (rows : List Nat) (f g : Frame) (e e' : Expr) : Prop :=
  Agrees (Column.Local f.height rows) (e.eval f) (e'.eval g)

namespace Alongside

variable {rows : List Nat} {f g : Frame} {e e' l l' r r' c c' v v' o o' : Expr}

theorem mask (h : Alongside rows f g e e') (k k' : Expr) :
    Agrees (Mask.Local f.height rows) (e.eval f >>= k.toMask) (e'.eval g >>= k'.toMask) :=
  h.bind fun _ _ h => toMask_local k k' h

theorem named (h : Alongside rows f g e e') (a b : String) : Alongside rows f g (.named e a) (.named e' b) := by
  simpa only [Alongside, eval] using h

theorem cast (h : Alongside rows f g e e') (t : DType) : Alongside rows f g (.cast e t) (.cast e' t) := by
  simp only [Alongside, eval]
  exact h.map fun _ _ h => h.cast t

theorem aggregate (op : Aggregation) : Alongside rows f g (.aggregate op e) (.aggregate op e') := by
  simp only [Alongside, eval]
  exact .error ..

theorem structField (name : String) : Alongside rows f g (.structField e name) (.structField e' name) := by
  simp only [Alongside, eval]
  exact .error ..

theorem listGet (i : Int64) : Alongside rows f g (.listGet e i) (.listGet e' i) := by
  simp only [Alongside, eval]
  exact .error ..

theorem not (h : Alongside rows f g e e') : Alongside rows f g (.not e) (.not e') := by
  simp only [Alongside, eval]
  refine Agrees.bind h fun _ _ h => (toMask_local _ _ h).bind fun _ _ h => .ok (.ofMask h.not "mask")

section

variable (picking : Picking f.height rows)

include picking

theorem isNull (h : Alongside rows f g e e') : Alongside rows f g (.isNull e) (.isNull e') := by
  simp only [Alongside, eval]
  exact Agrees.bind h fun _ _ h => .ok (.ofMask (h.nullMask picking.below) "mask")

theorem isNotNull (h : Alongside rows f g e e') : Alongside rows f g (.isNotNull e) (.isNotNull e') := by
  simp only [Alongside, eval]
  exact Agrees.bind h fun _ _ h => .ok (.ofMask (h.nullMask picking.below).not "mask")

theorem fillNull (h : Alongside rows f g e e') (hv : Alongside rows f g v v') :
    Alongside rows f g (.fillNull e v) (.fillNull e' v') := by
  simp only [Alongside, eval]
  refine Agrees.bind h fun a a' h => Agrees.bind hv fun _ _ hv => h.choose hv picking fun i j hij => ?_
  rw [h.isNull hij]

theorem whenElse (hc : Alongside rows f g c c') (hv : Alongside rows f g v v')
    (ho : Alongside rows f g o o') : Alongside rows f g (.whenElse c v o) (.whenElse c' v' o') := by
  simp only [Alongside, eval]
  refine Agrees.bind hc fun _ _ hc => (toMask_local _ _ hc).bind fun _ _ hm => ?_
  exact Agrees.bind hv fun _ _ hv => Agrees.bind ho fun _ _ ho => hv.choose ho picking fun i j => hm.holds

theorem when (height : rows.length = g.height) (hc : Alongside rows f g c c')
    (hv : Alongside rows f g v v') : Alongside rows f g (.when c v) (.when c' v') := by
  simp only [Alongside, eval]
  refine Agrees.bind hc fun _ _ hc => (toMask_local _ _ hc).bind fun _ _ hm => ?_
  exact Agrees.bind hv fun _ _ hv => hv.choose (.full height picking.below "otherwise" .null) picking fun i j => hm.holds

theorem literal (height : rows.length = g.height) (v : Scalar) :
    Alongside rows f g (.literal v) (.literal v) := by
  simp only [Alongside, eval]
  exact .ok (.full height picking.below "literal" v)

theorem coalesceWith {es es' : List Expr} (h : List.Forall₂ (Alongside rows f g) es es') {a a' : Column}
    (ha : Column.Local f.height rows a a') :
    Agrees (Column.Local f.height rows) (Expr.coalesceWith f a es) (Expr.coalesceWith g a' es') := by
  induction h generalizing a a' with
  | nil =>
    simp only [Expr.coalesceWith]
    exact .ok ha
  | cons he _ ih =>
    simp only [Expr.coalesceWith]
    refine Agrees.bind he fun _ _ hn => (ha.choose hn picking fun i j hij => ?_).bind fun _ _ h => ih h
    rw [ha.isNull hij]

theorem coalesce {es es' : List Expr} (h : List.Forall₂ (Alongside rows f g) es es') :
    Alongside rows f g (.coalesce es) (.coalesce es') := by
  cases h with
  | nil =>
    simp only [Alongside, eval]
    exact .error ..
  | cons he hs =>
    simp only [Alongside, eval]
    exact Agrees.bind he fun _ _ ha => coalesceWith picking hs ha

theorem junction (hl : Column.Local f.height rows a a') (hr : Alongside rows f g r r') (l l' : Expr)
    (join : Option Bool → Option Bool → Option Bool) :
    Agrees (Column.Local f.height rows)
      (do let m ← l.toMask a; pure (.ofMask "mask" (m.zipWith join (← r.toMask (← r.eval f)))))
      (do let m ← l'.toMask a'; pure (.ofMask "mask" (m.zipWith join (← r'.toMask (← r'.eval g))))) := by
  refine (toMask_local l l' hl).bind fun _ _ hm => Agrees.bind hr fun _ _ hr => ?_
  exact (toMask_local r r' hr).bind fun _ _ hk => .ok (.ofMask (hm.zipWith hk picking.below join) "mask")

theorem binary (op : BinaryOp) (hl : Alongside rows f g l l') (hr : Alongside rows f g r r')
    (same : ∀ v, r = .literal v ↔ r' = .literal v) :
    Alongside rows f g (.binary op l r) (.binary op l' r') := by
  unfold Alongside
  by_cases hv : ∃ v, r = .literal v
  · obtain ⟨v, rfl⟩ := hv
    obtain rfl := (same v).1 rfl
    rw [eval_binary_literal, eval_binary_literal]
    refine Agrees.bind hl fun a a' ha => ?_
    cases op.family with
    | arith op => exact ha.arithScalar op v
    | compare op => exact (ha.compareScalar op v).map fun _ _ hm => .ofMask hm "mask"
    | conjunction => exact junction picking ha hr l l' Mask.andValue
    | disjunction => exact junction picking ha hr l l' Mask.orValue
  · have hr' : ∀ v, r ≠ .literal v := fun v h => hv ⟨v, h⟩
    rw [eval_binary f op l hr', eval_binary g op l' fun v h => hr' v ((same v).2 h)]
    refine Agrees.bind hl fun a a' ha => ?_
    cases op.family with
    | arith op => exact Agrees.bind hr fun _ _ hr => ha.arith hr op
    | compare op =>
      refine Agrees.bind hr fun _ _ hr => (ha.compare hr op).bind fun _ _ hm => ?_
      exact .ok (.ofMask hm "mask")
    | conjunction => exact junction picking ha hr l l' Mask.andValue
    | disjunction => exact junction picking ha hr l l' Mask.orValue

end

end Alongside

theorem mem_columns {e : Expr} {name : String} : name ∈ e.columns ↔ .column name ∈ e.nodes := by
  rw [columns, List.mem_eraseDups, List.mem_filterMap]
  constructor
  · rintro ⟨x, hx, h⟩
    cases x with
    | column c =>
      cases h
      exact hx
    | _ => cases h
  · exact fun h => ⟨.column name, h, rfl⟩

theorem nodesAll_eq (es : List Expr) : nodesAll es = es.flatMap nodes := by
  induction es with
  | nil => rfl
  | cons e es ih => rw [nodesAll, ih, List.flatMap_cons]

theorem nodes_eq (e : Expr) : e.nodes = e :: e.children.flatMap nodes := by
  cases e <;> simp [nodes, children, nodesAll_eq]

theorem mem_nodes_self (e : Expr) : e ∈ e.nodes := by
  rw [nodes_eq]
  exact List.mem_cons_self

theorem sizeOf_children {e x : Expr} (h : x ∈ e.children) : sizeOf x < sizeOf e := by
  cases e with
  | column | literal => cases h
  | coalesce es =>
    have := List.sizeOf_lt_of_mem (show x ∈ es from h)
    simp only [coalesce.sizeOf_spec]
    omega
  | _ =>
    simp only [children, List.mem_cons, List.not_mem_nil, or_false] at h
    rcases h with rfl | rfl | rfl <;> simp +arith

theorem parts_induction {motive : Expr → Prop} (step : ∀ e, (∀ x ∈ e.children, motive x) → motive e)
    (e : Expr) : motive e :=
  step e fun x _ => parts_induction step x
termination_by sizeOf e
decreasing_by exact sizeOf_children ‹_›

theorem withChildren_children (e : Expr) : e.withChildren e.children = e := by
  cases e <;> rfl

theorem Alongside.withChildren {rows : List Nat} {f g : Frame} (height : rows.length = g.height)
    (picking : Picking f.height rows) {e : Expr} {cs : List Expr}
    (h : List.Forall₂ (fun x y => Alongside rows f g x y ∧ ∀ v, x = .literal v ↔ y = .literal v) e.children cs)
    (found : ∀ name, e = .column name → Agrees (Column.Local f.height rows) (f.column name) (g.column name)) :
    Alongside rows f g e (e.withChildren cs) := by
  cases e with
  | coalesce es => exact .coalesce picking (h.imp fun _ _ h => h.1)
  | column name =>
    cases h
    change Alongside rows f g (.column name) (.column name)
    simp only [Alongside, eval]
    exact found name rfl
  | literal v =>
    cases h
    exact .literal picking height v
  | named _ name =>
    rcases h with _ | ⟨⟨h, -⟩, _ | _⟩
    exact h.named name name
  | not =>
    rcases h with _ | ⟨⟨h, -⟩, _ | _⟩
    exact h.not
  | aggregate op =>
    rcases h with _ | ⟨-, _ | _⟩
    exact .aggregate op
  | cast _ t =>
    rcases h with _ | ⟨⟨h, -⟩, _ | _⟩
    exact h.cast t
  | isNull =>
    rcases h with _ | ⟨⟨h, -⟩, _ | _⟩
    exact h.isNull picking
  | isNotNull =>
    rcases h with _ | ⟨⟨h, -⟩, _ | _⟩
    exact h.isNotNull picking
  | structField _ name =>
    rcases h with _ | ⟨-, _ | _⟩
    exact .structField name
  | listGet _ i =>
    rcases h with _ | ⟨-, _ | _⟩
    exact .listGet i
  | binary op =>
    rcases h with _ | ⟨⟨hl, -⟩, _ | ⟨⟨hr, same⟩, _ | _⟩⟩
    exact .binary picking op hl hr same
  | fillNull =>
    rcases h with _ | ⟨⟨h, -⟩, _ | ⟨⟨hv, -⟩, _ | _⟩⟩
    exact h.fillNull picking hv
  | when =>
    rcases h with _ | ⟨⟨hc, -⟩, _ | ⟨⟨hv, -⟩, _ | _⟩⟩
    exact .when picking height hc hv
  | whenElse =>
    rcases h with _ | ⟨⟨hc, -⟩, _ | ⟨⟨hv, -⟩, _ | ⟨⟨ho, -⟩, _ | _⟩⟩⟩
    exact .whenElse picking hc hv ho

theorem mem_nodes_of_child {e x y : Expr} (hx : x ∈ e.children) (hy : y ∈ x.nodes) : y ∈ e.nodes := by
  rw [nodes_eq]
  exact List.mem_cons_of_mem _ (List.mem_flatMap.2 ⟨x, hx, hy⟩)

/-- An expression looks at no columns but those that it names, and at each row by itself. -/
theorem eval_local {rows : List Nat} {f g : Frame} (height : rows.length = g.height)
    (picking : Picking f.height rows) (e : Expr)
    (h : ∀ name, .column name ∈ e.nodes → Agrees (Column.Local f.height rows) (f.column name) (g.column name)) :
    Alongside rows f g e e := by
  induction e using parts_induction with
  | step e ih =>
    have parts : List.Forall₂ (fun x y => Alongside rows f g x y ∧ ∀ v, x = .literal v ↔ y = .literal v)
        e.children e.children := List.forall₂_same.2 fun x hx =>
      ⟨ih x hx fun name hn => h name (mem_nodes_of_child hx hn), fun _ => Iff.rfl⟩
    have along := Alongside.withChildren height picking parts fun name he => h name (he ▸ mem_nodes_self e)
    rwa [withChildren_children] at along

theorem sound_coalesceWith {f : Frame} {a c : Column} {es : List Expr} (ha : a.Sound)
    (h : coalesceWith f a es = .ok c) : c.Sound := by
  induction es generalizing a with
  | nil =>
    rw [coalesceWith] at h
    cases h
    exact ha
  | cons e es ih =>
    rw [coalesceWith] at h
    obtain ⟨d, -, h⟩ := bind_eq_ok.1 h
    obtain ⟨b, hb, h⟩ := bind_eq_ok.1 h
    exact ih (Column.sound_choose hb) h

theorem sound_binary {f : Frame} {op : BinaryOp} {l r : Expr} {c : Column}
    (h : (binary op l r).eval f = .ok c) : c.Sound := by
  by_cases hv : ∃ v, r = .literal v
  · obtain ⟨v, rfl⟩ := hv
    rw [eval_binary_literal] at h
    obtain ⟨a, -, h⟩ := bind_eq_ok.1 h
    revert h
    cases op.family with
    | arith op => exact Column.sound_arithScalar
    | compare op =>
      intro h
      obtain ⟨m, -, rfl⟩ := map_eq_ok.1 h
      exact Column.sound_ofMask _ _
    | conjunction | disjunction =>
      intro h
      obtain ⟨-, -, m, rfl⟩ := junction_eq_ok h
      exact Column.sound_ofMask _ _
  · rw [eval_binary f op l fun v h => hv ⟨v, h⟩] at h
    obtain ⟨a, -, h⟩ := bind_eq_ok.1 h
    revert h
    cases op.family with
    | arith op =>
      intro h
      obtain ⟨b, -, h⟩ := bind_eq_ok.1 h
      exact Column.sound_arith h
    | compare op =>
      intro h
      obtain ⟨b, -, h⟩ := bind_eq_ok.1 h
      obtain ⟨m, -, h⟩ := bind_eq_ok.1 h
      cases pure_eq_ok.1 h
      exact Column.sound_ofMask _ _
    | conjunction | disjunction =>
      intro h
      obtain ⟨-, -, m, rfl⟩ := junction_eq_ok h
      exact Column.sound_ofMask _ _

theorem eval_sound {f : Frame} (e : Expr) (h : ∀ name, .column name ∈ e.nodes → ∀ c, f.column name = .ok c → c.Sound) :
    ∀ c, e.eval f = .ok c → c.Sound := by
  induction e using parts_induction with
  | step e ih =>
    replace ih : ∀ x ∈ e.children, ∀ c, x.eval f = .ok c → c.Sound := fun x hx =>
      ih x hx fun name hn => h name (mem_nodes_of_child hx hn)
    intro c hc
    cases e with
    | column name => exact h name (mem_nodes_self _) c (eval_column f name ▸ hc)
    | literal v =>
      rw [eval] at hc
      cases hc
      exact Column.sound_full _ _ _
    | named e name =>
      rw [eval] at hc
      exact ih e List.mem_cons_self c hc
    | cast e t =>
      rw [eval] at hc
      obtain ⟨d, hd, rfl⟩ := map_eq_ok.1 hc
      exact (ih e List.mem_cons_self d hd).cast t
    | binary op l r => exact sound_binary hc
    | not e =>
      rw [eval] at hc
      obtain ⟨d, -, hc⟩ := bind_eq_ok.1 hc
      obtain ⟨m, -, hc⟩ := bind_eq_ok.1 hc
      cases pure_eq_ok.1 hc
      exact Column.sound_ofMask _ _
    | isNull e | isNotNull e =>
      rw [eval] at hc
      obtain ⟨d, -, hc⟩ := bind_eq_ok.1 hc
      cases pure_eq_ok.1 hc
      exact Column.sound_ofMask _ _
    | aggregate | structField | listGet => simp only [eval, reduceCtorEq] at hc
    | fillNull e v =>
      rw [eval] at hc
      obtain ⟨a, -, hc⟩ := bind_eq_ok.1 hc
      obtain ⟨b, -, hc⟩ := bind_eq_ok.1 hc
      exact Column.sound_choose hc
    | when k v =>
      rw [eval] at hc
      obtain ⟨d, -, hc⟩ := bind_eq_ok.1 hc
      obtain ⟨m, -, hc⟩ := bind_eq_ok.1 hc
      obtain ⟨a, -, hc⟩ := bind_eq_ok.1 hc
      exact Column.sound_choose hc
    | whenElse k v o =>
      rw [eval] at hc
      obtain ⟨d, -, hc⟩ := bind_eq_ok.1 hc
      obtain ⟨m, -, hc⟩ := bind_eq_ok.1 hc
      obtain ⟨a, -, hc⟩ := bind_eq_ok.1 hc
      obtain ⟨b, -, hc⟩ := bind_eq_ok.1 hc
      exact Column.sound_choose hc
    | coalesce es =>
      cases es with
      | nil => simp only [eval, reduceCtorEq] at hc
      | cons e es =>
        rw [eval] at hc
        obtain ⟨a, ha, hc⟩ := bind_eq_ok.1 hc
        exact sound_coalesceWith (ih e List.mem_cons_self a ha) hc

theorem exists_coalesceWith {f : Frame} {a c : Column} {es : List Expr}
    (h : coalesceWith f a es = .ok c) : ∀ x ∈ es, ∃ d, x.eval f = .ok d := by
  induction es generalizing a with
  | nil => nofun
  | cons e es ih =>
    rw [coalesceWith] at h
    obtain ⟨d, hd, h⟩ := bind_eq_ok.1 h
    obtain ⟨b, -, h⟩ := bind_eq_ok.1 h
    exact List.forall_mem_cons.2 ⟨⟨d, hd⟩, ih h⟩

theorem exists_eval_children {f : Frame} {e : Expr} {c : Column} (h : e.eval f = .ok c) :
    ∀ x ∈ e.children, ∃ d, x.eval f = .ok d := by
  cases e with
  | column | literal => nofun
  | named e name =>
    rw [eval] at h
    exact List.forall_mem_singleton.2 ⟨c, h⟩
  | cast e t =>
    rw [eval] at h
    obtain ⟨d, hd, -⟩ := map_eq_ok.1 h
    exact List.forall_mem_singleton.2 ⟨d, hd⟩
  | aggregate | structField | listGet =>
    simp only [eval, reduceCtorEq] at h
  | not e | isNull e | isNotNull e =>
    rw [eval] at h
    obtain ⟨d, hd, -⟩ := bind_eq_ok.1 h
    exact List.forall_mem_singleton.2 ⟨d, hd⟩
  | fillNull e v =>
    rw [eval] at h
    obtain ⟨d, hd, h⟩ := bind_eq_ok.1 h
    obtain ⟨b, hb, -⟩ := bind_eq_ok.1 h
    exact List.forall_mem_cons.2 ⟨⟨d, hd⟩, List.forall_mem_singleton.2 ⟨b, hb⟩⟩
  | when k v =>
    rw [eval] at h
    obtain ⟨d, hd, h⟩ := bind_eq_ok.1 h
    obtain ⟨m, -, h⟩ := bind_eq_ok.1 h
    obtain ⟨b, hb, -⟩ := bind_eq_ok.1 h
    exact List.forall_mem_cons.2 ⟨⟨d, hd⟩, List.forall_mem_singleton.2 ⟨b, hb⟩⟩
  | whenElse k v o =>
    rw [eval] at h
    obtain ⟨d, hd, h⟩ := bind_eq_ok.1 h
    obtain ⟨m, -, h⟩ := bind_eq_ok.1 h
    obtain ⟨a, ha, h⟩ := bind_eq_ok.1 h
    obtain ⟨b, hb, -⟩ := bind_eq_ok.1 h
    exact List.forall_mem_cons.2 ⟨⟨d, hd⟩,
      List.forall_mem_cons.2 ⟨⟨a, ha⟩, List.forall_mem_singleton.2 ⟨b, hb⟩⟩⟩
  | coalesce es =>
    cases es with
    | nil =>
      intro x hx
      cases hx
    | cons e es =>
      rw [eval] at h
      obtain ⟨d, hd, h⟩ := bind_eq_ok.1 h
      exact List.forall_mem_cons.2 ⟨⟨d, hd⟩, exists_coalesceWith h⟩
  | binary op l r =>
    by_cases hv : ∃ v, r = .literal v
    · obtain ⟨v, rfl⟩ := hv
      rw [eval_binary_literal] at h
      obtain ⟨a, ha, -⟩ := bind_eq_ok.1 h
      exact List.forall_mem_cons.2 ⟨⟨a, ha⟩, List.forall_mem_singleton.2 ⟨_, by rw [eval]⟩⟩
    · rw [eval_binary f op l fun v h => hv ⟨v, h⟩] at h
      obtain ⟨a, ha, h⟩ := bind_eq_ok.1 h
      refine List.forall_mem_cons.2 ⟨⟨a, ha⟩, List.forall_mem_singleton.2 ?_⟩
      revert h
      cases op.family with
      | arith op | compare op =>
        intro h
        obtain ⟨b, hb, -⟩ := bind_eq_ok.1 h
        exact ⟨b, hb⟩
      | conjunction | disjunction =>
        intro h
        obtain ⟨b, hb, -⟩ := junction_eq_ok h
        exact ⟨b, hb⟩

theorem exists_eval_nodes {f : Frame} (e : Expr) :
    ∀ c, e.eval f = .ok c → ∀ x ∈ e.nodes, ∃ d, x.eval f = .ok d := by
  induction e using parts_induction with
  | step e ih =>
    intro c h x hx
    rw [nodes_eq] at hx
    rcases List.mem_cons.1 hx with rfl | hx
    · exact ⟨c, h⟩
    · obtain ⟨y, hy, hx⟩ := List.mem_flatMap.1 hx
      obtain ⟨d, hd⟩ := exists_eval_children h y hy
      exact ih y hy d hd x hx

end Columnar.Expr
