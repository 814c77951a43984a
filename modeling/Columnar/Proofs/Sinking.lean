import Columnar.Pass.FilterPlacement
import Columnar.Proofs.Unstacking

/-!
Moving filters below joins comes to an end. The pass may come back to a side of a join that it has rewritten
before, and then finds every filter of it as far down as it goes: what it gives is left as it is by a second pass,
with the same columns and the same joins.
-/

namespace Columnar

namespace Expr

def Single (e : Expr) : Prop := ∀ l r, e ≠ binary .and l r

theorem conjuncts_of_single {e : Expr} (h : e.Single) : e.conjuncts = [e] := by
  unfold conjuncts
  split
  next l r => exact absurd rfl (h l r)
  · rfl

theorem single_of_mem_conjuncts (e : Expr) : ∀ x ∈ e.conjuncts, x.Single := by
  induction e using conjuncts.induct with
  | case1 l r ihl ihr =>
    rw [conjuncts]
    exact List.forall_mem_append.2 ⟨ihl, ihr⟩
  | case2 e plain =>
    rw [conjuncts_of_single plain]
    exact List.forall_mem_singleton.2 plain

theorem conjuncts_ne_nil (e : Expr) : e.conjuncts ≠ [] := by
  induction e using conjuncts.induct with
  | case1 l r ihl _ =>
    rw [conjuncts]
    exact List.append_ne_nil_of_left_ne_nil ihl _
  | case2 e plain =>
    rw [conjuncts_of_single plain]
    exact List.cons_ne_nil e []

theorem conjuncts_foldl {es : List Expr} (h : ∀ x ∈ es, x.Single) (e : Expr) :
    (es.foldl (binary .and) e).conjuncts = e.conjuncts ++ es := by
  induction es generalizing e with
  | nil => exact (List.append_nil _).symm
  | cons x es ih =>
    obtain ⟨hx, hes⟩ := List.forall_mem_cons.1 h
    rw [List.foldl_cons, ih hes, conjuncts, conjuncts_of_single hx, List.append_assoc]
    rfl

theorem conjuncts_conjunction {es : List Expr} (nonempty : es ≠ []) (h : ∀ x ∈ es, x.Single) :
    (conjunction es).conjuncts = es := by
  obtain ⟨e, es, rfl⟩ := List.exists_cons_of_ne_nil nonempty
  obtain ⟨he, hes⟩ := List.forall_mem_cons.1 h
  exact (conjuncts_foldl hes e).trans (congrArg (· ++ es) (conjuncts_of_single he))

end Expr

namespace Plan

def joins : Plan → Nat
  | scan .. => 0
  | step _ x => x.joins
  | join _ l r => l.joins + r.joins + 1
  | cache _ x => x.joins

variable {x y l r : Plan} {s : JoinSpec} {p : Expr} {es : List Expr}

theorem columns?_filterAll (es : List Expr) (x : Plan) : (filterAll es x).columns? = x.columns? := by
  unfold filterAll
  split <;> rfl

theorem joins_filterAll (es : List Expr) (x : Plan) : (filterAll es x).joins = x.joins := by
  unfold filterAll
  split <;> rfl

theorem columns?_place (p : Expr) (x : Plan) : (x.place p).columns? = x.columns? := by
  induction x generalizing p with
  | join s l r ihl ihr =>
    have left (e : Expr) (b : Bool) : (if b then l else l.place e).columns? = l.columns? := by
      split
      · rfl
      · exact ihl e
    have right (e : Expr) (b : Bool) : (if b then r else r.place e).columns? = r.columns? := by
      split
      · rfl
      · exact ihr e
    rw [place, columns?_filterAll, columns?, columns?, left, right]
  | _ => rfl

theorem joins_place (p : Expr) (x : Plan) : (x.place p).joins = x.joins := by
  induction x generalizing p with
  | join s l r ihl ihr =>
    rw [place, joins_filterAll, joins, joins]
    split <;> split <;> simp only [ihl, ihr]
  | _ => rfl

theorem columns?_pushFilters (x : Plan) : x.pushFilters.columns? = x.columns? := by
  induction x with
  | scan s proj => rfl
  | step op x ih =>
    cases op with
    | filter p => exact (columns?_place p _).trans ih
    | _ => simp only [pushFilters, columns?, ih]
  | join s l r ihl ihr => rw [pushFilters, columns?, columns?, ihl, ihr]
  | cache id x ih => exact ih

theorem joins_pushFilters (x : Plan) : x.pushFilters.joins = x.joins := by
  induction x with
  | scan s proj => rfl
  | step op x ih =>
    cases op with
    | filter p => exact (joins_place p _).trans ih
    | _ => exact ih
  | join s l r ihl ihr => rw [pushFilters, joins, joins, ihl, ihr]
  | cache id x ih => exact ih

/-- Each filter directly above a join asks for nothing that could be asked of one of its sides, and its condition
has the form that the pass gives to several ones. -/
def Sunk (x : Plan) : Prop :=
  ∀ p s l r, step (.filter p) (join s l r) ∈ x.nodes →
    .conjunction p.conjuncts = p ∧ ∀ e ∈ p.conjuncts, target? s.kind (joinLayout? s l r) e = none

theorem Sunk.of_nodes (h : x.Sunk) (sub : ∀ z ∈ y.nodes, z ∈ x.nodes) : y.Sunk := fun p s l r hz =>
  h p s l r (sub _ hz)

theorem Sunk.input {op : Operator} (h : (step op x).Sunk) : x.Sunk := h.of_nodes fun _ => List.mem_cons_of_mem _

theorem Sunk.left (h : (join s l r).Sunk) : l.Sunk :=
  h.of_nodes fun _ hz => List.mem_cons_of_mem _ (List.mem_append_left _ hz)

theorem Sunk.right (h : (join s l r).Sunk) : r.Sunk :=
  h.of_nodes fun _ hz => List.mem_cons_of_mem _ (List.mem_append_right _ hz)

theorem Sunk.kept {id : Nat} (h : (cache id x).Sunk) : x.Sunk := h.of_nodes fun _ => List.mem_cons_of_mem _

theorem sunk_scan (s : Source) (proj : Option (List String)) : (scan s proj).Sunk := fun p s l r hz => by
  cases List.mem_singleton.1 hz

theorem sunk_join (hl : l.Sunk) (hr : r.Sunk) : (join s l r).Sunk := fun p s' l' r' hz => by
  obtain top | below := List.mem_cons.1 hz
  · cases top
  · exact (List.mem_append.1 below).elim (hl p s' l' r') (hr p s' l' r')

theorem sunk_cache (id : Nat) (h : x.Sunk) : (cache id x).Sunk := fun p s l r hz => by
  obtain top | below := List.mem_cons.1 hz
  · cases top
  · exact h p s l r below

theorem sunk_step {op : Operator} (h : x.Sunk)
    (top : ∀ p s l r, op = .filter p → x = join s l r →
      .conjunction p.conjuncts = p ∧ ∀ e ∈ p.conjuncts, target? s.kind (joinLayout? s l r) e = none) :
    (step op x).Sunk := fun p s l r hz => by
  obtain first | below := List.mem_cons.1 hz
  · cases first
    exact top p s l r rfl rfl
  · exact h p s l r below

theorem sunk_filterAll (h : (join s l r).Sunk) (single : ∀ e ∈ es, e.Single)
    (stay : ∀ e ∈ es, target? s.kind (joinLayout? s l r) e = none) : (filterAll es (join s l r)).Sunk := by
  unfold filterAll
  split
  · exact h
  next nonempty =>
    have parts : (Expr.conjunction es).conjuncts = es :=
      Expr.conjuncts_conjunction (fun none => nonempty (List.isEmpty_iff.2 none)) single
    refine sunk_step h fun p s' l' r' hp hx => ?_
    cases hp
    cases hx
    rw [parts]
    exact ⟨rfl, stay⟩

theorem joinLayout?_congr {l' r' : Plan} (left : l'.columns? = l.columns?) (right : r'.columns? = r.columns?) :
    joinLayout? s l' r' = joinLayout? s l r := by
  rw [joinLayout?, joinLayout?, left, right]

theorem sunk_place (p : Expr) (h : x.Sunk) : (x.place p).Sunk := by
  induction x generalizing p with
  | join s l r ihl ihr =>
    have side {y : Plan} (hy : y.Sunk) (ih : ∀ p, (y.place p).Sunk) (es : List Expr) :
        (if es.isEmpty then y else y.place (.conjunction es)).Sunk ∧
          (if es.isEmpty then y else y.place (.conjunction es)).columns? = y.columns? := by
      split
      · exact ⟨hy, rfl⟩
      · exact ⟨ih _, columns?_place _ _⟩
    obtain ⟨left, leftColumns⟩ := side h.left (fun p => ihl p h.left)
      (split s.kind (joinLayout? s l r) p.conjuncts).left
    obtain ⟨right, rightColumns⟩ := side h.right (fun p => ihr p h.right)
      (split s.kind (joinLayout? s l r) p.conjuncts).right
    rw [place]
    refine sunk_filterAll (sunk_join left right) (fun e he => ?_) fun e he => ?_
    · exact p.single_of_mem_conjuncts e (List.mem_of_mem_filter he)
    · rw [joinLayout?_congr leftColumns rightColumns]
      exact of_decide_eq_true (List.mem_filter.1 he).2
  | _ =>
    refine sunk_step h fun _ _ _ _ _ hx => ?_
    cases hx

theorem sunk_pushFilters (x : Plan) : x.pushFilters.Sunk := by
  induction x with
  | scan s proj => exact sunk_scan s proj
  | step op x ih =>
    cases op with
    | filter p => exact sunk_place p ih
    | _ => exact sunk_step ih nofun
  | join s l r ihl ihr => exact sunk_join ihl ihr
  | cache id x ih => exact sunk_cache id ih

theorem nowhere_of_stay {layout : Option (List JoinColumn)}
    (stay : ∀ e ∈ p.conjuncts, target? s.kind layout e = none) (side : JoinSide) :
    p.conjuncts.filter (target? s.kind layout · = some side) = [] :=
  List.filter_eq_nil_iff.2 fun e he => by simp [stay e he]

theorem place_join_of_stay (form : .conjunction p.conjuncts = p)
    (stay : ∀ e ∈ p.conjuncts, target? s.kind (joinLayout? s l r) e = none) :
    (join s l r).place p = step (.filter p) (join s l r) := by
  have nowhere := nowhere_of_stay stay
  have keep : p.conjuncts.filter (target? s.kind (joinLayout? s l r) · = none) = p.conjuncts :=
    List.filter_eq_self.2 fun e he => by simp [stay e he]
  rw [place]
  simp only [split, nowhere, keep, List.isEmpty_nil, ↓reduceIte]
  rw [filterAll, if_neg (by simpa using p.conjuncts_ne_nil), form]

theorem place_of_sunk (h : (step (.filter p) x).Sunk) : x.place p = step (.filter p) x := by
  cases x with
  | join s l r =>
    obtain ⟨form, stay⟩ := h p s l r List.mem_cons_self
    exact place_join_of_stay form stay
  | _ => rfl

/-- The pass leaves a plan as it is whose filters are down. -/
theorem pushFilters_of_sunk (h : x.Sunk) : x.pushFilters = x := by
  induction x with
  | scan s proj => rfl
  | step op x ih =>
    have below := ih h.input
    cases op with
    | filter p => rw [pushFilters, below, place_of_sunk h]
    | _ => exact congrArg (step _) below
  | join s l r ihl ihr => rw [pushFilters, ihl h.left, ihr h.right]
  | cache id x ih => exact congrArg (cache id) (ih h.kept)

/-- The pass as it comes back to what it has rewritten: a side of a join that gets a filter is gone through once
more as a whole, with the filter above it. -/
inductive Sinks : Plan → Plan → Prop
  | scan (s : Source) (proj : Option (List String)) : Sinks (scan s proj) (scan s proj)
  | step {op : Operator} {x y : Plan} (other : ∀ p, op ≠ .filter p) (below : Sinks x y) :
    Sinks (step op x) (step op y)
  | join {s : JoinSpec} {l l' r r' : Plan} (left : Sinks l l') (right : Sinks r r') :
    Sinks (join s l r) (join s l' r')
  | cache {id : Nat} {x y : Plan} (below : Sinks x y) : Sinks (cache id x) (cache id y)
  | stay {p : Expr} {x y : Plan} (below : Sinks x y) (plain : ∀ s l r, y ≠ .join s l r) :
    Sinks (.step (.filter p) x) (.step (.filter p) y)
  | sink {p : Expr} {x : Plan} {s : JoinSpec} {l l' r r' : Plan} {parts : Split} (below : Sinks x (.join s l r))
    (parted : parts = split s.kind (joinLayout? s l r) p.conjuncts)
    (leftNone : parts.left = [] → l' = l)
    (left : parts.left ≠ [] → Sinks (.step (.filter (.conjunction parts.left)) l) l')
    (rightNone : parts.right = [] → r' = r)
    (right : parts.right ≠ [] → Sinks (.step (.filter (.conjunction parts.right)) r) r') :
    Sinks (.step (.filter p) x) (filterAll parts.keep (.join s l' r'))

theorem sinks_self (h : x.Sunk) : x.Sinks x := by
  induction x with
  | scan s proj => exact .scan s proj
  | step op x ih =>
    have below := ih h.input
    cases op with
    | filter p =>
      cases x with
      | join s l r =>
        obtain ⟨form, stay⟩ := h p s l r List.mem_cons_self
        have nowhere := nowhere_of_stay stay
        have again := Sinks.sink (p := p) below rfl (fun _ => rfl) (fun nonempty => absurd (nowhere .left) nonempty)
          (fun _ => rfl) fun nonempty => absurd (nowhere .right) nonempty
        have same := place_join_of_stay form stay
        rw [place] at same
        simp only [split, nowhere, List.isEmpty_nil, ↓reduceIte] at same
        rwa [split, same] at again
      | _ => exact .stay below fun _ _ _ other => by cases other
    | _ => exact .step (fun _ other => by cases other) below
  | join s l r ihl ihr => exact .join (ihl h.left) (ihr h.right)
  | cache id x ih => exact .cache (ih h.kept)

/-- A filter sinks to where it is put, below which nothing moves any more. -/
theorem sinks_place (p : Expr) (below : x.Sinks y) (h : y.Sunk) : (step (.filter p) x).Sinks (y.place p) := by
  induction y generalizing p x with
  | join s l r ihl ihr =>
    rw [place]
    refine .sink below rfl (fun none => if_pos (List.isEmpty_iff.2 none)) (fun nonempty => ?_)
      (fun none => if_pos (List.isEmpty_iff.2 none)) fun nonempty => ?_
    · rw [if_neg fun none => nonempty (List.isEmpty_iff.1 none)]
      exact ihl _ (sinks_self h.left) h.left
    · rw [if_neg fun none => nonempty (List.isEmpty_iff.1 none)]
      exact ihr _ (sinks_self h.right) h.right
  | _ => exact .stay below fun _ _ _ other => by cases other

theorem sinks_pushFilters (x : Plan) : x.Sinks x.pushFilters := by
  induction x with
  | scan s proj => exact .scan s proj
  | step op x ih =>
    cases op with
    | filter p => exact sinks_place p ih (sunk_pushFilters x)
    | _ => exact .step (fun _ other => by cases other) ih
  | join s l r ihl ihr => exact .join ihl ihr
  | cache id x ih => exact .cache ih

theorem Sinks.eq_pushFilters (h : x.Sinks y) : y = x.pushFilters := by
  induction h with
  | scan s proj => rfl
  | @step op x y other below ih =>
    cases op with
    | filter p => exact absurd rfl (other p)
    | _ => exact congrArg (Plan.step _) ih
  | join left right ihl ihr => rw [pushFilters, ihl, ihr]
  | cache below ih => exact congrArg (Plan.cache _) ih
  | @stay p x y below plain ih =>
    rw [pushFilters, ← ih]
    cases y with
    | join s l r => exact absurd rfl (plain s l r)
    | _ => rfl
  | @sink p x s l l' r r' parts below parted leftNone left rightNone right ih ihl ihr =>
    have sunk : (Plan.join s l r).Sunk := ih ▸ sunk_pushFilters x
    have side {z z' : Plan} {es : List Expr} (hz : z.Sunk) (none : es = [] → z' = z)
        (nonempty : es ≠ [] → z' = (Plan.step (.filter (.conjunction es)) z).pushFilters) :
        z' = if es.isEmpty then z else z.place (.conjunction es) := by
      by_cases h : es = []
      · rw [none h, if_pos (List.isEmpty_iff.2 h)]
      · rw [nonempty h, pushFilters, pushFilters_of_sunk hz, if_neg fun empty => h (List.isEmpty_iff.1 empty)]
    rw [pushFilters, ← ih, place, ← parted, side sunk.left leftNone ihl, side sunk.right rightNone ihr]

/-- However often the pass comes back to what it has rewritten, it ends, with the plan that a single walk gives;
this plan has the columns and the joins of the one before, a second pass leaves it as it is, and no condition
directly above a join could be put into one of its sides. -/
theorem pushFilters_fixed (p : Plan) :
    (∀ q, p.Sinks q ↔ q = p.pushFilters) ∧ p.pushFilters.columns? = p.columns? ∧ p.pushFilters.joins = p.joins ∧
      p.pushFilters.pushFilters = p.pushFilters ∧
      ∀ e s l r, step (.filter e) (join s l r) ∈ p.pushFilters.nodes →
        ∀ c ∈ e.conjuncts, target? s.kind (joinLayout? s l r) c = none := by
  refine ⟨fun q => ⟨Sinks.eq_pushFilters, ?_⟩, columns?_pushFilters p, joins_pushFilters p,
    pushFilters_of_sunk (sunk_pushFilters p), fun e s l r h => (sunk_pushFilters p e s l r h).2⟩
  rintro rfl
  exact sinks_pushFilters p

end Plan

end Columnar
