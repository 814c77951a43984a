import Columnar.Pass.FilterPlacement
import Columnar.Proofs.Operators

namespace Columnar

theorem Mask.holds_and {m k : Mask} (h : m.size = k.size) (i : Nat) :
    (m.and k).holds i = (m.holds i && k.holds i) := by
  simp only [Mask.holds]
  by_cases hi : i < m.size
  · rw [Mask.and, Mask.Local.join_zipWith hi (h ▸ hi)]
    cases m[i]?.join with
    | none => cases k[i]?.join with
      | none => rfl
      | some b => cases b <;> rfl
    | some a => cases k[i]?.join with
      | none => cases a <;> rfl
      | some b => cases a <;> cases b <;> rfl
  · have out : (m.and k).size ≤ i := by
      rw [Mask.and, Array.size_zipWith]
      omega
    rw [Array.getElem?_eq_none out, Array.getElem?_eq_none (Nat.le_of_not_lt hi)]
    rfl

namespace Expr

variable {f f' : Frame} {rows : List Nat} {e : Expr}

def holdsAt (f : Frame) (e : Expr) (i : Nat) : Bool :=
  match e.evaluateMask f with
  | .ok m => m.holds i
  | .error _ => false

theorem holdsAt_of_mask {m : Mask} (h : e.evaluateMask f = .ok m) (i : Nat) : e.holdsAt f i = m.holds i := by
  rw [holdsAt, h]

theorem mask_local (picking : Picking f.height rows) (height : rows.length = f'.height)
    (found : ∀ n, .column n ∈ e.nodes →
      Agrees (Column.Local f.height rows) (f.column n) (f'.column n)) :
    Agrees (Mask.Local f.height rows) (e.evaluateMask f) (e.evaluateMask f') :=
  (eval_local height picking e found).mask e e

theorem select_mask (hf : f.Rectangular) (h : Frame.Selects rows f f') (picking : Picking f.height rows) :
    Agrees (Mask.Local f.height rows) (e.evaluateMask f) (e.evaluateMask f') :=
  mask_local picking h.height.symm fun n _ => h.found hf n

theorem size_evaluateMask (hf : f.Capped) {m : Mask} (h : e.evaluateMask f = .ok m) : m.size = f.height := by
  have self := select_mask (e := e) hf.toRectangular (Frame.selects_range hf.toRectangular) (.all hf.short)
  obtain ⟨_, _, hm⟩ := self.follows m h
  exact hm.height

theorem eval_and (f : Frame) (l r : Expr) :
    (binary .and l r).eval f = (do
      let a ← l.evaluateMask f
      let b ← r.evaluateMask f
      pure (.ofMask "mask" (a.and b))) := by
  rw [eval]
  simp only [BinaryOp.family, evaluateMask]
  cases l.eval f with
  | error => rfl
  | ok c =>
    cases hm : l.toMask c with
    | error => simp only [hm, bind, Except.bind]
    | ok m => cases r.eval f <;> simp only [hm, bind, Except.bind]

theorem evaluateMask_and_eq (f : Frame) (l r : Expr) :
    (binary .and l r).evaluateMask f = (do
      let a ← l.evaluateMask f
      let b ← r.evaluateMask f
      pure (a.and b)) := by
  rw [evaluateMask, eval_and]
  cases l.evaluateMask f with
  | error => rfl
  | ok a => cases r.evaluateMask f <;> rfl

theorem evaluateMask_and {l r : Expr} {m : Mask} :
    (binary .and l r).evaluateMask f = .ok m ↔ ∃ a, l.evaluateMask f = .ok a ∧
      ∃ b, r.evaluateMask f = .ok b ∧ a.and b = m := by
  simp only [evaluateMask_and_eq, bind_eq_ok, pure_eq_ok]

def Decides (f : Frame) (e : Expr) : Prop := ∃ m, e.evaluateMask f = .ok m

theorem decides_and {l r : Expr} : (binary .and l r).Decides f ↔ l.Decides f ∧ r.Decides f := by
  simp only [Decides, evaluateMask_and]
  constructor
  · rintro ⟨_, a, ha, b, hb, -⟩
    exact ⟨⟨a, ha⟩, b, hb⟩
  · rintro ⟨⟨a, ha⟩, b, hb⟩
    exact ⟨_, a, ha, b, hb, rfl⟩

theorem holdsAt_and (hf : f.Sane) {l r : Expr} (hl : l.Decides f) (hr : r.Decides f) (i : Nat) :
    (binary .and l r).holdsAt f i = (l.holdsAt f i && r.holdsAt f i) := by
  obtain ⟨a, ha⟩ := hl
  obtain ⟨b, hb⟩ := hr
  rw [holdsAt_of_mask (evaluateMask_and.2 ⟨a, ha, b, hb, rfl⟩), holdsAt_of_mask ha, holdsAt_of_mask hb]
  exact Mask.holds_and ((size_evaluateMask hf.toCapped ha).trans (size_evaluateMask hf.toCapped hb).symm) i

theorem conjuncts_spec (hf : f.Sane) (e : Expr) (h : e.Decides f) :
    (∀ x ∈ e.conjuncts, x.Decides f) ∧ ∀ i, e.holdsAt f i = e.conjuncts.all (holdsAt f · i) := by
  induction e using conjuncts.induct with
  | case1 l r ihl ihr =>
    obtain ⟨hl, hr⟩ := decides_and.1 h
    rw [conjuncts]
    refine ⟨List.forall_mem_append.2 ⟨(ihl hl).1, (ihr hr).1⟩, fun i => ?_⟩
    rw [holdsAt_and hf hl hr, List.all_append, (ihl hl).2, (ihr hr).2]
  | case2 e plain =>
    have single : e.conjuncts = [e] := by
      unfold conjuncts
      split
      next l r => exact absurd rfl (plain l r)
      · rfl
    rw [single]
    exact ⟨List.forall_mem_singleton.2 h, fun i => by simp⟩

theorem foldl_and_spec (hf : f.Sane) (es : List Expr) : ∀ e : Expr, (∀ x ∈ e :: es, x.Decides f) →
    (es.foldl (binary .and) e).Decides f ∧
      ∀ i, (es.foldl (binary .and) e).holdsAt f i = (e :: es).all (holdsAt f · i) := by
  induction es with
  | nil => exact fun e h => ⟨h e List.mem_cons_self, fun i => by simp⟩
  | cons x es ih =>
    intro e h
    rw [List.forall_mem_cons, List.forall_mem_cons] at h
    obtain ⟨he, hx, hes⟩ := h
    obtain ⟨decides, holds⟩ := ih (binary .and e x) (List.forall_mem_cons.2 ⟨decides_and.2 ⟨he, hx⟩, hes⟩)
    refine ⟨decides, fun i => ?_⟩
    rw [List.foldl_cons, holds, List.all_cons, holdsAt_and hf he hx, List.all_cons, List.all_cons,
      Bool.and_assoc]

theorem conjunction_spec (hf : f.Sane) {es : List Expr} (nonempty : es ≠ []) (h : ∀ x ∈ es, x.Decides f) :
    (conjunction es).Decides f ∧ ∀ i, (conjunction es).holdsAt f i = es.all (holdsAt f · i) := by
  cases es with
  | nil => exact absurd rfl nonempty
  | cons e es => exact foldl_and_spec hf es e h

theorem decides_select (hf : f.Rectangular) (h : Frame.Selects rows f f') (picking : Picking f.height rows)
    (he : e.Decides f) : e.Decides f' ∧ ∀ i j, rows[i]? = some j → e.holdsAt f' i = e.holdsAt f j := by
  obtain ⟨m, hm⟩ := he
  obtain ⟨m', hm', same⟩ := (select_mask hf h picking).follows m hm
  refine ⟨⟨m', hm'⟩, fun i j hij => ?_⟩
  rw [holdsAt_of_mask hm, holdsAt_of_mask hm', same.holds hij]

end Expr

namespace Frame

variable {f f' f'' : Frame} {rows rows' : List Nat}

theorem Selects.trans (h : Selects rows f f') (h' : Selects rows' f' f'') {rows'' : List Nat}
    (hrows : rows''.map some = rows'.map (rows[·]?)) : Selects rows'' f f'' := by
  have length : rows''.length = rows'.length := by simpa using congrArg List.length hrows
  have back : List.Forall₂ (fun d c : Column => d.name = c.name ∧ c.Draws rows d) f'.columns f.columns :=
    List.Forall₂.flip h.columns
  refine ⟨h'.height.trans length.symm, forall₂_common back h'.columns fun d c _ e _ hcd hde => ?_⟩
  refine ⟨hde.1.trans hcd.1, ⟨hde.2.dtype.trans hcd.2.dtype, hde.2.height.trans length.symm, fun i => ?_⟩,
    fun sound => hde.2.sound (hcd.2.sound sound)⟩
  have place := congrArg (·[i]?) hrows
  simp only [List.getElem?_map] at place
  rw [hde.2.reads, funext hcd.2.reads]
  cases hi : rows'[i]? with
  | none =>
    rw [hi] at place
    cases ht : rows''[i]? with
    | none => rfl
    | some j => rw [ht] at place; cases place
  | some k =>
    rw [hi] at place
    cases ht : rows''[i]? with
    | none => rw [ht] at place; cases place
    | some j =>
      rw [ht] at place
      have same : rows[k]? = some j := (Option.some.inj place).symm
      rw [Option.bind_some, same]

theorem Selects.eq_alike (hf : f.Sane) (h : Selects rows f f') (h' : Selects rows f f'') : f'.Alike f'' :=
  h.alike h' (.refl hf)

def filterBy (f : Frame) (es : List Expr) : Except Error Frame :=
  if es.isEmpty then .ok f else (Expr.conjunction es).evaluateMask f >>= f.filter

theorem map_filter_getElem? (q : α → Bool) (rows : List α) (p : Nat → Bool)
    (h : ∀ i j, rows[i]? = some j → p i = q j) :
    (rows.filter q).map some = ((List.range rows.length).filter p).map (rows[·]?) := by
  induction rows generalizing p with
  | nil => rfl
  | cons j rows ih =>
    rw [List.length_cons, List.range_succ_eq_map, List.filter_cons, List.filter_cons, h 0 j rfl,
      List.filter_map]
    have rest := ih (p ∘ Nat.succ) fun i k hk => h (i + 1) k hk
    split
    · rw [List.map_cons, List.map_cons, rest, List.map_map]
      rfl
    · rw [rest, List.map_map]
      rfl

theorem filterBy_selects (hf : f.Sane) (h : Selects rows f f') (below : ∀ i ∈ rows, i < f.height)
    (fewer : rows.length ≤ f.height) {es : List Expr} (decides : ∀ e ∈ es, e.Decides f) :
    ∃ f'', f'.filterBy es = .ok f'' ∧ Selects (rows.filter fun i => es.all (Expr.holdsAt f · i)) f f'' := by
  unfold filterBy
  cases es with
  | nil => exact ⟨f', rfl, by simpa using h⟩
  | cons e es =>
    have hf' := h.sane hf fewer
    have picking := hf.picking below fewer
    have decides' : ∀ x ∈ e :: es, x.Decides f' := fun x hx =>
      (Expr.decides_select hf.toRectangular h picking (decides x hx)).1
    obtain ⟨⟨m, hm⟩, holds⟩ := Expr.conjunction_spec hf' (List.cons_ne_nil e es) decides'
    have size := Expr.size_evaluateMask hf'.toCapped hm
    obtain ⟨f'', hf''⟩ := filter_ok hf'.toRectangular size
    refine ⟨f'', bind_eq_ok.2 ⟨m, hm, hf''⟩, h.trans (selects_filter hf'').2 ?_⟩
    rw [Mask.kept, size, h.height]
    refine map_filter_getElem? _ rows _ fun i j hij => ?_
    rw [← Expr.holdsAt_of_mask hm, holds]
    have each : ∀ x ∈ e :: es, x.holdsAt f' i = x.holdsAt f j := fun x hx =>
      (Expr.decides_select hf.toRectangular h picking (decides x hx)).2 i j hij
    rw [Bool.eq_iff_iff, List.all_eq_true, List.all_eq_true]
    exact forall₂_congr fun x hx => by rw [each x hx]

end Frame

end Columnar
