import Columnar.Pass.FilterMerge
import Columnar.Proofs.Pushing
import Columnar.Proofs.Shapes
import Columnar.Proofs.Typing

/-!
Stacked filters are one filter by the conjunction of their conditions. What the upper filter asks of the rows that
the lower one has kept has the same answers, and the same failures, when it is asked of all rows.
-/

namespace Columnar

namespace Mask

variable {m k k' : Mask}

theorem andValue_eq_true {a b : Option Bool} : andValue a b = some true ↔ a = some true ∧ b = some true := by
  rcases a with _ | _ | _ <;> rcases b with _ | _ | _ <;> decide

theorem filterMap_keep (xs : List α) (ms ks : List (Option Bool)) :
    ((((xs.zip ms).filterMap fun (x, b) => if b = some true then some x else none).zip
      ((ks.zip ms).filterMap fun (x, b) => if b = some true then some x else none)).filterMap
        fun (x, b) => if b = some true then some x else none) =
      (xs.zip (ms.zipWith andValue ks)).filterMap fun (x, b) => if b = some true then some x else none := by
  induction xs generalizing ms ks with
  | nil => simp
  | cons x xs ih =>
    cases ms with
    | nil => simp
    | cons m ms =>
      cases ks with
      | nil => simp
      | cons k ks =>
        rw [List.zipWith_cons_cons, List.zip_cons_cons, List.zip_cons_cons, List.zip_cons_cons]
        by_cases hm : m = some true
        · by_cases hk : k = some true <;> simp [hm, hk, ih, andValue_eq_true]
        · simp [hm, ih, andValue_eq_true]

theorem keep_keep (m k : Mask) (rows : Array α) : keep (m.keep k) (m.keep rows) = (m.and k).keep rows := by
  apply Array.toList_inj.1
  simp only [keep, and, Array.toList_filterMap, Array.toList_zip, Array.toList_zipWith]
  exact filterMap_keep rows.toList m.toList k.toList

theorem size_keep_eq_count {rows : Array α} (h : rows.size = m.size) : (m.keep rows).size = m.count := by
  rw [size_keep m rows h, count_eq]

theorem size_and (h : k.size = m.size) : (m.and k).size = m.size := by
  rw [and, Array.size_zipWith, h, Nat.min_self]

theorem count_keep (h : k.size = m.size) : count (m.keep k) = (m.and k).count := by
  have both := congrArg Array.size (keep_keep m k k)
  rwa [size_keep_eq_count rfl, size_keep_eq_count (h.trans (size_and h).symm)] at both

theorem Local.eq_keep (h : Local m.size m.kept k k') : k' = m.keep k := by
  refine Array.ext_getElem? fun i => ?_
  have answers := h.answers i
  rw [m.getElem?_keep k h.height]
  cases hi : m.kept[i]? with
  | none => rw [Array.getElem?_eq_none (h.size ▸ List.getElem?_eq_none_iff.1 hi), Option.bind_none]
  | some j =>
    have inside : i < k'.size := h.size.symm ▸ (List.getElem?_eq_some_iff.1 hi).1
    have below : j < k.size := h.height.symm ▸ lt_size_of_mem_kept (List.mem_of_getElem? hi)
    rw [hi, Option.bind_some, Array.getElem?_eq_getElem inside, Array.getElem?_eq_getElem below] at answers
    rw [Option.bind_some, Array.getElem?_eq_getElem inside, Array.getElem?_eq_getElem below]
    exact congrArg some answers

end Mask

namespace Column

variable {c d : Column} {m k : Mask}

theorem filter_eq (h : m.size = c.height) : c.filter m =
    .ok (if m.count = 0 then nulls c.name 0 c.dtype else ⟨c.name, c.cells.rearrange m.count m.keep⟩) := by
  rw [filter, if_neg (not_not_intro h)]
  split <;> rfl

theorem filter_filter (hd : c.filter m = .ok d) (hk : k.size = m.size) :
    d.filter (m.keep k) = c.filter (m.and k) := by
  obtain ⟨hm, draws⟩ := draws_filter hd
  have height : d.height = m.count := draws.height.trans m.count_eq.symm
  rw [filter_eq ((Mask.size_keep_eq_count hk).trans height.symm), filter_eq ((Mask.size_and hk).trans hm),
    Mask.count_keep hk, draws.dtype, name_filter hd]
  rw [filter_eq hm] at hd
  cases hd
  by_cases none : m.count = 0
  · -- No row is left to the second mask.
    have none' : (m.and k).count = 0 := by
      rw [← Mask.count_keep hk, Mask.count, Array.size_eq_zero_iff.1 ((Mask.size_keep_eq_count hk).trans none)]
      rfl
    rw [if_pos none', if_pos none']
  · simp only [if_neg none, Cells.rearrange_rearrange, Mask.keep_keep]

end Column

namespace Frame

variable {f g : Frame} {m k : Mask}

theorem filter_filter (hg : f.filter m = .ok g) (hk : k.size = m.size) :
    g.filter (m.keep k) = f.filter (m.and k) := by
  obtain ⟨hm, -⟩ := selects_filter hg
  rw [filter, if_neg (not_not_intro hm)] at hg
  obtain ⟨cs, hcs, hg⟩ := bind_eq_ok.1 hg
  obtain ⟨-, -, rfl⟩ := ofColumnsAt_eq_ok.1 hg
  have columns : cs.mapM (·.filter (m.keep k)) = f.columns.mapM (·.filter (m.and k)) :=
    (mapM_eq_mapM (mapM_eq_ok.1 hcs) fun c d hd => (Column.filter_filter hd hk).symm).symm
  rw [filter, filter, columns, if_neg (not_not_intro (Mask.size_keep_eq_count hk)),
    if_neg (not_not_intro ((Mask.size_and hk).trans hm)), Mask.count_keep hk]

end Frame

namespace Expr

variable {f : Frame}

/-- To filter by one condition and then by another is to filter by both at once, failures included. -/
theorem filter_then_filter (hf : f.Capped) (q p : Expr) :
    (q.evaluateMask f >>= f.filter) >>= (fun g => p.evaluateMask g >>= g.filter) =
      (binary .and q p).evaluateMask f >>= f.filter := by
  rw [evaluateMask_and_eq]
  cases hq : q.evaluateMask f with
  | error => rfl
  | ok m =>
    have size := size_evaluateMask hf hq
    obtain ⟨g, hg⟩ := Frame.filter_ok hf.toRectangular size
    have selects := (Frame.selects_filter hg).2
    have upper : (f.filter m >>= fun g => p.evaluateMask g >>= g.filter) = p.evaluateMask g >>= g.filter := by
      rw [hg]
      rfl
    refine upper.trans ?_
    cases hp : p.evaluateMask f with
    | error =>
      rw [evaluateMask_error_of_schema hf (hf.filter hg) selects.schema hp]
      rfl
    | ok k =>
      have below : ∀ i ∈ m.kept, i < f.height := fun i hi => size ▸ Mask.lt_size_of_mem_kept hi
      have picking := hf.picking below (size ▸ m.length_kept_le)
      obtain ⟨k', hk', answers⟩ := (select_mask hf.toRectangular selects picking).follows k hp
      rw [← size] at answers
      rw [hk', answers.eq_keep]
      exact Frame.filter_filter hg answers.height

end Expr

namespace Plan

variable {host : Host} {x : Plan}

def nodes : Plan → List Plan
  | scan s proj => [scan s proj]
  | step op x => step op x :: x.nodes
  | join s l r => join s l r :: (l.nodes ++ r.nodes)
  | cache id x => cache id x :: x.nodes

theorem framed_filterOnto (p : Expr) : (filterOnto p x).Framed ↔ x.Framed := by
  unfold filterOnto
  split <;> rfl

theorem caches_filterOnto (p : Expr) : (filterOnto p x).caches = x.caches := by
  unfold filterOnto
  split <;> rfl

theorem eval_filterOnto (hx : x.Framed) (p : Expr) : (filterOnto p x).eval host = (step (.filter p) x).eval host := by
  unfold filterOnto
  split
  next q x =>
    have below : x.Framed := hx
    simp only [eval]
    cases hf : x.eval host with
    | error => rfl
    | ok f => exact (Expr.filter_then_filter (eval_capped below hf) q p).symm
  next => rfl

theorem framed_mergeFilters (x : Plan) : x.mergeFilters.Framed ↔ x.Framed := by
  induction x with
  | scan s proj => exact Iff.rfl
  | step op x ih =>
    cases op with
    | filter p => exact (framed_filterOnto p).trans ih
    | _ => exact ih
  | join s l r ihl ihr => exact and_congr ihl ihr
  | cache id x ih => exact ih

theorem caches_mergeFilters (x : Plan) :
    x.mergeFilters.caches = x.caches.map fun c => (c.1, c.2.mergeFilters) := by
  induction x with
  | scan s proj => rfl
  | step op x ih =>
    cases op with
    | filter p => exact (caches_filterOnto p).trans ih
    | _ => exact ih
  | join s l r ihl ihr => rw [mergeFilters, caches, caches, ihl, ihr, List.map_append]
  | cache id x ih => exact congrArg _ ih

theorem eval_mergeFilters (hx : x.Framed) : x.mergeFilters.eval host = x.eval host := by
  induction x with
  | scan s proj => rfl
  | step op x ih =>
    have below : (step op x.mergeFilters).eval host = (step op x).eval host := by rw [eval, eval, ih hx]
    cases op with
    | filter p => exact (eval_filterOnto ((framed_mergeFilters x).2 hx) p).trans below
    | _ => exact below
  | join s l r ihl ihr => rw [mergeFilters, eval, eval, ihl hx.1, ihr hx.2]
  | cache id x ih => exact ih hx

def Unstacked (x : Plan) : Prop := ∀ p q y, step (.filter p) (step (.filter q) y) ∉ x.nodes

theorem unstacked_step {op : Operator} (h : x.Unstacked)
    (plain : ∀ p q y, op = .filter p → x ≠ step (.filter q) y) : (step op x).Unstacked := by
  intro p q y hy
  rcases List.mem_cons.1 hy with top | below
  · cases top
    exact plain p q y rfl rfl
  · exact h p q y below

theorem unstacked_filterOnto (p : Expr) (h : x.Unstacked) : (filterOnto p x).Unstacked := by
  unfold filterOnto
  split
  next q x =>
    refine unstacked_step (fun p' q' y hy => h p' q' y (List.mem_cons_of_mem _ hy)) fun _ q' y _ hx => ?_
    exact h q q' y (hx ▸ List.mem_cons_self)
  next plain => exact unstacked_step h fun _ q y _ => plain q y

theorem unstacked_mergeFilters (x : Plan) : x.mergeFilters.Unstacked := by
  induction x with
  | scan s proj =>
    intro p q y hy
    cases List.mem_singleton.1 hy
  | step op x ih =>
    cases op with
    | filter p => exact unstacked_filterOnto p ih
    | _ => exact unstacked_step ih nofun
  | join s l r ihl ihr =>
    intro p q y hy
    rcases List.mem_cons.1 hy with top | below
    · cases top
    · exact (List.mem_append.1 below).elim (ihl p q y) (ihr p q y)
  | cache id x ih =>
    intro p q y hy
    rcases List.mem_cons.1 hy with top | below
    · cases top
    · exact ih p q y below

/-- Joining stacked filters into one changes nothing in what a plan gives, be it a frame or a failure, and leaves no
filter directly above another one. -/
theorem mergeFilters_preserves (host : Host) {p : Plan} (framed : p.Framed) (settled : p.Settled) :
    p.mergeFilters.result host = p.result host ∧
      ∀ a b x, step (.filter a) (step (.filter b) x) ∉ p.mergeFilters.nodes := by
  refine ⟨?_, unstacked_mergeFilters p⟩
  rw [result_eq_eval host settled, result_eq_eval host (settled.map (caches_mergeFilters p))]
  exact eval_mergeFilters framed

theorem framed_read {f : Frame} (h : f.Capped) : (read f).Framed := by
  rintro _ _ ⟨⟩
  exact h

def flaggedRows : Frame :=
  ⟨[⟨"a", .int64 #[some 1, some 2, none, some 4]⟩, ⟨"b", .bool #[some true, none, none, some true]⟩], 4⟩

def filteredThrice : Plan :=
  (((read flaggedRows).filter (.binary .gt (.column "a") (.literal (.int 1)))).filter (.column "b")).filter
    (.isNotNull (.column "a"))

def filteredTwice : Plan := (cache 0 filteredThrice).crossJoin (cache 0 filteredThrice) ""

theorem mergeFilters_filteredTwice :
    (filteredTwice.mergeFilters.result Host.hashing = filteredTwice.result Host.hashing ∧
      ∀ a b x, step (.filter a) (step (.filter b) x) ∉ filteredTwice.mergeFilters.nodes) ∧
      (filteredTwice.result Host.hashing).isOk := by
  have framed : filteredThrice.Framed :=
    framed_read (Frame.sane_of_plain (by decide) (by decide) (by decide)).toCapped
  have caches : filteredTwice.caches = List.replicate 2 (0, filteredThrice) := rfl
  have settled : filteredTwice.Settled := fun id x y hx hy => by
    rw [caches] at hx hy
    cases List.eq_of_mem_replicate hx
    cases List.eq_of_mem_replicate hy
    rfl
  exact ⟨mergeFilters_preserves Host.hashing ⟨framed, framed⟩ settled, by decide +kernel⟩

end Plan

end Columnar
