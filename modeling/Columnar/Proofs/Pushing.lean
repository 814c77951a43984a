import Columnar.Proofs.Placing
import Columnar.Query

namespace Columnar.Plan

variable {host : Host}

theorem all_split (kind : JoinKind) (layout : Option (List JoinColumn)) (es : List Expr) (p : Expr → Bool) :
    es.all p = (((split kind layout es).left.all p && (split kind layout es).right.all p) &&
      (split kind layout es).keep.all p) := by
  simp only [split]
  induction es with
  | nil => rfl
  | cons e es ih =>
    simp only [List.filter_cons, List.all_cons, ih]
    cases target? kind layout e with
    | none => simp [Bool.and_left_comm]
    | some side => cases side <;> simp [Bool.and_assoc, Bool.and_left_comm]

theorem target?_eq_some {kind : JoinKind} {layout : Option (List JoinColumn)} {e : Expr} {side : JoinSide}
    (h : target? kind layout e = some side) :
    kind.preserves side ∧ ∃ cs, layout = some cs ∧ JoinColumn.commonSide? cs e.columns = some side := by
  obtain ⟨hside, keeps⟩ := Option.filter_eq_some_iff.1 h
  refine ⟨keeps, ?_⟩
  unfold sideOf? at hside
  split at hside
  · cases hside
  · exact Option.bind_eq_some_iff.1 hside

theorem goTo_split (kind : JoinKind) {layout : Option (List JoinColumn)} {cs : List JoinColumn}
    (known : ∀ cs', layout = some cs' → cs' = cs) (es : List Expr) :
    Join.GoTo kind cs .left (split kind layout es).left ∧ Join.GoTo kind cs .right (split kind layout es).right := by
  constructor
  all_goals
    intro e he
    obtain ⟨keeps, cs', hcs', common⟩ := target?_eq_some (by simpa using (List.mem_filter.1 he).2)
    exact ⟨keeps, known cs' hcs' ▸ common⟩

theorem mem_split {kind : JoinKind} {layout : Option (List JoinColumn)} {es : List Expr} {e : Expr}
    (h : e ∈ (split kind layout es).left ++ (split kind layout es).right ++ (split kind layout es).keep) :
    e ∈ es := by
  simp only [split, List.mem_append, List.mem_filter] at h
  rcases h with (h | h) | h <;> exact h.1

theorem split_joined (merge : host.autoSortMerge = false) {l r out : Frame} {s : JoinSpec} (hl : l.Sane)
    (hr : r.Sane) (h : Join.joined host l r s = .ok out) {layout : Option (List JoinColumn)}
    (known : ∀ cs, layout = some cs → cs = s.layout l.names r.names) {es : List Expr}
    (decides : ∀ e ∈ (split s.kind layout es).left ++ (split s.kind layout es).right, e.Decides out) :
    ∃ l' r' out', l.filterBy (split s.kind layout es).left = .ok l' ∧
      r.filterBy (split s.kind layout es).right = .ok r' ∧ Join.joined host l' r' s = .ok out' ∧
      Frame.Selects ((List.range out.height).filter fun i =>
        (split s.kind layout es).left.all (Expr.holdsAt out · i) &&
          (split s.kind layout es).right.all (Expr.holdsAt out · i)) out out' := by
  obtain ⟨goLeft, goRight⟩ := goTo_split s.kind known es
  by_cases wide : s.layout l.names r.names = []
  · -- Without columns there is nothing that a condition could be moved for.
    have nothing {side : JoinSide} {es : List Expr} (go : Join.GoTo s.kind [] side es) : es = [] :=
      List.eq_nil_iff_forall_not_mem.2 fun e he => by
        obtain ⟨nonempty, plain⟩ := JoinColumn.commonSide?_eq_some (go e he).2
        cases plain _ (List.head_mem nonempty)
    rw [wide] at goLeft goRight
    refine ⟨l, r, out, by rw [nothing goLeft]; rfl, by rw [nothing goRight]; rfl, h, ?_⟩
    simpa [nothing goLeft, nothing goRight] using Frame.selects_range (Join.joined_sane hl hr h).toRectangular
  · exact Join.narrow merge hl hr h wide goLeft goRight decides

theorem filter_joined (merge : host.autoSortMerge = false) {l r out F : Frame} {s : JoinSpec} (hl : l.Sane)
    (hr : r.Sane) (h : Join.joined host l r s = .ok out) {p : Expr}
    (hF : p.evaluateMask out >>= out.filter = .ok F) {layout : Option (List JoinColumn)}
    (known : ∀ cs, layout = some cs → cs = s.layout l.names r.names) :
    ∃ l' r' out' F', l.filterBy (split s.kind layout p.conjuncts).left = .ok l' ∧
      r.filterBy (split s.kind layout p.conjuncts).right = .ok r' ∧ Join.joined host l' r' s = .ok out' ∧
      out'.filterBy (split s.kind layout p.conjuncts).keep = .ok F' ∧ F.Alike F' := by
  have sane := Join.joined_sane hl hr h
  obtain ⟨m, hm, hF⟩ := bind_eq_ok.1 hF
  obtain ⟨decides, holds⟩ := Expr.conjuncts_spec sane p ⟨m, hm⟩
  obtain ⟨size, selects⟩ := Frame.selects_filter hF
  have decides' : ∀ e ∈ (split s.kind layout p.conjuncts).left ++ (split s.kind layout p.conjuncts).right ++
      (split s.kind layout p.conjuncts).keep, e.Decides out := fun e he => decides e (mem_split he)
  obtain ⟨decidesSides, decidesKeep⟩ := List.forall_mem_append.1 decides'
  obtain ⟨l', r', out', hl', hr', hout', selects'⟩ := split_joined merge hl hr h known decidesSides
  obtain ⟨F', hF', selectsF⟩ := Frame.filterBy_selects sane selects'
    (fun i hi => List.mem_range.1 (List.mem_filter.1 hi).1)
    (Nat.le_trans (List.length_filter_le ..) (Nat.le_of_eq List.length_range)) decidesKeep
  refine ⟨l', r', out', F', hl', hr', hout', hF', selects.eq_alike sane ?_⟩
  have rows : m.kept = ((List.range out.height).filter fun i =>
      (split s.kind layout p.conjuncts).left.all (Expr.holdsAt out · i) &&
        (split s.kind layout p.conjuncts).right.all (Expr.holdsAt out · i)).filter fun i =>
          (split s.kind layout p.conjuncts).keep.all (Expr.holdsAt out · i) := by
    rw [Mask.kept, size, List.filter_filter]
    refine List.filter_congr fun i _ => ?_
    rw [← Expr.holdsAt_of_mask hm, holds, all_split s.kind layout, Bool.and_comm]
  rw [rows]
  exact selectsF

theorem filterBy_alike {f g : Frame} (hf : f.Sane) (hg : g.Sane) (h : f.Alike g) (es : List Expr) :
    Follows Frame.Alike (f.filterBy es) (g.filterBy es) := by
  unfold Frame.filterBy
  split
  · exact .ok h
  · refine (Expr.filter_sameRows hg h.height ?_).mono fun _ _ _ _ same => @same.serves none _ _ _ _ h
    exact Expr.eval_alike hf.toCapped (h.offers _) fun _ hn => hn

theorem faithful_filterAll {es : List Expr} {x : Plan} (h : x.Faithful) : (filterAll es x).Faithful := by
  unfold filterAll
  split
  · exact h
  · exact ⟨trivial, h⟩

theorem faithful_place {p : Expr} {x : Plan} (h : x.Faithful) : (x.place p).Faithful := by
  induction x generalizing p with
  | scan s proj => exact ⟨trivial, h⟩
  | step op x ih => exact ⟨trivial, h⟩
  | cache id x ih => exact ⟨trivial, h⟩
  | join s l r ihl ihr =>
    rw [place]
    refine faithful_filterAll ⟨?_, ?_⟩
    · split
      · exact h.1
      · exact ihl h.1
    · split
      · exact h.2
      · exact ihr h.2

theorem eval_filterAll (es : List Expr) (x : Plan) :
    (filterAll es x).eval host = x.eval host >>= (Frame.filterBy · es) := by
  unfold filterAll Frame.filterBy
  split
  · cases x.eval host <;> rfl
  · rfl

theorem joinLayout?_told {s : JoinSpec} {l r : Plan} (hl : l.Faithful) (hr : r.Faithful) {fl fr : Frame}
    (hfl : l.eval host = .ok fl) (hfr : r.eval host = .ok fr) {cs : List JoinColumn}
    (h : joinLayout? s l r = some cs) : cs = s.layout fl.names fr.names := by
  obtain ⟨left, hleft, h⟩ := Option.bind_eq_some_iff.1 h
  obtain ⟨right, hright, h⟩ := Option.bind_eq_some_iff.1 h
  cases h
  rw [(eval_told hl hfl).2 left hleft, (eval_told hr hfr).2 right hright]

theorem side_follows {y : Plan} (hy : y.Faithful)
    (placed : ∀ p, Follows Frame.Alike ((step (.filter p) y).eval host) ((y.place p).eval host)) {f f' : Frame}
    {es : List Expr} (hf : y.eval host = .ok f) (hf' : f.filterBy es = .ok f') :
    ∃ g, (if es.isEmpty then y else y.place (.conjunction es)).eval host = .ok g ∧ g.Sane ∧ f'.Alike g := by
  unfold Frame.filterBy at hf'
  split at hf'
  next none =>
    cases hf'
    have sane := eval_sane hy hf
    exact ⟨f, by rw [if_pos none, hf], sane, .refl sane⟩
  next nonempty =>
    obtain ⟨g, hg, alike⟩ := placed _ f' (bind_eq_ok.2 ⟨f, hf, hf'⟩)
    exact ⟨g, by rw [if_neg nonempty, hg], eval_sane (faithful_place hy) hg, alike⟩

/-- A filter that is put as far down as it goes gives what it gave above. -/
theorem place_follows (merge : host.autoSortMerge = false) {x : Plan} (hx : x.Faithful) (p : Expr) :
    Follows Frame.Alike ((step (.filter p) x).eval host) ((x.place p).eval host) := by
  have same {y : Plan} (hy : y.Faithful) : Follows Frame.Alike (y.eval host) (y.eval host) :=
    fun f hf => ⟨f, hf, .refl (eval_sane hy hf)⟩
  induction x generalizing p with
  | scan s proj => exact same ⟨trivial, hx⟩
  | step op x ih => exact same ⟨trivial, hx⟩
  | cache id x ih => exact same ⟨trivial, hx⟩
  | join s l r ihl ihr =>
    intro F hF
    obtain ⟨out, hout, hF⟩ := bind_eq_ok.1 hF
    obtain ⟨fl, hfl, hout⟩ := bind_eq_ok.1 hout
    obtain ⟨fr, hfr, hout⟩ := bind_eq_ok.1 hout
    obtain ⟨l', r', out', F', hl', hr', hout', hF', alike⟩ := filter_joined merge (eval_sane hx.1 hfl)
      (eval_sane hx.2 hfr) hout hF fun cs hcs => joinLayout?_told hx.1 hx.2 hfl hfr hcs
    obtain ⟨gl, hgl, saneL, alikeL⟩ := side_follows hx.1 (ihl hx.1) hfl hl'
    obtain ⟨gr, hgr, saneR, alikeR⟩ := side_follows hx.2 (ihr hx.2) hfr hr'
    obtain ⟨J, hJ, built⟩ := Join.joined_built host (alikeL.sane saneL) (alikeR.sane saneR) saneL saneR alikeL
      alikeR out' hout'
    obtain ⟨G, hG, alikeF⟩ := filterBy_alike built.sane (Join.joined_sane saneL saneR hJ) built.alike _ F' hF'
    refine ⟨G, ?_, alike.trans alikeF⟩
    rw [place, eval_filterAll]
    exact bind_eq_ok.2 ⟨J, bind_eq_ok.2 ⟨gl, hgl, bind_eq_ok.2 ⟨gr, hgr, hJ⟩⟩, hG⟩

theorem step_follows {op : Operator} (det : op.Deterministic) {x y : Plan} (hx : x.Faithful)
    (hy : y.Faithful) (h : Follows Frame.Alike (x.eval host) (y.eval host)) :
    Follows Frame.Alike ((step op x).eval host) ((step op y).eval host) := by
  intro F hF
  obtain ⟨f, hf, hF⟩ := bind_eq_ok.1 hF
  obtain ⟨g, hg, alike⟩ := h f hf
  obtain ⟨G, hG, served⟩ := @Operator.run_serves none _ _ host _ det (eval_sane hx hf) (eval_sane hy hg)
    alike.serves F hF
  exact ⟨G, bind_eq_ok.2 ⟨g, hg, hG⟩, served.serves⟩

theorem join_follows {s : JoinSpec} {l r l' r' : Plan} (hl : l.Faithful) (hr : r.Faithful)
    (hl' : l'.Faithful) (hr' : r'.Faithful) (left : Follows Frame.Alike (l.eval host) (l'.eval host))
    (right : Follows Frame.Alike (r.eval host) (r'.eval host)) :
    Follows Frame.Alike ((join s l r).eval host) ((join s l' r').eval host) := by
  intro F hF
  obtain ⟨fl, hfl, hF⟩ := bind_eq_ok.1 hF
  obtain ⟨fr, hfr, hF⟩ := bind_eq_ok.1 hF
  obtain ⟨gl, hgl, alikeL⟩ := left fl hfl
  obtain ⟨gr, hgr, alikeR⟩ := right fr hfr
  obtain ⟨G, hG, built⟩ := Join.joined_built host (eval_sane hl hfl) (eval_sane hr hfr)
    (eval_sane hl' hgl) (eval_sane hr' hgr) alikeL alikeR F hF
  exact ⟨G, bind_eq_ok.2 ⟨gl, hgl, bind_eq_ok.2 ⟨gr, hgr, hG⟩⟩, built.alike⟩

theorem faithful_pushFilters {x : Plan} (h : x.Faithful) : x.pushFilters.Faithful := by
  induction x with
  | scan s proj => exact h
  | step op x ih =>
    cases op with
    | filter p => exact faithful_place (ih h.2)
    | _ => exact ⟨h.1, ih h.2⟩
  | cache id x ih => exact ih h
  | join s l r ihl ihr => exact ⟨ihl h.1, ihr h.2⟩

theorem caches_filterAll (es : List Expr) (x : Plan) : (filterAll es x).caches = x.caches := by
  unfold filterAll
  split <;> rfl

theorem caches_place (p : Expr) (x : Plan) : (x.place p).caches = x.caches := by
  induction x generalizing p with
  | scan s proj => rfl
  | step op x ih => rfl
  | cache id x ih => rfl
  | join s l r ihl ihr =>
    rw [place, caches_filterAll, caches, caches]
    congr 1
    · split
      · rfl
      · exact ihl _
    · split
      · rfl
      · exact ihr _

theorem caches_pushFilters (x : Plan) :
    x.pushFilters.caches = x.caches.map fun c => (c.1, c.2.pushFilters) := by
  induction x with
  | scan s proj => rfl
  | step op x ih =>
    cases op with
    | filter p => exact (caches_place p _).trans ih
    | _ => exact ih
  | cache id x ih => exact congrArg _ ih
  | join s l r ihl ihr => rw [pushFilters, caches, caches, ihl, ihr, List.map_append]

theorem Settled.map {p q : Plan} {change : Plan → Plan} (h : p.Settled)
    (hq : q.caches = p.caches.map fun c => (c.1, change c.2)) : q.Settled := by
  intro id x y hx hy
  rw [hq] at hx hy
  obtain ⟨⟨_, x'⟩, hx', hx⟩ := List.mem_map.1 hx
  obtain ⟨⟨_, y'⟩, hy', hy⟩ := List.mem_map.1 hy
  cases hx
  cases hy
  exact congrArg change (h _ x' y' hx' hy')

theorem eval_pushFilters (merge : host.autoSortMerge = false) {x : Plan} (hx : x.Faithful) :
    Follows Frame.Alike (x.eval host) (x.pushFilters.eval host) := by
  induction x with
  | scan s proj => exact fun f hf => ⟨f, hf, .refl (eval_sane hx hf)⟩
  | step op x ih =>
    have below := step_follows hx.1 hx.2 (faithful_pushFilters hx.2) (ih hx.2)
    cases op with
    | filter p =>
      intro F hF
      obtain ⟨G, hG, alike⟩ := below F hF
      obtain ⟨H, hH, alike'⟩ := place_follows merge (faithful_pushFilters hx.2) p G hG
      exact ⟨H, hH, alike.trans alike'⟩
    | _ => exact below
  | cache id x ih => exact ih hx
  | join s l r ihl ihr =>
    exact join_follows hx.1 hx.2 (faithful_pushFilters hx.1) (faithful_pushFilters hx.2) (ihl hx.1) (ihr hx.2)

/-- Where joins are made by hash, moving filters below them changes nothing in what a plan gives: the same
rows in the same order under the same columns. -/
theorem pushFilters_preserves (merge : host.autoSortMerge = false) {p : Plan} (faithful : p.Faithful)
    (settled : p.Settled) {f : Frame} (h : p.result host = .ok f) :
    ∃ g, p.pushFilters.result host = .ok g ∧ f.Alike g := by
  rw [result_eq_eval host settled] at h
  rw [result_eq_eval host (settled.map (caches_pushFilters p))]
  exact eval_pushFilters merge faithful f h

def filteredPairs : Plan :=
  ((read ⟨[⟨"a", .int64 #[some 1, some 2, none]⟩], 3⟩).crossJoin
    (read ⟨[⟨"b", .int64 #[some 3, some 4]⟩], 2⟩) "").filter
      (.binary .and (.binary .gt (.column "a") (.literal (.int 1)))
        (.binary .lt (.column "b") (.literal (.int 4))))

theorem pushFilters_filteredPairs :
    ∃ f g, filteredPairs.result Host.hashing = .ok f ∧ filteredPairs.pushFilters.result Host.hashing = .ok g ∧
      f.Alike g := by
  have faithful : filteredPairs.Faithful :=
    ⟨trivial, Source.faithful_memory (Frame.sane_of_plain (by decide) (by decide) (by decide)),
      Source.faithful_memory (Frame.sane_of_plain (by decide) (by decide) (by decide))⟩
  have runs : (filteredPairs.result Host.hashing).isOk := by cbv
  obtain ⟨f, hf⟩ := isOk_iff.1 runs
  obtain ⟨g, hg, alike⟩ := @pushFilters_preserves Host.hashing rfl _ faithful (fun _ _ _ h => by cases h) f hf
  exact ⟨f, g, hf, hg, alike⟩

end Columnar.Plan
