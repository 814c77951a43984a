import Columnar.Proofs.Hiding
import Columnar.Proofs.Sources

namespace Columnar

namespace Frame

structure Moves (rows : List Nat) (apart : List String) (f f' : Frame) : Prop where
  height : rows.length = f'.height
  picking : Picking f.height rows
  found : ∀ n ∉ apart, Agrees (Column.Local f.height rows) (f.column n) (f'.column n)

variable {rows : List Nat} {apart names : List String} {f f' g g' : Frame}

theorem withColumn_moves (hf : f.Sane) {c : Column} (hc : c.height = f.height) (sound : c.Sound)
    (h : f.withColumn c = .ok f') : Moves (List.range f.height) [c.name] f f' := by
  obtain ⟨-, height, -, columns⟩ := withColumn_spec hf hc sound h
  refine ⟨by rw [List.length_range, height], .all hf.short, fun n hn => ?_⟩
  have kept : f'.column? n = f.column? n := by
    rw [columns, if_neg fun same => hn (List.mem_singleton.2 same.symm)]
  unfold column
  rw [kept]
  cases hd : f.column? n with
  | none => exact .error _ _
  | some d => exact .ok ((Column.Alike.refl (hf.soundOf hd)).local (hf.toRectangular.height hd))

theorem Offers.whole (h : f.Offers f.names g) (names : List String) : f.Offers names g :=
  ⟨h.height, fun n _ c hc => h.columns n (mem_names.2 ⟨c, hc⟩) c hc⟩

structure Moved (apart : List String) (f g f' g' : Frame) : Prop where
  sane : f'.Sane ∧ g'.Sane
  offers : f'.Offers f'.names g'
  moves : ∃ rows, f.Moves rows apart f' ∧ g.Moves rows apart g'

theorem SameRows.moved (hf : f.Sane) (hg : g.Sane) (offers : f.Offers f.names g) (h : f.SameRows g f' g') :
    Moved [] f g f' g' := by
  obtain ⟨rows, fewer, below, selects, selects'⟩ := h
  refine ⟨⟨selects.sane hf fewer, selects'.sane hg (offers.height ▸ fewer)⟩, ?_, rows, ?_, ?_⟩
  · rw [selects.names]
    exact selects.offers selects' offers
  · exact ⟨selects.height.symm, hf.picking below fewer, fun n _ => selects.found hf.toRectangular n⟩
  · exact ⟨selects'.height.symm, offers.height ▸ hf.picking below fewer, fun n _ => selects'.found hg.toRectangular n⟩

theorem set_moved (hf : f.Sane) (hg : g.Sane) (offers : f.Offers f.names g) {x y : Except Error Column}
    {name : String}
    (h : Follows (fun c d => c.height = f.height ∧ c.name = name ∧ d.name = name ∧ c.Alike d) x y) :
    Follows (Moved [name] f g) (x >>= f.withColumn) (y >>= g.withColumn) := by
  refine h.bind fun c d ⟨height, hc, hd, hcd⟩ f' hf' => ?_
  have serves : Serves ((some f'.names).map fun names => names.filter (· != c.name)) f g := offers.whole _
  obtain ⟨g', hg', offers'⟩ := Frame.withColumn_serves hf.toRectangular hg.toRectangular (hc.trans hd.symm)
    height hcd serves hf'
  have height' : d.height = g.height := hcd.height.symm.trans (height.trans offers.height)
  have moves := withColumn_moves hf height hcd.sound.1 hf'
  have moves' := withColumn_moves hg height' hcd.sound.2 hg'
  rw [hc] at moves
  rw [hd, ← offers.height] at moves'
  exact ⟨g', hg', ⟨Frame.withColumn_sane hf height hcd.sound.1 hf',
    Frame.withColumn_sane hg height' hcd.sound.2 hg'⟩, offers', _, moves, moves'⟩

end Frame

namespace Expr

theorem eval_moves {rows : List Nat} {apart : List String} {f f' : Frame} (h : f.Moves rows apart f') (e : Expr)
    (free : ∀ n ∈ e.columns, n ∉ apart) : Alongside rows f f' e e :=
  eval_local h.height h.picking e fun n hn => h.found n (free n (mem_columns.2 hn))

theorem Alongside.move {rows : List Nat} {apart : List String} {f g f' g' : Frame} {e e' : Expr}
    (h : Alongside (List.range f.height) f g e e') (hf : f.Moves rows apart f') (hg : g.Moves rows apart g')
    (free : ∀ n ∈ e.columns, n ∉ apart) (free' : ∀ n ∈ e'.columns, n ∉ apart) :
    Alongside (List.range f'.height) f' g' e e' :=
  Agrees.along h (eval_moves hf e free) (eval_moves hg e' free') fun _ _ _ _ hab ha hb =>
    hab.picked ha.picks hb.picks (ha.picks.height.trans hf.height)

end Expr

namespace Frame

/-- The second frame has the columns of the first one, and hidden columns that hold what they stand for,
except for expressions over blocked columns. -/
structure Carries (hidden : Sharing.Hidden) (blocked : List String) (f g : Frame) : Prop where
  sane : f.Sane ∧ g.Sane
  offers : f.Offers f.names g
  held : ∀ name x, (name, x) ∈ hidden → x.isCandidate blocked →
    Expr.Alongside (List.range f.height) f g x (.column name)

variable {hidden : Sharing.Hidden} {blocked : List String} {f g f' g' : Frame} {e e' : Expr}

theorem Carries.self (hf : f.Sane) (blocked : List String) : Carries [] blocked f f :=
  ⟨⟨hf, hf⟩, (Alike.refl hf).offers _, nofun⟩

theorem Carries.matches (h : Carries hidden blocked f g) (he : e.Shares hidden blocked e') : e.Matches f g e' := by
  intro c hc
  have along := he.alongside (by rw [List.length_range, h.offers.height]) (.all h.sane.1.short)
    (Expr.found_of_eval h.sane.1.toRectangular (h.offers.whole e.columns) (fun _ hn => hn) hc) h.held
  obtain ⟨d, hd, hcd⟩ := Agrees.follows along c hc
  exact ⟨d, hd, hcd.height, hcd.alike ⟨Expr.sound_of_eval h.sane.1 hc, Expr.sound_of_eval h.sane.2 hd⟩⟩

theorem Carries.matchesNamed (h : Carries hidden blocked f g) (he : e.SharesNamed hidden blocked e') :
    e.Matches f g e' := by
  obtain ⟨x, hx, rfl⟩ := he
  split
  · exact h.matches hx
  · unfold Expr.Matches
    rw [Expr.eval]
    exact h.matches hx

theorem columns_column (name : String) : (Expr.column name).columns = [name] := rfl

theorem Carries.moved (h : Carries hidden blocked f g) {apart : List String}
    (free : ∀ name x, (name, x) ∈ hidden → name ∉ apart) (hm : Moved apart f g f' g') :
    Carries hidden (apart ++ blocked) f' g' := by
  obtain ⟨sane, offers, rows, moves, moves'⟩ := hm
  refine ⟨sane, offers, fun name x mem candidate => ?_⟩
  obtain ⟨candidate, apartFree⟩ := Expr.candidate_append candidate
  refine (h.held name x mem candidate).move moves moves' apartFree fun n hn => ?_
  rw [columns_column, List.mem_singleton] at hn
  exact hn ▸ free name x mem

end Frame

namespace Operator

variable {host : Host} {hidden : Sharing.Hidden} {blocked : List String} {f g f' : Frame} {op op' : Operator}

theorem run_moved (det : op.Deterministic) (chains : op.chains) (h : f.Carries hidden blocked g)
    (shares : op.Shares hidden blocked op') :
    Follows (Frame.Moved op.defines?.toList f g) (op.run host f) (op'.run host g) := by
  obtain ⟨hf, hg⟩ := h.sane
  have offers := h.offers
  have picked {x y : Except Error Frame} (hxy : Follows (f.SameRows g) x y) : Follows (Frame.Moved [] f g) x y :=
    hxy.mono fun _ _ _ _ same => same.moved hf hg offers
  cases op with
  | filter e =>
    obtain ⟨e', rfl, he⟩ := shares
    exact picked (Expr.filter_sameRows hg offers.height (h.matches he))
  | withColumn e =>
    obtain ⟨e', rfl, he⟩ := shares
    exact Frame.set_moved hf hg offers ((h.matchesNamed he).set he.outputName)
  | sort keys descending =>
    cases shares
    exact picked (Frame.sortBy_sameRows hf hg (offers.whole keys) descending)
  | limit n =>
    cases shares
    exact picked (.ok (Frame.head_sameRows hf hg offers.height n))
  | tail n =>
    cases shares
    exact picked (.ok (Frame.tail_sameRows hf hg offers.height n))
  | apply column k =>
    cases shares
    rw [run, run, runApply_eq, runApply_eq]
    exact Frame.set_moved hf hg offers (applied_alike det (offers.whole _))
  | project | groupBy | distinct | pivot | melt => cases chains

theorem unnamed_shares {e x : Expr} (h : e.Shares hidden blocked x) {agg : Aggregation} {arg : Expr}
    (he : unnamed e = .aggregate agg arg) :
    ∃ arg', unnamed x = .aggregate agg arg' ∧ arg.Shares hidden blocked arg' := by
  induction e using unnamed.induct generalizing x with
  | case1 e name ih =>
    cases h with
    | hidden _ candidate => simpa using Expr.shareable_of_candidate candidate
    | @parts _ cs length each =>
      obtain ⟨c, rfl⟩ := List.length_eq_one_iff.1 length.symm
      rw [unnamed] at he
      obtain ⟨arg', hc, shares⟩ := ih (each (e, c) List.mem_cons_self) he
      exact ⟨arg', by rwa [Expr.withChildren, unnamed], shares⟩
  | case2 e plain =>
    rw [unnamed] at he
    · subst he
      cases h with
      | hidden _ candidate => simpa using Expr.shareable_of_candidate candidate
      | @parts _ cs length each =>
        obtain ⟨c, rfl⟩ := List.length_eq_one_iff.1 length.symm
        exact ⟨c, rfl, each (arg, c) List.mem_cons_self⟩
    · exact plain

theorem unnamed_sharesNamed {e e' : Expr} (h : e.SharesNamed hidden blocked e') {agg : Aggregation} {arg : Expr}
    (he : unnamed e = .aggregate agg arg) :
    ∃ arg', unnamed e' = .aggregate agg arg' ∧ arg.Shares hidden blocked arg' := by
  obtain ⟨x, hx, rfl⟩ := h
  obtain ⟨arg', hx', shares⟩ := unnamed_shares hx he
  refine ⟨arg', ?_, shares⟩
  split
  · exact hx'
  · rwa [unnamed]

theorem aggMatch_shares {names : List String} (h : f.Carries hidden blocked g) {e e' : Expr}
    (he : e.SharesNamed hidden blocked e') (mem : ∀ n ∈ e.columns, n ∈ names)
    (apart : ∀ n ∈ names, ∀ k, n ≠ helperName k)
    (apart' : ∀ name x, (name, x) ∈ hidden → ∀ k, name ≠ helperName k) : AggMatch names f g e e' := by
  by_cases agg : ∃ op arg, unnamed e = .aggregate op arg
  · obtain ⟨op, arg, hagg⟩ := agg
    obtain ⟨arg', hagg', shares⟩ := unnamed_sharesNamed he hagg
    by_cases plain : ∃ c, arg = .column c
    · obtain ⟨c, rfl⟩ := plain
      obtain rfl := shares.eq_column
      refine .column op c hagg hagg' (mem c (Expr.mem_columns.2 (nodes_unnamed e _ ?_)))
      rw [hagg]
      exact List.mem_cons_of_mem _ (Expr.mem_nodes_self _)
    · have plain : ∀ c, arg ≠ .column c := fun c hc => plain ⟨c, hc⟩
      by_cases plain' : ∃ c, arg' = .column c
      · obtain ⟨c, rfl⟩ := plain'
        rcases shares.column rfl with same | ⟨there, -⟩
        · exact absurd same (plain c)
        · exact .shared op arg c hagg hagg' (h.matches shares) plain
            (List.forall_mem_cons.2 ⟨apart' c arg there, apart⟩)
      · exact .computed op arg arg' hagg hagg' (h.matches shares) plain fun c hc => plain' ⟨c, hc⟩
  · exact .other fun op arg h => agg ⟨op, arg, h⟩

def named (op : Operator) : List String := op.defines?.toList ++ (op.required? (some [])).getD []

theorem run_headed (heads : op.heads) (h : f.Carries hidden blocked g) (shares : op.Shares hidden blocked op')
    (apart : ∀ n ∈ op.named, ∀ k, n ≠ helperName k)
    (apart' : ∀ name x, (name, x) ∈ hidden → ∀ k, name ≠ helperName k) :
    Follows Frame.Alike (op.run host f) (op'.run host g) := by
  cases op with
  | project es =>
    obtain ⟨es', rfl, hes⟩ := shares
    exact (Expr.project_built host (hes.imp fun _ _ he => ⟨h.matchesNamed he, he.outputName⟩)).mono
      fun _ _ _ _ built => built.alike
  | groupBy keys aggs =>
    obtain ⟨aggs', rfl, haggs⟩ := shares
    refine (runGroupBy_built host h.sane.1 h.sane.2 (h.offers.whole (columnsOf (keys ++ aggs)))
      (fun k hk n hn => ?_) ?_).mono fun _ _ _ _ built => built.alike
    · refine mem_columnsOf (List.mem_append_left _ hk) n (Expr.mem_columns.2 ?_)
      rw [hn]
      exact Expr.mem_nodes_self _
    · refine ((List.forall₂_and_left _ _).2 ⟨fun e he => he, haggs⟩).imp fun e e' ⟨he, shares⟩ => ⟨?_, shares.outputName⟩
      exact aggMatch_shares h shares (mem_columnsOf (List.mem_append_right _ he)) apart apart'
  | filter | withColumn | sort | limit | tail | distinct | pivot | melt | apply => cases heads

theorem mem_nodes_unnamed {e x : Expr} (hx : x ∈ e.nodes) (worth : x.isShareable) : x ∈ (unnamed e).nodes := by
  induction e using unnamed.induct with
  | case1 e name ih =>
    rw [unnamed]
    rcases List.mem_cons.1 hx with rfl | hx
    · simp at worth
    · exact ih hx
  | case2 e plain =>
    rw [unnamed]
    · exact hx
    · exact plain

theorem exists_eval_of_addAggregate {w w' : GroupPlan} {e x : Expr} (h : addAggregate f w e = .ok w')
    (hx : x ∈ e.nodes) (worth : x.isShareable) : ∃ c, x.eval f = .ok c := by
  have hx := mem_nodes_unnamed hx worth
  unfold addAggregate at h
  split at h
  next hagg =>
    rw [hagg, Expr.nodes, Expr.nodes] at hx
    rcases List.mem_pair.1 hx with rfl | rfl
    · simp at worth
    · simp at worth
  next agg arg plain hagg =>
    rw [hagg, Expr.nodes] at hx
    obtain ⟨c, hc, -⟩ := bind_eq_ok.1 h
    obtain ⟨d, hd, -⟩ := map_eq_ok.1 hc
    rcases List.mem_cons.1 hx with rfl | hx
    · simp at worth
    · exact Expr.exists_eval_nodes arg d hd x hx
  · cases h

theorem exists_addAggregate {es : List Expr} {w w' : GroupPlan} (h : es.foldlM (addAggregate f) w = .ok w') :
    ∀ e ∈ es, ∃ v v', addAggregate f v e = .ok v' := by
  induction es generalizing w with
  | nil => nofun
  | cons e es ih =>
    rw [List.foldlM_cons] at h
    obtain ⟨v, hv, h⟩ := bind_eq_ok.1 h
    exact List.forall_mem_cons.2 ⟨⟨w, v, hv⟩, ih h⟩

theorem exists_eval_of_run (h : op.run host f = .ok f') {e x : Expr} (he : e ∈ op.sharingExprs)
    (hx : x ∈ e.nodes) (worth : x.isShareable) : ∃ c, x.eval f = .ok c := by
  cases op with
  | project es =>
    rw [run, Expr.runProject_eq] at h
    obtain ⟨cs, hcs, -⟩ := bind_eq_ok.1 h
    obtain ⟨c, -, hc⟩ := exists_right (mapM_eq_ok.1 hcs) e he
    obtain ⟨d, hd, -⟩ := map_eq_ok.1 hc
    exact Expr.exists_eval_nodes e d hd x hx
  | groupBy keys aggs =>
    obtain ⟨ks, -, h⟩ := bind_eq_ok.1 h
    obtain ⟨w, hw, -⟩ := bind_eq_ok.1 h
    obtain ⟨v, v', hv⟩ := exists_addAggregate hw e he
    exact exists_eval_of_addAggregate hv hx worth
  | filter p =>
    obtain rfl := List.mem_singleton.1 he
    obtain ⟨m, hm, -⟩ := bind_eq_ok.1 h
    obtain ⟨d, hd, -⟩ := bind_eq_ok.1 hm
    exact Expr.exists_eval_nodes e d hd x hx
  | withColumn p =>
    obtain rfl := List.mem_singleton.1 he
    obtain ⟨c, hc, -⟩ := bind_eq_ok.1 h
    obtain ⟨d, hd, -⟩ := map_eq_ok.1 hc
    exact Expr.exists_eval_nodes e d hd x hx
  | sort | limit | tail | distinct | pivot | melt | apply => cases he

end Operator

end Columnar
