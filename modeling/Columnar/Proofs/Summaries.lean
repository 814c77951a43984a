import Columnar.Proofs.Reshaping
import Std.Data.String.ToNat

namespace Columnar.Operator

def helperName (n : Nat) : String := s!"__agg_{n}"

theorem numbered_injective (before : String) {m n : Nat} (h : before ++ toString m = before ++ toString n) : m = n :=
  Nat.repr_injective (String.append_right_inj before |>.1 h)

theorem helperName_injective {m n : Nat} (h : helperName m = helperName n) : m = n := numbered_injective _ h

inductive AggMatch (names : List String) (f g : Frame) (e e' : Expr) : Prop
  | column (op : Aggregation) (c : String) (left : unnamed e = .aggregate op (.column c))
      (right : unnamed e' = .aggregate op (.column c)) (mem : c ∈ names)
  | other (left : ∀ op arg, unnamed e ≠ .aggregate op arg)
  | computed (op : Aggregation) (arg arg' : Expr) (left : unnamed e = .aggregate op arg)
      (right : unnamed e' = .aggregate op arg') (same : arg.Matches f g arg')
      (plain : ∀ c, arg ≠ .column c) (plain' : ∀ c, arg' ≠ .column c)
  | shared (op : Aggregation) (arg : Expr) (c : String) (left : unnamed e = .aggregate op arg)
      (right : unnamed e' = .aggregate op (.column c)) (same : arg.Matches f g (.column c))
      (plain : ∀ c, arg ≠ .column c) (apart : ∀ n ∈ c :: names, ∀ k, n ≠ helperName k)

theorem addAggregate_column {f : Frame} {w : GroupPlan} {e : Expr} {op : Aggregation} {c : String}
    (h : unnamed e = .aggregate op (.column c)) :
    addAggregate f w e = .ok ⟨w.work, w.summaries ++ [⟨some c, op, e.outputName⟩]⟩ := by
  simp only [addAggregate, h]

theorem addAggregate_computed {f : Frame} {w : GroupPlan} {e arg : Expr} {op : Aggregation}
    (h : unnamed e = .aggregate op arg) (plain : ∀ c, arg ≠ .column c) :
    addAggregate f w e = (do
      let work ← w.work.withColumn ((← arg.evaluate f).rename (helperName w.summaries.length))
      pure ⟨work, w.summaries ++ [⟨some (helperName w.summaries.length), op, e.outputName⟩]⟩) := by
  simp only [addAggregate, h]
  cases arg with
  | column c => exact absurd rfl (plain c)
  | _ => rfl

theorem addAggregate_other {f : Frame} {w : GroupPlan} {e : Expr} (h : ∀ op arg, unnamed e ≠ .aggregate op arg) :
    addAggregate f w e = .error (.plainAggregation e.text) := by
  unfold addAggregate
  split
  next he => exact absurd he (h _ _)
  next he => exact absurd he (h _ _)
  · rfl

/-- What the first frame has under one name the second one has under another. -/
def Twin (f g : Frame) (n n' : String) : Prop :=
  ∀ c, f.column? n = some c → ∃ d, g.column? n' = some d ∧ c.Alike d

structure Lasting (names : List String) (len : Nat) (f g : Frame) (n n' : String) : Prop where
  twin : Twin f g n n'
  apart : n = n' ∧ n ∈ names ∨ ∀ k, len ≤ k → n ≠ helperName k ∧ n' ≠ helperName k

structure Collected (names : List String) (f g : Frame) (w w' : GroupPlan) : Prop where
  sane : w.work.Sane ∧ w'.work.Sane
  height : w.work.height = f.height
  offers : w.work.Offers names w'.work
  kept : ∀ n, (∀ k, n ≠ helperName k) → w'.work.column? n = g.column? n
  summaries : List.Forall₂ (fun s s' => s.op = s'.op ∧ s.name = s'.name ∧
    ∃ n n', s.column = some n ∧ s'.column = some n' ∧
      Lasting names w.summaries.length w.work w'.work n n') w.summaries w'.summaries

variable {names : List String} {f g : Frame} {e e' : Expr} {w w' : GroupPlan}

theorem collected_start (hf : f.Sane) (hg : g.Sane) (h : f.Offers names g) :
    Collected names f g ⟨f, []⟩ ⟨g, []⟩ :=
  ⟨⟨hf, hg⟩, rfl, h, fun _ _ => rfl, .nil⟩

theorem Collected.push (h : Collected names f g w w') {work work' : Frame} (sane : work.Sane ∧ work'.Sane)
    (heights : work.height = w.work.height ∧ work'.height = w'.work.height)
    (keep : ∀ n n', n = n' ∧ n ∈ names ∨
      n ≠ helperName w.summaries.length ∧ n' ≠ helperName w.summaries.length →
      Twin w.work w'.work n n' → Twin work work' n n')
    (kept : ∀ n, (∀ k, n ≠ helperName k) → work'.column? n = g.column? n)
    (op : Aggregation) {name name' : String} (hname : name = name') {n n' : String}
    (new : Lasting names (w.summaries.length + 1) work work' n n') :
    Collected names f g ⟨work, w.summaries ++ [⟨some n, op, name⟩]⟩
      ⟨work', w'.summaries ++ [⟨some n', op, name'⟩]⟩ := by
  refine ⟨sane, heights.1.trans h.height, ⟨?_, fun n hn => ?_⟩, kept, ?_⟩
  · rw [heights.1, heights.2, h.offers.height]
  · exact keep n n (.inl ⟨rfl, hn⟩) (h.offers.columns n hn)
  · rw [List.length_append, List.length_singleton]
    refine List.rel_append (h.summaries.imp fun s s' hs => ?_) (.cons ⟨rfl, hname, n, n', rfl, rfl, new⟩ .nil)
    obtain ⟨op, name, a, a', ha, ha', lasting⟩ := hs
    refine ⟨op, name, a, a', ha, ha', keep a a' ?_ lasting.twin, ?_⟩
    · exact lasting.apart.imp_right fun apart => apart _ (Nat.le_refl _)
    · exact lasting.apart.imp_right fun apart k hk => apart k (Nat.le_of_succ_le hk)

structure Sets (name : String) (c : Column) (work work' : Frame) : Prop where
  height : work'.height = work.height
  found : work'.column? name = some (c.rename name)
  others : ∀ n, name ≠ n → work'.column? n = work.column? n

theorem setNamed_spec {work work' : Frame} (hw : work.Sane) {c : Column} (hc : c.height = work.height)
    (sound : c.Sound) {name : String} (h : work.withColumn (c.rename name) = .ok work') :
    work'.Sane ∧ work.height ≤ Frame.maxRows ∧ Sets name c work work' := by
  obtain ⟨sane, height, limit, columns⟩ := Frame.withColumn_spec (c := c.rename name) hw hc sound h
  exact ⟨sane, limit, height, (columns name).trans (if_pos rfl), fun n hn => (columns n).trans (if_neg hn)⟩

theorem setNamed_ok {work : Frame} (hw : work.Sane) {c : Column} (hc : c.height = work.height)
    (limit : work.height ≤ Frame.maxRows) (name : String) :
    ∃ work', work.withColumn (c.rename name) = .ok work' :=
  ⟨_, (Frame.withColumn_eq_ok (c := c.rename name) hw.toRectangular hc).2 ⟨rfl, limit⟩⟩

theorem setNamed_follows {work work' : Frame} (hw : work.Sane) (hw' : work'.Sane)
    (heights : work.height = work'.height) {c d : Column} (hc : c.height = work.height) (hcd : c.Alike d)
    (name : String) :
    Follows (fun a a' => (a.Sane ∧ a'.Sane) ∧ Sets name c work a ∧ Sets name d work' a')
      (work.withColumn (c.rename name)) (work'.withColumn (d.rename name)) := by
  intro a ha
  have hd : d.height = work'.height := hcd.height.symm.trans (hc.trans heights)
  obtain ⟨sane, limit, sets⟩ := setNamed_spec hw hc hcd.sound.1 ha
  obtain ⟨a', ha'⟩ := setNamed_ok hw' hd (heights ▸ limit) name
  obtain ⟨sane', -, sets'⟩ := setNamed_spec hw' hd hcd.sound.2 ha'
  exact ⟨a', ha', ⟨sane, sane'⟩, sets, sets'⟩

section

variable {work work' a a' : Frame} {name n n' : String} {c d : Column}

theorem Sets.twin (sets : Sets name c work a) (sets' : Sets name d work' a') (hcd : c.Alike d) :
    Twin a a' name name := by
  intro b hb
  rw [sets.found] at hb
  cases hb
  exact ⟨_, sets'.found, hcd.rename _ _⟩

theorem Twin.sets_left (h : Twin work work' n n') (sets : Sets name c work a) (apart : name ≠ n) :
    Twin a work' n n' := by
  intro b hb
  rw [sets.others n apart] at hb
  exact h b hb

theorem Twin.sets_both (h : Twin work work' n n') (sets : Sets name c work a) (sets' : Sets name d work' a')
    (hcd : c.Alike d) (same : name = n ↔ name = n') : Twin a a' n n' := by
  by_cases hn : name = n
  · obtain rfl := same.1 hn
    exact hn ▸ sets.twin sets' hcd
  · intro b hb
    obtain ⟨e, he, hbe⟩ := h.sets_left sets hn b hb
    exact ⟨e, (sets'.others n' fun hn' => hn (same.2 hn')).trans he, hbe⟩

end

theorem Collected.add (h : Collected names f g w w') (he : AggMatch names f g e e')
    (name : e.outputName = e'.outputName) :
    Follows (Collected names f g) (addAggregate f w e) (addAggregate g w' e') := by
  have length : w'.summaries.length = w.summaries.length := h.summaries.length_eq.symm
  have apart {k : Nat} (hk : w.summaries.length + 1 ≤ k) :
      helperName w.summaries.length ≠ helperName k := fun hn => by
    have := helperName_injective hn
    omega
  cases he with
  | column op c left right mem =>
    rw [addAggregate_column left, addAggregate_column right]
    exact .ok (h.push h.sane ⟨rfl, rfl⟩ (fun _ _ _ twin => twin) h.kept op name
      ⟨h.offers.columns c mem, .inl ⟨rfl, mem⟩⟩)
  | other left =>
    intro out hout
    rw [addAggregate_other left] at hout
    cases hout
  | computed op arg arg' left right same plain plain' =>
    rw [addAggregate_computed left plain, addAggregate_computed right plain', length]
    refine same.evaluate.bind fun c d ⟨hc, _, _, hcd⟩ => ?_
    refine (setNamed_follows h.sane.1 h.sane.2 h.offers.height (hc.trans h.height.symm) hcd
      (helperName w.summaries.length)).bind fun work work' ⟨sane, sets, sets'⟩ => .ok ?_
    refine h.push sane ⟨sets.height, sets'.height⟩ (fun n n' hn twin => twin.sets_both sets sets' hcd ?_)
      (fun n hn => ?_) op name ⟨sets.twin sets' hcd, .inr fun k hk => ⟨apart hk, apart hk⟩⟩
    · rcases hn with ⟨rfl, -⟩ | ⟨hn, hn'⟩
      · exact Iff.rfl
      · exact iff_of_false hn.symm hn'.symm
    · exact (sets'.others n (hn _).symm).trans (h.kept n hn)
  | shared op arg col left right same plain free =>
    rw [addAggregate_computed left plain, addAggregate_column right]
    intro out hout
    obtain ⟨c, hc, hout⟩ := bind_eq_ok.1 hout
    obtain ⟨work, hwork, hout⟩ := bind_eq_ok.1 hout
    obtain rfl := pure_eq_ok.1 hout
    obtain ⟨d, hd, height, -, -, hcd⟩ := same.evaluate c hc
    obtain ⟨a, ha, rfl⟩ := map_eq_ok.1 hd
    rw [Expr.eval_column, Frame.column_eq_ok] at ha
    obtain ⟨workSane, -, sets⟩ := setNamed_spec h.sane.1 (height.trans h.height.symm) hcd.sound.1 hwork
    refine ⟨_, rfl, h.push ⟨workSane, h.sane.2⟩ ⟨sets.height, rfl⟩ (fun n n' hn twin => twin.sets_left sets ?_)
      h.kept op name ⟨fun b hb => ?_, .inr fun k hk => ⟨apart hk, free col List.mem_cons_self k⟩⟩⟩
    · rintro rfl
      rcases hn with ⟨-, hn⟩ | ⟨hn, -⟩
      · exact free _ (List.mem_cons_of_mem _ hn) _ rfl
      · exact hn rfl
    · rw [sets.found] at hb
      cases hb
      exact ⟨a, (h.kept col (free col List.mem_cons_self)).trans ha, hcd.rename _ a.name⟩

theorem keyColumns_found {ks : List String} (hf : f.Rectangular) (h : f.Offers names g)
    (hks : ∀ k ∈ ks, k ∈ names) :
    Follows (List.Forall₂ (Frame.Found f)) (f.keyColumns ks) (g.keyColumns ks) := by
  unfold Frame.keyColumns
  split
  · exact .error
  · refine .mapM (List.forall₂_same.2 fun k hk => ?_)
    intro c hc
    split at hc
    next a ha =>
      cases hc
      obtain ⟨d, hd, hcd⟩ := h.columns k (hks k hk) c ha
      refine ⟨d, by rw [hd], hf.height ha, ?_, hcd⟩
      exact (Frame.name_of_column? ha).trans (Frame.name_of_column? hd).symm
    · cases hc

def Inputs (p p' : Summary × Option Column) : Prop :=
  p.1.op = p'.1.op ∧ p.1.name = p'.1.name ∧ ∃ c d, p.2 = some c ∧ p'.2 = some d ∧ c.Alike d

theorem Collected.inputs (h : Collected names f g w w') :
    Follows (List.Forall₂ Inputs) (w.summaries.mapM fun s => (s, ·) <$> w.work.summaryInput s)
      (w'.summaries.mapM fun s => (s, ·) <$> w'.work.summaryInput s) := by
  refine .mapM (h.summaries.imp fun s s' ⟨op, name, n, n', hn, hn', lasting⟩ => ?_)
  intro p hp
  obtain ⟨input, hinput, rfl⟩ := map_eq_ok.1 hp
  simp only [Frame.summaryInput, hn] at hinput
  split at hinput
  next c hc =>
    cases hinput
    obtain ⟨d, hd, hcd⟩ := lasting.twin c hc
    refine ⟨(s', some d), ?_, op, name, c, d, rfl, rfl, hcd⟩
    simp only [Frame.summaryInput, hn', hd, map_eq_ok]
    exact ⟨_, rfl, rfl⟩
  · cases hinput

theorem groupBy_eq (host : Host) (f : Frame) (ks : List String) (ss : List Summary) :
    f.groupBy host ks ss = (do
      let keyColumns ← f.keyColumns ks
      let inputs ← ss.mapM fun s => (s, ·) <$> f.summaryInput s
      let results ← inputs.mapM fun p => Frame.summarize host (.ofKeys host keyColumns) p.1 p.2
      Frame.ofColumns (keyColumns.map (·.gather (Grouping.ofKeys host keyColumns).firstRows) ++ results)) := by
  unfold Frame.groupBy
  congr 1
  funext keyColumns
  congr 1
  funext inputs
  simp only
  rw [Pool.columns_eq_mapM, mapM_range fun i p hp => by rw [hp]]

theorem Collected.groupBy_built (host : Host) (h : Collected names f g w w') {ks : List String}
    (hks : ∀ k ∈ ks, k ∈ names) :
    Follows Frame.Built (w.work.groupBy host ks w.summaries) (w'.work.groupBy host ks w'.summaries) := by
  rw [groupBy_eq, groupBy_eq]
  refine (keyColumns_found h.sane.1.toRectangular h.offers hks).bind fun cs ds hcs => ?_
  rw [← Frame.groups_of_found host hcs]
  refine h.inputs.bind fun ps ps' hps => ?_
  have results : Follows (List.Forall₂ fun c d : Column => c.name = d.name ∧ c.Alike d)
      (ps.mapM fun p => Frame.summarize host (.ofKeys host cs) p.1 p.2)
      (ps'.mapM fun p => Frame.summarize host (.ofKeys host cs) p.1 p.2) := by
    refine .mapM (hps.imp fun p p' ⟨op, name, c, d, hc, hd, hcd⟩ => ?_)
    rw [hc, hd, Frame.summarize, Frame.summarize, op, name]
    exact (Grouping.aggregate_alike hcd _ host _).map fun _ _ h => ⟨rfl, h.rename _ _⟩
  exact results.bind fun cs' ds' h' => Frame.ofColumns_built (List.rel_append (Frame.gather_found hcs _) h')

theorem collect_follows {es es' : List Expr}
    (hes : List.Forall₂ (fun e e' => AggMatch names f g e e' ∧ e.outputName = e'.outputName) es es')
    (h : Collected names f g w w') :
    Follows (Collected names f g) (es.foldlM (addAggregate f) w) (es'.foldlM (addAggregate g) w') := by
  induction hes generalizing w w' with
  | nil => exact .ok h
  | cons he _ ih =>
    rw [List.foldlM_cons, List.foldlM_cons]
    exact (h.add he.1 he.2).bind fun _ _ => ih

theorem runGroupBy_built (host : Host) (hf : f.Sane) (hg : g.Sane) (h : f.Offers names g)
    {keys es es' : List Expr} (hks : ∀ k ∈ keys, ∀ n, k = .column n → n ∈ names)
    (hes : List.Forall₂ (fun e e' => AggMatch names f g e e' ∧ e.outputName = e'.outputName) es es') :
    Follows Frame.Built (runGroupBy host f keys es) (runGroupBy host g keys es') := by
  intro F hF
  obtain ⟨ks, hkeys, hF⟩ := bind_eq_ok.1 hF
  have within : ∀ k ∈ ks, k ∈ names := fun k hk => by
    obtain ⟨e, he, hke⟩ := exists_left (mapM_eq_ok.1 hkeys) k hk
    cases e with
    | column n =>
      cases hke
      exact hks _ he _ rfl
    | _ => cases hke
  obtain ⟨G, hG, hFG⟩ := ((collect_follows hes (collected_start hf hg h)).bind fun _ _ hw =>
    hw.groupBy_built host within) F hF
  exact ⟨G, bind_eq_ok.2 ⟨ks, hkeys, hG⟩, hFG⟩

theorem nodes_unnamed (e : Expr) : ∀ x ∈ (unnamed e).nodes, x ∈ e.nodes := by
  induction e using unnamed.induct with
  | case1 e name ih =>
    intro x hx
    rw [unnamed] at hx
    exact List.mem_cons_of_mem _ (ih x hx)
  | case2 e h =>
    rw [unnamed]
    · exact fun x hx => hx
    · exact h

theorem aggMatch_self (hf : f.Capped) (h : f.Offers names g) (sub : ∀ n ∈ e.columns, n ∈ names) :
    AggMatch names f g e e := by
  have within : ∀ n, .column n ∈ (unnamed e).nodes → n ∈ names := fun n hn =>
    sub n (Expr.mem_columns.2 (nodes_unnamed e _ hn))
  by_cases agg : ∃ op arg, unnamed e = .aggregate op arg
  · obtain ⟨op, arg, he⟩ := agg
    rw [he] at within
    by_cases plain : ∃ c, arg = .column c
    · obtain ⟨c, rfl⟩ := plain
      exact .column op c he he (within c (by simp [Expr.nodes]))
    · have plain : ∀ c, arg ≠ .column c := fun c hc => plain ⟨c, hc⟩
      refine .computed op arg arg he he (Expr.eval_alike hf h fun n hn => ?_) plain plain
      exact within n (List.mem_cons_of_mem _ (Expr.mem_columns.1 hn))
  · exact .other fun op arg he => agg ⟨op, arg, he⟩

end Columnar.Operator
