import Columnar.Proofs.Requests
import Columnar.Proofs.Summaries
import Mathlib

/-!
Mathlib is imported whole as `cbv` runs a plan at the end: the equations of strings and bytes that it rewrites by
stand in none of its modules alone.
-/

namespace Columnar

namespace Frame

variable {f f' : Frame}

theorem names_ofColumns {cs : List Column} (h : ofColumns cs = .ok f) :
    f.names = cs.map (·.name) := by
  obtain ⟨rfl, -⟩ := ofColumns_eq_ok.1 h
  rfl

theorem select_eq_ok {g : Frame} {ns : List String} :
    f.select ns = .ok g ↔ ∃ cs, ns.mapM f.column = .ok cs ∧ ∃ out, ofColumns cs = .ok out ∧
      g = if cs.isEmpty then ⟨cs, f.height⟩ else out := by
  rw [select, bind_eq_ok]
  refine exists_congr fun cs => and_congr_right fun _ => ?_
  by_cases h : cs.isEmpty
  · simp only [h, ↓reduceIte, ofColumnsAt_eq_ok]
  · simp only [h, Bool.false_eq_true, ↓reduceIte]
    exact ⟨fun h => ⟨g, h, rfl⟩, fun ⟨_, h, hg⟩ => hg ▸ h⟩

theorem names_select {g : Frame} {ns : List String} (h : f.select ns = .ok g) : g.names = ns := by
  obtain ⟨cs, hcs, out, hout, rfl⟩ := select_eq_ok.1 h
  obtain ⟨rfl, -⟩ := ofColumns_eq_ok.1 hout
  rw [← names_mapM_column hcs]
  split <;> rfl

theorem names_ofColumnsAt {n : Nat} {cs : List Column} (h : ofColumnsAt n cs = .ok f) :
    f.names = cs.map (·.name) := by
  obtain ⟨-, -, rfl⟩ := ofColumnsAt_eq_ok.1 h
  rfl

theorem names_take {g : Gather} (h : f.take g = .ok f') : f'.names = f.names := by
  rw [names_ofColumnsAt h, List.map_map]
  rfl

theorem names_filter {m : Mask} (h : f.filter m = .ok f') : f'.names = f.names := by
  unfold filter at h
  split at h
  · cases h
  · obtain ⟨cs, hcs, h⟩ := bind_eq_ok.1 h
    rw [names_ofColumnsAt h]
    exact (map_eq_map (mapM_eq_ok.1 hcs) fun c d hd => (Column.name_filter hd).symm).symm

@[simp] theorem names_slice (f : Frame) (offset n : Nat) : (f.slice offset n).names = f.names := by
  rw [names, slice, List.map_map]
  rfl

theorem names_sortBy {keys : List String} {descending : List Bool} (h : f.sortBy keys descending = .ok f') :
    f'.names = f.names := by
  unfold sortBy at h
  split at h
  · cases h
  · obtain ⟨_, -, h⟩ := bind_eq_ok.1 h
    exact names_take h

theorem names_distinct {host : Host} {subset : Option (List String)} (h : f.distinct host subset = .ok f') :
    f'.names = f.names := by
  simp only [distinct] at h
  split at h
  · cases h
    rfl
  · obtain ⟨_, -, h⟩ := bind_eq_ok.1 h
    exact names_take h

end Frame

namespace Operator

variable {f f' : Frame}

theorem names_project {host : Host} {es : List Expr} (h : runProject host f es = .ok f') :
    f'.names = es.map (·.outputName) := by
  rw [Expr.runProject_eq] at h
  obtain ⟨cs, hcs, h⟩ := bind_eq_ok.1 h
  rw [Frame.names_ofColumns h]
  refine (map_eq_map (mapM_eq_ok.1 hcs) fun e c hc => ?_).symm
  obtain ⟨_, -, rfl⟩ := map_eq_ok.1 hc
  rfl

theorem names_withColumn {c : Column} (h : f.withColumn c = .ok f') :
    f'.names = if f.names.contains c.name then f.names else f.names ++ [c.name] := by
  unfold Frame.withColumn at h
  split at h
  · cases h
  · rw [Frame.names_ofColumns h, Frame.names_setColumn]
    rfl

theorem names_keyColumns {ks : List String} {cs : List Column} (h : f.keyColumns ks = .ok cs) :
    cs.map (·.name) = ks := by
  unfold Frame.keyColumns at h
  split at h
  · cases h
  · rw [← List.map_id ks]
    refine (map_eq_map (mapM_eq_ok.1 h) fun k c hc => ?_).symm
    split at hc
    next hk =>
      cases hc
      exact (Frame.name_of_column? hk).symm
    · cases hc

theorem name_summarize {host : Host} {g : Grouping} {s : Summary} {input : Option Column} {c : Column}
    (h : Frame.summarize host g s input = .ok c) : c.name = s.name := by
  cases input with
  | none =>
    cases h
    rfl
  | some a =>
    obtain ⟨_, -, rfl⟩ := map_eq_ok.1 h
    rfl

theorem names_groupBy {host : Host} {ks : List String} {ss : List Summary}
    (h : f.groupBy host ks ss = .ok f') : f'.names = ks ++ ss.map (·.name) := by
  rw [groupBy_eq] at h
  obtain ⟨cs, hcs, h⟩ := bind_eq_ok.1 h
  obtain ⟨inputs, hinputs, h⟩ := bind_eq_ok.1 h
  obtain ⟨results, hresults, h⟩ := bind_eq_ok.1 h
  rw [Frame.names_ofColumns h, List.map_append, List.map_map]
  congr 1
  · exact names_keyColumns hcs
  · rw [map_eq_map (mapM_eq_ok.1 hinputs) (g := (·.1.name)) fun s p hp => ?_]
    · exact (map_eq_map (mapM_eq_ok.1 hresults) fun p c hc => (name_summarize hc).symm).symm
    · obtain ⟨_, -, rfl⟩ := map_eq_ok.1 hp
      rfl

theorem name_addAggregate {w w' : GroupPlan} {e : Expr} (h : addAggregate f w e = .ok w') :
    w'.summaries.map (·.name) = w.summaries.map (·.name) ++ [e.outputName] := by
  unfold addAggregate at h
  split at h
  · cases h
    simp
  · obtain ⟨c, -, h⟩ := bind_eq_ok.1 h
    obtain ⟨work, -, h⟩ := bind_eq_ok.1 h
    obtain rfl := pure_eq_ok.1 h
    simp
  · cases h

theorem names_collect {es : List Expr} {w w' : GroupPlan} (h : es.foldlM (addAggregate f) w = .ok w') :
    w'.summaries.map (·.name) = w.summaries.map (·.name) ++ es.map (·.outputName) := by
  induction es generalizing w with
  | nil =>
    cases h
    simp
  | cons e es ih =>
    rw [List.foldlM_cons] at h
    obtain ⟨w₁, hw₁, h⟩ := bind_eq_ok.1 h
    rw [ih h, name_addAggregate hw₁]
    simp

theorem keyName_eq_ok {e : Expr} {k : String} (h : keyName e = .ok k) : e = .column k := by
  cases e with
  | column c =>
    cases h
    rfl
  | _ => cases h

theorem names_runGroupBy {host : Host} {keys es : List Expr} (h : runGroupBy host f keys es = .ok f') :
    f'.names = (keys ++ es).map (·.outputName) := by
  obtain ⟨ks, hks, h⟩ := bind_eq_ok.1 h
  obtain ⟨w, hw, h⟩ := bind_eq_ok.1 h
  rw [names_groupBy h, names_collect hw, List.map_append]
  congr 1
  rw [← List.map_id ks]
  refine (map_eq_map (mapM_eq_ok.1 hks) fun e k hk => ?_).symm
  rw [keyName_eq_ok hk]
  rfl

theorem names_melt {ids values : List String} {labelName valueName : String}
    (h : f.melt ids values labelName valueName = .ok f') : f'.names = ids ++ [labelName, valueName] := by
  unfold Frame.melt at h
  obtain ⟨cs, -, h⟩ := bind_eq_ok.1 h
  obtain ⟨ks, hks, h⟩ := bind_eq_ok.1 h
  rw [Frame.names_ofColumns h, List.map_append]
  congr 1
  · rw [← List.map_id ids]
    refine (map_eq_map (mapM_eq_ok.1 hks) fun n c hc => ?_).symm
    obtain ⟨a, ha, rfl⟩ := map_eq_ok.1 hc
    exact (Frame.name_of_column? (Frame.column_eq_ok.1 ha)).symm
  · cases cs <;> rfl

theorem names_runApply {column : String} {g : ColumnFunction} (h : runApply f column g = .ok f') :
    f'.names = f.names := by
  obtain ⟨c, hc, h⟩ := bind_eq_ok.1 h
  obtain ⟨out, -, h⟩ := bind_eq_ok.1 h
  split at h
  · cases h
  · have named : (out.rename column).name ∈ f.names := Frame.mem_names.2 ⟨c, Frame.column_eq_ok.1 hc⟩
    rw [names_withColumn h, if_pos (by simpa using named)]

def Told (names : Option (List String)) (f : Frame) : Prop := ∀ ns, names = some ns → f.names = ns

theorem run_told {host : Host} {op : Operator} (h : op.run host f = .ok f') {input : Option (List String)}
    (told : Told input f) : Told (op.columns? input) f' := by
  have kept (same : f'.names = f.names) : Told input f' := fun ns hns => same.trans (told ns hns)
  cases op with
  | project es =>
    rintro _ ⟨⟩
    exact names_project h
  | filter e =>
    obtain ⟨m, -, h⟩ := bind_eq_ok.1 h
    exact kept (Frame.names_filter h)
  | withColumn e =>
    intro ns hns
    obtain ⟨names, hnames, rfl⟩ := Option.map_eq_some_iff.1 hns
    obtain ⟨c, hc, h⟩ := bind_eq_ok.1 h
    obtain ⟨_, -, rfl⟩ := map_eq_ok.1 hc
    rw [names_withColumn h, told names hnames]
    rfl
  | groupBy keys aggs =>
    rintro _ ⟨⟩
    exact names_runGroupBy h
  | sort keys descending => exact kept (Frame.names_sortBy h)
  | limit n =>
    cases h
    exact kept (Frame.names_slice ..)
  | tail n =>
    cases h
    exact kept (Frame.names_slice ..)
  | distinct subset => exact kept (Frame.names_distinct h)
  | pivot => nofun
  | melt ids values labelName valueName =>
    rintro _ ⟨⟩
    exact names_melt h
  | apply column g => exact kept (names_runApply h)

end Operator

/-- The columns of a source, where they are known without reading, are those that it reads. -/
def Source.Truthful (s : Source) : Prop := ∀ f ns, s.names? = some ns → s.read none = .ok f → f.names = ns

namespace Plan

def Truthful : Plan → Prop
  | scan s _ => s.Truthful
  | step _ x => x.Truthful
  | join _ l r => l.Truthful ∧ r.Truthful
  | cache _ x => x.Truthful

theorem readScan_told {s : Source} (hs : s.Truthful) {proj : Option (List String)} {f : Frame}
    (h : readScan s proj = .ok f) : Operator.Told (proj <|> s.names?) f := by
  obtain ⟨g, hg, h⟩ := bind_eq_ok.1 h
  cases proj with
  | none =>
    obtain rfl := pure_eq_ok.1 h
    exact fun ns hns => hs g ns hns hg
  | some names =>
    rintro _ ⟨⟩
    exact Frame.names_select h

/-- A plan gives a frame of the columns that it tells of. -/
theorem eval_names {host : Host} {p : Plan} (hp : p.Truthful) {f : Frame} (h : p.eval host = .ok f) :
    Operator.Told p.columns? f := by
  induction p generalizing f with
  | scan s proj => exact readScan_told hp h
  | step op x ih =>
    obtain ⟨g, hg, h⟩ := bind_eq_ok.1 h
    exact Operator.run_told h (ih hp hg)
  | join s l r ihl ihr =>
    obtain ⟨fl, hl, h⟩ := bind_eq_ok.1 h
    obtain ⟨fr, hr, h⟩ := bind_eq_ok.1 h
    intro ns hns
    rw [columns?] at hns
    obtain ⟨left, hleft, hns⟩ := Option.bind_eq_some_iff.1 hns
    obtain ⟨right, hright, hns⟩ := Option.bind_eq_some_iff.1 hns
    cases hns
    rw [Join.names_joined h, ihl hp.1 hl left hleft, ihr hp.2 hr right hright]
  | cache id x ih => exact ih hp h

/-- Whatever was asked before, a plan over truthful sources is answered with the columns that it tells of, in
their order. -/
theorem answer_names (host : Host) (before : List Request) {p : Plan} (hp : p.Truthful)
    (one : ∀ id x y, (id, x) ∈ before.flatMap Request.caches ++ p.caches →
      (id, y) ∈ before.flatMap Request.caches ++ p.caches → x = y)
    {ns : List String} (told : p.columns? = some ns) {f : Frame}
    (h : (p.answer host (Request.kept host before)).1 = .ok f) : f.names = ns := by
  have coherent := @Request.coherent_kept host _ one before fun _ hc => List.mem_append_left _ hc
  rw [(coherent.answer one fun _ hc => List.mem_append_right _ hc).1] at h
  exact eval_names hp h ns told

def sales : Frame :=
  ⟨[⟨"shop", .int64 #[some 2, some 1, some 2]⟩, ⟨"sum", .int64 #[some 5, none, some 7]⟩], 3⟩

def keptSales : Plan := .cache 7 (.scan (.memory sales) none)

def besideTotals : Plan :=
  .step (.withColumn (.named (.literal (.text "x")) "mark"))
    (.step (.withColumn (.named (.literal (.int 1)) "sum"))
      (.join ⟨.cross, [], [], "_all"⟩ keptSales
        (.step (.groupBy [.column "shop"] [.named (.aggregate .sum (.column "sum")) "sum"]) keptSales)))

theorem answer_names_besideTotals :
    besideTotals.columns? = some ["shop", "sum", "shop_all", "sum_all", "mark"] ∧
    ∃ f, (besideTotals.answer Host.fourCores
        (Request.kept Host.fourCores [.execute keptSales])).1 = .ok f ∧
      f.names = ["shop", "sum", "shop_all", "sum_all", "mark"] := by
  have told : besideTotals.columns? = some ["shop", "sum", "shop_all", "sum_all", "mark"] := by decide
  refine ⟨told, ?_⟩
  have truthful : keptSales.Truthful := by
    rintro _ _ ⟨⟩ ⟨⟩
    decide
  have answered : (besideTotals.answer Host.fourCores
      (Request.kept Host.fourCores [.execute keptSales])).1.isOk := by cbv
  obtain ⟨f, hf⟩ := isOk_iff.1 answered
  refine ⟨f, hf, answer_names Host.fourCores [.execute keptSales] (p := besideTotals)
    ⟨truthful, truthful⟩ ?_ told hf⟩
  have caches : ∀ c ∈ [Request.execute keptSales].flatMap Request.caches ++ besideTotals.caches,
      c = (7, .scan (.memory sales) none) := by
    simp [besideTotals, keptSales, Request.caches, Plan.caches]
  intro id x y hx hy
  cases caches _ hx
  cases caches _ hy
  rfl

end Plan

end Columnar
