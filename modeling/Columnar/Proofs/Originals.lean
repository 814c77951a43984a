import Columnar.Proofs.Schemas

/-!
Grouping computes from the frame that it is given. The columns that are computed for aggregations are set in
a working frame, where they must not take the place of a column that is read as it is.
-/

namespace Columnar

theorem Column.cast_rename (c : Column) (t : DType) (name : String) :
    (c.rename name).cast t = (c.cast t).rename name := by
  unfold cast
  rw [apply_ite (rename · name)]
  rfl

namespace Grouping

variable (g : Grouping) (c : Column) (name : String)

theorem sums_rename : g.sums (c.rename name) = (g.sums c).rename name := by
  rw [sums, sums, apply_ite (Column.rename · name)]
  rfl

theorem extremes_rename (e : End) : g.extremes (c.rename name) e = (g.extremes c e).rename name := by
  rw [extremes, extremes, apply_ite (Column.rename · name), ← Column.cast_rename]
  rfl

theorem extreme_rename (e : End) : g.extreme (c.rename name) e = (g.extreme c e).rename name := by
  rw [extreme, extreme, apply_ite (Column.rename · name), ← extremes_rename]
  rfl

variable {g c}

theorem aggregate_rename {host : Host} {op : Aggregation} {d : Column} (h : g.aggregate host c op = .ok d) :
    g.aggregate host (c.rename name) op = .ok (d.rename name) := by
  have numbers {x y : Column} {op : Aggregation} (same : y = x.rename name)
      (hx : (do requireNumbers c op; pure x) = Except.ok d) :
      (do requireNumbers (c.rename name) op; pure y) = Except.ok (d.rename name) := by
    obtain ⟨_, required, hx⟩ := bind_eq_ok.1 hx
    obtain rfl := pure_eq_ok.1 hx
    unfold requireNumbers at required ⊢
    split at required
    · cases required
    next plain =>
      rw [Column.dtype_rename, if_neg plain, same]
      rfl
  cases op with
  | count | first | last | distinct =>
    cases h
    rfl
  | min | max =>
    cases h
    exact congrArg Except.ok (extreme_rename ..)
  | sum => exact numbers (sums_rename ..) h
  | mean => exact numbers (x := floatColumn c.name (g.means c)) rfl h
  | std => exact numbers (x := floatColumn c.name ((g.variances c).map Float.sqrt)) rfl h
  | var => exact numbers (x := floatColumn c.name (g.variances c)) rfl h
  | median => exact numbers (x := floatColumn c.name (g.medians c)) rfl h

end Grouping

theorem Frame.columns_withColumn {f f' : Frame} {c : Column} (h : f.withColumn c = .ok f') :
    f'.columns = setColumn c f.columns := by
  unfold withColumn at h
  split at h
  · cases h
  · rw [(ofColumns_eq_ok.1 h).1]

theorem Frame.column?_withColumn {f f' : Frame} {c : Column} (h : f.withColumn c = .ok f') (n : String) :
    f'.column? n = if c.name = n then some c else f.column? n := by
  rw [column?, columns_withColumn h]
  exact find?_setColumn c f.columns n

namespace Operator

def plainArgument? (e : Expr) : Option String :=
  match unnamed e with
  | .aggregate _ (.column c) => some c
  | _ => none

def helperNames (aggregates : List Expr) : List String :=
  aggregates.zipIdx.filterMap fun (e, i) => if plainArgument? e = none then some (helperName i) else none

/-- The names of the columns that grouping reads from its working frame as they are. -/
def readAsIs (keys aggregates : List Expr) : List String :=
  keys.filterMap (·.column?) ++ aggregates.filterMap plainArgument?

def summaryOf (host : Host) (f : Frame) (g : Grouping) (e : Expr) : Except Error Column :=
  match unnamed e with
  | .aggregate op arg => do
    let c ← arg.evaluate f
    (·.rename e.outputName) <$> g.aggregate host c op
  | _ => .error (.plainAggregation e.text)

def summarizeInput (host : Host) (f : Frame) (keys : List String) (aggregates : List Expr) :
    Except Error Frame := do
  let cs ← keys.mapM f.column
  let g := Grouping.ofKeys host cs
  let results ← aggregates.mapM (summaryOf host f g)
  Frame.ofColumns (cs.map (·.gather g.firstRows) ++ results)

/-- The frame is that of the summaries of the input by columns of it. -/
def Summarizes (host : Host) (f : Frame) (keys aggregates : List Expr) (out : Frame) : Prop :=
  ∃ names : List String, keys = names.map .column ∧ summarizeInput host f names aggregates = .ok out

variable {host : Host} {f work : Frame} {e : Expr} {es keys : List Expr} {w w' : GroupPlan}

theorem helperNames_append (es : List Expr) (e : Expr) :
    helperNames (es ++ [e]) =
      helperNames es ++ if plainArgument? e = none then [helperName es.length] else [] := by
  rw [helperNames, helperNames, List.zipIdx_append, List.filterMap_append]
  by_cases h : plainArgument? e = none <;> simp [h]

theorem plainArgument?_column {op : Aggregation} {c : String} (he : unnamed e = .aggregate op (.column c)) :
    plainArgument? e = some c := by
  simp only [plainArgument?, he]

theorem plainArgument?_computed {op : Aggregation} {arg : Expr} (he : unnamed e = .aggregate op arg)
    (plain : ∀ c, arg ≠ .column c) : plainArgument? e = none := by
  unfold plainArgument?
  split
  next op' c same =>
    rw [he] at same
    exact absurd (Expr.aggregate.inj same).2 (plain c)
  next => rfl

inductive Noted (f work : Frame) (bound : Nat) (e : Expr) (s : Summary) : Prop
  | plain {c : String} (agg : unnamed e = .aggregate s.op (.column c)) (name : s.name = e.outputName)
      (column : s.column = some c)
  | computed {arg : Expr} {c : Column} {i : Nat} (agg : unnamed e = .aggregate s.op arg)
      (name : s.name = e.outputName) (column : s.column = some (helperName i)) (below : i < bound)
      (value : arg.evaluate f = .ok c) (held : work.column? (helperName i) = some (c.rename (helperName i)))

theorem Noted.later {bound : Nat} {s : Summary} (h : Noted f work bound e s) {work' : Frame}
    (kept : ∀ i < bound, work'.column? (helperName i) = work.column? (helperName i)) :
    Noted f work' (bound + 1) e s := by
  cases h with
  | plain agg name column => exact .plain agg name column
  | computed agg name column below value held =>
    exact .computed agg name column (Nat.lt_succ_of_lt below) value ((kept _ below).trans held)

structure Gathered (f : Frame) (done : List Expr) (w : GroupPlan) : Prop where
  kept : ∀ n, n ∉ helperNames done → w.work.column? n = f.column? n
  noted : List.Forall₂ (Noted f w.work done.length) done w.summaries

theorem gathered_start (f : Frame) : Gathered f [] ⟨f, []⟩ := ⟨fun _ _ => rfl, .nil⟩

theorem Gathered.add {done : List Expr} (h : Gathered f done w) (hw : addAggregate f w e = .ok w') :
    Gathered f (done ++ [e]) w' := by
  have length : w.summaries.length = done.length := h.noted.length_eq.symm
  by_cases agg : ∃ op arg, unnamed e = .aggregate op arg
  · obtain ⟨op, arg, he⟩ := agg
    by_cases plain : ∃ c, arg = .column c
    · obtain ⟨c, rfl⟩ := plain
      rw [addAggregate_column he] at hw
      cases hw
      refine ⟨fun n hn => h.kept n ?_, ?_⟩
      · simpa [helperNames_append, plainArgument?_column he] using hn
      · rw [List.length_append, List.length_singleton]
        exact List.rel_append (h.noted.imp fun _ _ noted => noted.later fun _ _ => rfl)
          (.cons (.plain he rfl rfl) .nil)
    · have plain : ∀ c, arg ≠ .column c := fun c hc => plain ⟨c, hc⟩
      rw [addAggregate_computed he plain, length] at hw
      obtain ⟨c, value, hw⟩ := bind_eq_ok.1 hw
      obtain ⟨work, hwork, hw⟩ := bind_eq_ok.1 hw
      obtain rfl := pure_eq_ok.1 hw
      have columns : ∀ n, work.column? n = if helperName done.length = n
          then some (c.rename (helperName done.length)) else w.work.column? n :=
        Frame.column?_withColumn hwork
      have own : plainArgument? e = none := plainArgument?_computed he plain
      refine ⟨fun n hn => ?_, ?_⟩
      · rw [helperNames_append, if_pos own, List.mem_append, List.mem_singleton, not_or] at hn
        rw [columns, if_neg (Ne.symm hn.2)]
        exact h.kept n hn.1
      · have before : ∀ i < done.length, work.column? (helperName i) = w.work.column? (helperName i) := by
          intro i hi
          rw [columns, if_neg fun same => Nat.ne_of_gt hi (helperName_injective same)]
        rw [List.length_append, List.length_singleton]
        refine List.rel_append (h.noted.imp fun _ _ noted => noted.later before) (.cons ?_ .nil)
        exact .computed he rfl rfl (Nat.lt_succ_self _) value (by rw [columns, if_pos rfl])
  · rw [addAggregate_other fun op arg he => agg ⟨op, arg, he⟩] at hw
    cases hw

theorem Gathered.fold {done : List Expr} (h : Gathered f done w)
    (hw : es.foldlM (addAggregate f) w = .ok w') : Gathered f (done ++ es) w' := by
  induction es generalizing done w with
  | nil =>
    cases hw
    rwa [List.append_nil]
  | cons e es ih =>
    rw [List.foldlM_cons] at hw
    obtain ⟨w₁, hw₁, hw⟩ := bind_eq_ok.1 hw
    have rest := ih (h.add hw₁) hw
    rwa [List.append_assoc] at rest

theorem evaluate_column {n : String} {c : Column} (h : f.column? n = some c) :
    (Expr.column n).evaluate f = .ok c := by
  rw [Expr.evaluate, Expr.eval_column, Frame.column_eq_ok.2 h]
  obtain rfl := Frame.name_of_column? h
  rfl

theorem summaryOf_eq_ok {op : Aggregation} {arg : Expr} (he : unnamed e = .aggregate op arg) {c : Column}
    (value : arg.evaluate f = .ok c) {g : Grouping} {name : String} {d : Column}
    (hd : g.aggregate host (c.rename name) op = .ok d) :
    summaryOf host f g e = .ok (d.rename e.outputName) := by
  have plain : g.aggregate host c op = .ok (d.rename c.name) :=
    Grouping.aggregate_rename (c := c.rename name) c.name hd
  simp only [summaryOf, he]
  exact bind_eq_ok.2 ⟨c, value, map_eq_ok.2 ⟨_, plain, rfl⟩⟩

/-- What is summarized under a note is the aggregation over the input. -/
theorem Noted.summarize {bound : Nat} {s : Summary} (h : Noted f work bound e s)
    (kept : ∀ n, plainArgument? e = some n → work.column? n = f.column? n) {g : Grouping}
    {input : Option Column} (hin : work.summaryInput s = .ok input) {d : Column}
    (hd : Frame.summarize host g s input = .ok d) : summaryOf host f g e = .ok d := by
  cases h with
  | @plain n agg name column =>
    simp only [Frame.summaryInput, column] at hin
    split at hin
    next c hc =>
      cases hin
      obtain ⟨d, result, rfl⟩ := map_eq_ok.1 hd
      rw [kept n (plainArgument?_column agg)] at hc
      rw [name]
      exact summaryOf_eq_ok agg (evaluate_column hc) result
    · cases hin
  | computed agg name column below value held =>
    simp only [Frame.summaryInput, column, held] at hin
    cases hin
    obtain ⟨d, result, rfl⟩ := map_eq_ok.1 hd
    rw [name]
    exact summaryOf_eq_ok agg value result

theorem keyColumns_eq_mapM {ks : List String} {cs : List Column} (h : f.keyColumns ks = .ok cs) :
    ks.mapM f.column = .ok cs := by
  unfold Frame.keyColumns at h
  split at h
  · cases h
  · refine mapM_eq_ok.2 ((mapM_eq_ok.1 h).imp fun k c hc => ?_)
    split at hc
    next found =>
      cases hc
      exact Frame.column_eq_ok.2 found
    · cases hc

/-- Grouping computes every aggregation over its input, unless a column that it reads as it is bears the name
of one that it computes. -/
theorem runGroupBy_summarizes {out : Frame} (h : runGroupBy host f keys es = .ok out)
    (apart : ∀ n ∈ readAsIs keys es, n ∉ helperNames es) : Summarizes host f keys es out := by
  obtain ⟨names, hkeys, h⟩ := bind_eq_ok.1 h
  obtain ⟨w, hw, h⟩ := bind_eq_ok.1 h
  rw [groupBy_eq] at h
  obtain ⟨cs, hcs, h⟩ := bind_eq_ok.1 h
  obtain ⟨inputs, hinputs, h⟩ := bind_eq_ok.1 h
  obtain ⟨results, hresults, h⟩ := bind_eq_ok.1 h
  have gathered : Gathered f es w := (gathered_start f).fold hw
  have columns : keys = names.map .column := by
    rw [← List.map_id keys]
    exact map_eq_map (mapM_eq_ok.1 hkeys) fun e n hn => keyName_eq_ok hn
  have keysKept : ∀ n ∈ names, w.work.column? n = f.column? n := fun n hn => by
    refine gathered.kept n (apart n (List.mem_append_left _ ?_))
    rw [columns]
    exact List.mem_filterMap.2 ⟨.column n, List.mem_map_of_mem hn, rfl⟩
  have plainKept : ∀ e ∈ es, ∀ n, plainArgument? e = some n → w.work.column? n = f.column? n := by
    intro e he n hn
    exact gathered.kept n (apart n (List.mem_append_right _ (List.mem_filterMap.2 ⟨e, he, hn⟩)))
  have inputs : List.Forall₂ (fun p e => ∃ input, w.work.summaryInput p.1 = .ok input ∧ p.2 = input ∧
      Noted f w.work es.length e p.1) inputs es := by
    refine forall₂_common (mapM_eq_ok.1 hinputs) gathered.noted.flip fun s p _ e _ hp noted => ?_
    obtain ⟨input, hinput, rfl⟩ := map_eq_ok.1 hp
    exact ⟨input, hinput, rfl, noted⟩
  refine ⟨names, columns, bind_eq_ok.2 ⟨cs, ?_, bind_eq_ok.2 ⟨results, mapM_eq_ok.2 ?_, h⟩⟩⟩
  · have each : List.Forall₂ (fun n m => n = m) names names := List.forall₂_same.2 fun _ _ => rfl
    refine mapM_eq_ok.2 (forall₂_common each (mapM_eq_ok.1 (keyColumns_eq_mapM hcs)) fun n m hm c _ same hc => ?_)
    rw [Frame.column_eq_ok, ← keysKept m hm, ← same]
    exact Frame.column_eq_ok.1 hc
  · refine forall₂_common inputs (mapM_eq_ok.1 hresults) fun p e he d _ ⟨input, hinput, same, noted⟩ hd => ?_
    rw [same] at hd
    exact noted.summarize (plainKept e he) hinput hd

def numbered : Frame :=
  ⟨[⟨"k", .int64 #[some 5, some 5]⟩, ⟨"__agg_0", .int64 #[some 10, some 20]⟩], 2⟩

def largest : Expr := .named (.aggregate .max (.column "__agg_0")) "m"

def rowCount : Expr := .named (.aggregate .sum (.literal (.int 1))) "n"

theorem runGroupBy_summarizes_numbered :
    ∃ out, runGroupBy Host.fourCores numbered [.column "k"] [largest, rowCount] = .ok out ∧
      (∀ n ∈ readAsIs [.column "k"] [largest, rowCount], n ∉ helperNames [largest, rowCount]) ∧
      Summarizes Host.fourCores numbered [.column "k"] [largest, rowCount] out := by
  have apart : ∀ n ∈ readAsIs [.column "k"] [largest, rowCount], n ∉ helperNames [largest, rowCount] := by
    decide
  have answered : (runGroupBy Host.fourCores numbered [.column "k"] [largest, rowCount]).isOk := by cbv
  obtain ⟨out, grouped⟩ := isOk_iff.1 answered
  exact ⟨out, grouped, apart, runGroupBy_summarizes grouped apart⟩

/-- The count of rows is kept in the column of which the largest amount is asked. -/
theorem not_summarizes_numbered :
    ¬ ∀ out, runGroupBy Host.fourCores numbered [.column "k"] [rowCount, largest] = .ok out →
      Summarizes Host.fourCores numbered [.column "k"] [rowCount, largest] out := by
  intro all
  have row : (Frame.row · 0) <$> runGroupBy Host.fourCores numbered [.column "k"] [rowCount, largest] =
      .ok [.int 5, .int 2, .int 1] := by cbv
  obtain ⟨out, grouped, row⟩ := map_eq_ok.1 row
  obtain ⟨names, keys, direct⟩ := all out grouped
  have column : names = ["k"] := by
    cases names with
    | nil => cases keys
    | cons n ns => cases ns with
      | nil =>
        cases keys
        rfl
      | cons => cases keys
  have rowOfInput : (Frame.row · 0) <$> summarizeInput Host.fourCores numbered ["k"] [rowCount, largest] =
      .ok [.int 5, .int 2, .int 20] := by cbv
  rw [← column, map_eq_ok.2 ⟨out, direct, row⟩] at rowOfInput
  revert rowOfInput
  decide

end Operator

end Columnar
