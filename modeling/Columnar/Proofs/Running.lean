import Columnar.Proofs.Summaries

namespace Columnar.Operator

/-- A function of the user that an operator calls depends on nothing but its column. -/
def Deterministic : Operator → Prop
  | apply _ g => g.Deterministic
  | _ => True

variable {required : Option (List String)} {f g f' g' : Frame}

theorem mem_columnsOf {es : List Expr} {e : Expr} (he : e ∈ es) : ∀ n ∈ e.columns, n ∈ columnsOf es :=
  fun _ hn => List.mem_flatMap.2 ⟨e, he, hn⟩

theorem matches_self {names : List String} (hf : f.Capped) (h : f.Offers names g) {es : List Expr}
    (sub : ∀ e ∈ es, ∀ n ∈ e.columns, n ∈ names) :
    List.Forall₂ (fun e e' : Expr => e.Matches f g e' ∧ e.outputName = e'.outputName) es es :=
  List.forall₂_same.2 fun e he => ⟨Expr.eval_alike hf h (sub e he), rfl⟩

theorem meltedColumns_of_values {ids values : List String} (h : values.isEmpty = false) (f : Frame) :
    f.meltedColumns ids values = values := by simp [Frame.meltedColumns, h]

theorem melt_serves {ids values : List String} (labelName valueName : String) (hf : f.Sane)
    (h : Frame.Serves ((melt ids values labelName valueName).required? required) f g) :
    Follows Frame.Built (f.melt ids values labelName valueName) (g.melt ids values labelName valueName) := by
  cases hv : values.isEmpty with
  | true =>
    rw [required?, hv] at h
    have all : f.Alike g := h
    refine Frame.melt_built hf.toRectangular (all.offers _) ?_
    rw [Frame.meltedColumns, Frame.meltedColumns, all.names]
  | false =>
    rw [required?, hv] at h
    have offers : f.Offers (ids ++ values) g := h
    refine Frame.melt_built hf.toRectangular ?_ ?_
    · rwa [meltedColumns_of_values hv]
    · rw [meltedColumns_of_values hv, meltedColumns_of_values hv]

theorem distinct_serves (host : Host) {subset : Option (List String)} (hf : f.Sane) (hg : g.Sane)
    (h : Frame.Serves ((distinct subset).required? required) f g) :
    Follows (f.SameRows g) (f.distinct host subset) (g.distinct host subset) := by
  cases subset with
  | none =>
    have all : f.Alike g := h
    exact Frame.distinct_sameRows host hf hg (all.offers _) all.names
  | some names =>
    refine Frame.distinct_sameRows host hf hg (h.offers fun all hall n hn => ?_) rfl
    obtain ⟨outer, -, rfl⟩ := Option.map_eq_some_iff.1 hall
    exact List.mem_append_right _ hn

/-- What an operator needs of its input is enough for its output to be what is needed. -/
theorem run_serves (host : Host) {op : Operator} (det : op.Deterministic) (hf : f.Sane) (hg : g.Sane)
    (h : Frame.Serves (op.required? required) f g) :
    Follows (Frame.Served required f) (op.run host f) (op.run host g) := by
  have built {x y : Except Error Frame} (h : Follows Frame.Built x y) :
      Follows (Frame.Served required f) x y :=
    h.mono fun _ _ _ _ h => ⟨h.sane, h.alike.serves, fun _ => h.grounded⟩
  have picked {x y : Except Error Frame} (outer : Frame.Serves required f g)
      (h : Follows (f.SameRows g) x y) :
      Follows (Frame.Served required f) x y :=
    h.mono fun _ _ _ _ h => ⟨h.sane hf, h.serves outer, h.grounded⟩
  have outer {extra : List String} (h : Frame.Serves (required.map (· ++ extra)) f g) :
      Frame.Serves required f g ∧ f.Offers extra g := by
    cases required with
    | none => exact ⟨h, Frame.Alike.offers h extra⟩
    | some names => exact ⟨Frame.Offers.mono h fun n => List.mem_append_left _,
        Frame.Offers.mono h fun n => List.mem_append_right _⟩
  cases op with
  | project es =>
    exact built (Expr.project_built host (matches_self hf.toCapped h fun e => mem_columnsOf))
  | filter e =>
    obtain ⟨outer, columns⟩ := outer h
    exact picked outer (Expr.filter_sameRows hg h.height (Expr.eval_alike hf.toCapped columns fun _ hn => hn))
  | withColumn e =>
    have columns : f.Offers e.columns g := by
      cases required with
      | none => exact Frame.Alike.offers h _
      | some names => exact Frame.Offers.mono h fun n => List.mem_append_right _
    have same : e.Matches f g e := Expr.eval_alike hf.toCapped columns fun _ hn => hn
    refine Frame.set_serves hf hg (same.set rfl) ?_
    cases required with
    | none => exact h
    | some names => exact Frame.Offers.mono h fun n => List.mem_append_left _
  | groupBy keys aggs =>
    have offers : f.Offers (columnsOf (keys ++ aggs)) g := h
    refine built (runGroupBy_built host hf hg offers (fun k hk n hn => ?_) ?_)
    · refine mem_columnsOf (List.mem_append_left _ hk) n (Expr.mem_columns.2 ?_)
      rw [hn, Expr.nodes]
      exact List.mem_singleton_self _
    · exact List.forall₂_same.2 fun e he =>
        ⟨aggMatch_self hf.toCapped offers (mem_columnsOf (List.mem_append_right _ he)), rfl⟩
  | sort keys descending =>
    obtain ⟨outer, columns⟩ := outer h
    exact picked outer (Frame.sortBy_sameRows hf hg columns descending)
  | limit n => exact picked h (.ok (Frame.head_sameRows hf hg h.height n))
  | tail n => exact picked h (.ok (Frame.tail_sameRows hf hg h.height n))
  | distinct subset =>
    refine picked ?_ (distinct_serves host hf hg h)
    cases subset with
    | none => exact Frame.Alike.serves h
    | some names => exact (outer h).1
  | pivot index columns values op =>
    have offers : f.Offers (index ++ [columns, values]) g := h
    exact built (Frame.pivot_built host hf.toRectangular offers op)
  | melt ids values labelName valueName => exact built (melt_serves labelName valueName hf h)
  | apply column k =>
    obtain ⟨outer, columns⟩ := outer h
    rw [run, run, runApply_eq, runApply_eq]
    refine Frame.set_serves hf hg (applied_alike det columns) ?_
    cases required with
    | none => exact outer
    | some names => exact Frame.Offers.mono outer fun n hn => (List.mem_filter.1 hn).1

theorem run_self (host : Host) {op : Operator} (det : op.Deterministic) (hf : f.Sane)
    (h : op.run host f = .ok f') : ∃ g', Frame.Served none f f' g' := by
  have same : Frame.Serves (op.required? none) f f := (Frame.Alike.refl hf).serves
  obtain ⟨g', _, served⟩ := run_serves host det hf hf same f' h
  exact ⟨g', served⟩

theorem run_sane (host : Host) {op : Operator} (det : op.Deterministic) (hf : f.Sane)
    (h : op.run host f = .ok f') : f'.Sane := by
  obtain ⟨_, served⟩ := run_self host det hf h
  exact served.sane

theorem run_grounded (host : Host) {op : Operator} (det : op.Deterministic) (hf : f.Sane)
    (grounded : f.Grounded) (h : op.run host f = .ok f') : f'.Grounded := by
  obtain ⟨_, served⟩ := run_self host det hf h
  exact served.grounded grounded

end Columnar.Operator
