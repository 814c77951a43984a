import Columnar.Proofs.Schemas

namespace Columnar

namespace Frame

variable {f f' : Frame}

theorem rectangular_ofColumnsAt {n : Nat} {cs : List Column} (h : ofColumnsAt n cs = .ok f)
    (heights : ∀ c ∈ cs, c.height = n) : f.Rectangular := by
  obtain ⟨g, hg, rfl⟩ := ofColumnsAt_eq_ok.1 h
  obtain ⟨-, names, -, limit⟩ := ofColumns_eq_ok.1 hg
  refine ⟨names, heights, fun nonempty => ?_⟩
  obtain ⟨c, cs', rfl⟩ := List.exists_cons_of_ne_nil nonempty
  exact heights c List.mem_cons_self ▸ limit

theorem rectangular_take {g : Gather} (h : f.take g = .ok f') : f'.Rectangular :=
  rectangular_ofColumnsAt h (List.forall_mem_map.2 fun c _ => Column.height_take c g)

theorem rectangular_filter {m : Mask} (h : f.filter m = .ok f') : f'.Rectangular := by
  unfold filter at h
  split at h
  · cases h
  · obtain ⟨cs, hcs, h⟩ := bind_eq_ok.1 h
    refine rectangular_ofColumnsAt h fun d hd => ?_
    obtain ⟨_, _, _, draws⟩ := exists_left (filterColumns_draws hcs) d hd
    rw [draws.height, m.count_eq]

theorem rectangular_slice (hf : f.Rectangular) (offset n : Nat) : (f.slice offset n).Rectangular :=
  (selects_slice hf offset n).rectangular hf fun nonempty =>
    Nat.le_trans (f.height_slice offset n) (hf.limit nonempty)

theorem rectangular_select {ns : List String} (h : f.select ns = .ok f') : f'.Rectangular := by
  obtain ⟨cs, -, out, hout, rfl⟩ := select_eq_ok.1 h
  split
  next none =>
    rw [List.isEmpty_iff.1 none]
    exact ⟨List.nodup_nil, nofun, fun h => absurd rfl h⟩
  · exact rectangular_ofColumns hout

theorem rectangular_sortBy {names : List String} {descending : List Bool} (h : f.sortBy names descending = .ok f') :
    f'.Rectangular := by
  unfold sortBy at h
  split at h
  · cases h
  · obtain ⟨_, -, h⟩ := bind_eq_ok.1 h
    exact rectangular_take h

theorem height_ofColumnsAt {n : Nat} {cs : List Column} (h : ofColumnsAt n cs = .ok f') : f'.height = n := by
  obtain ⟨-, -, rfl⟩ := ofColumnsAt_eq_ok.1 h
  rfl

theorem height_filter {m : Mask} (h : f.filter m = .ok f') : f'.height ≤ f.height := by
  unfold filter at h
  split at h
  · cases h
  next size =>
    obtain ⟨_, -, h⟩ := bind_eq_ok.1 h
    rw [height_ofColumnsAt h, ← not_not.1 size]
    exact Array.countP_le_size

theorem height_slice_le (f : Frame) (offset n : Nat) : (f.slice offset n).height ≤ f.height :=
  (Nat.min_le_right ..).trans (Nat.sub_le ..)

theorem height_sortBy {names : List String} {descending : List Bool} (hf : f.Rectangular)
    (h : f.sortBy names descending = .ok f') : f'.height ≤ f.height := by
  unfold sortBy at h
  split at h
  · cases h
  · obtain ⟨keys, hkeys, h⟩ := bind_eq_ok.1 h
    rw [height_ofColumnsAt h]
    simpa [length_argsort] using heightOf_le (heights_of_mapM hf hkeys)

theorem capped_take {g : Gather} (h : f.take g = .ok f') (bare : f.columns = [] → g.size ≤ maxRows) : f'.Capped := by
  by_cases none : f.columns = []
  · exact ⟨rectangular_take h, height_ofColumnsAt h ▸ bare none⟩
  · refine (rectangular_take h).capped ?_
    obtain ⟨-, -, rfl⟩ := ofColumnsAt_eq_ok.1 h
    exact fun none' => none (List.map_eq_nil_iff.1 none')

theorem Capped.filter {m : Mask} (hf : f.Capped) (h : f.filter m = .ok f') : f'.Capped :=
  ⟨rectangular_filter h, Nat.le_trans (height_filter h) hf.short⟩

theorem Capped.slice (hf : f.Capped) (offset n : Nat) : (f.slice offset n).Capped :=
  ⟨rectangular_slice hf.toRectangular offset n, Nat.le_trans (height_slice_le ..) hf.short⟩

theorem Capped.select {ns : List String} (hf : f.Capped) (h : f.select ns = .ok f') : f'.Capped := by
  refine ⟨rectangular_select h, ?_⟩
  obtain ⟨cs, -, out, hout, rfl⟩ := select_eq_ok.1 h
  split
  · exact hf.short
  · exact (capped_ofColumns hout).short

theorem Capped.sortBy {names : List String} {descending : List Bool} (hf : f.Capped)
    (h : f.sortBy names descending = .ok f') : f'.Capped :=
  ⟨rectangular_sortBy h, Nat.le_trans (height_sortBy hf.toRectangular h) hf.short⟩

theorem Capped.distinct {host : Host} {subset : Option (List String)} (hf : f.Capped)
    (h : f.distinct host subset = .ok f') : f'.Capped := by
  simp only [Frame.distinct] at h
  split at h
  · cases h
    exact hf
  next nonempty =>
    obtain ⟨keys, hkeys, h⟩ := bind_eq_ok.1 h
    have found := mapM_eq_ok.1 hkeys
    refine capped_take h fun none => absurd (List.isEmpty_iff.2 ?_) nonempty
    -- No name is found among no columns.
    refine List.eq_nil_iff_forall_not_mem.2 fun n hn => ?_
    obtain ⟨c, -, hc⟩ := exists_right found n hn
    have := mem_of_column? (column_eq_ok.1 hc)
    rw [none] at this
    cases this

theorem capped_withColumn {c : Column} (h : f.withColumn c = .ok f') : f'.Capped := by
  unfold withColumn at h
  split at h
  · cases h
  · exact capped_ofColumns h

theorem capped_pivot {host : Host} {index : List String} {columns values : String} {op : Aggregation}
    (h : f.pivot host index columns values op = .ok f') : f'.Capped := by
  unfold pivot at h
  split at h
  · cases h
  · obtain ⟨_, -, h⟩ := bind_eq_ok.1 h
    obtain ⟨_, -, h⟩ := bind_eq_ok.1 h
    obtain ⟨_, -, h⟩ := bind_eq_ok.1 h
    obtain ⟨_, -, h⟩ := bind_eq_ok.1 h
    exact capped_ofColumns h

theorem capped_melt {ids values : List String} {labelName valueName : String}
    (h : f.melt ids values labelName valueName = .ok f') : f'.Capped := by
  unfold melt at h
  obtain ⟨_, -, h⟩ := bind_eq_ok.1 h
  obtain ⟨_, -, h⟩ := bind_eq_ok.1 h
  exact capped_ofColumns h

end Frame

namespace Operator

variable {host : Host} {f f' : Frame}

theorem capped_runGroupBy {keys es : List Expr} (h : runGroupBy host f keys es = .ok f') : f'.Capped := by
  obtain ⟨ks, -, h⟩ := bind_eq_ok.1 h
  obtain ⟨w, -, h⟩ := bind_eq_ok.1 h
  rw [groupBy_eq] at h
  obtain ⟨_, -, h⟩ := bind_eq_ok.1 h
  obtain ⟨_, -, h⟩ := bind_eq_ok.1 h
  obtain ⟨_, -, h⟩ := bind_eq_ok.1 h
  exact Frame.capped_ofColumns h

theorem run_capped {op : Operator} (hf : f.Capped) (h : op.run host f = .ok f') : f'.Capped := by
  cases op with
  | project es =>
    obtain ⟨_, -, h⟩ := bind_eq_ok.1 h
    exact Frame.capped_ofColumns h
  | filter e =>
    obtain ⟨_, -, h⟩ := bind_eq_ok.1 h
    exact hf.filter h
  | withColumn e =>
    obtain ⟨_, -, h⟩ := bind_eq_ok.1 h
    exact Frame.capped_withColumn h
  | groupBy keys aggs => exact capped_runGroupBy h
  | sort keys descending => exact hf.sortBy h
  | limit n =>
    cases h
    exact hf.slice ..
  | tail n =>
    cases h
    exact hf.slice ..
  | distinct subset => exact hf.distinct h
  | pivot index columns values op => exact Frame.capped_pivot h
  | melt ids values labelName valueName => exact Frame.capped_melt h
  | apply column g =>
    have h : applied f column g >>= f.withColumn = .ok f' := runApply_eq f column g ▸ h
    obtain ⟨_, -, h⟩ := bind_eq_ok.1 h
    exact Frame.capped_withColumn h

end Operator

namespace Plan

/-- All sources of a plan give frames of no more rows than allowed. -/
def Framed : Plan → Prop
  | scan s _ => ∀ wanted f, s.read wanted = .ok f → f.Capped
  | step _ x => x.Framed
  | join _ l r => l.Framed ∧ r.Framed
  | cache _ x => x.Framed

theorem eval_capped {host : Host} {p : Plan} (hp : p.Framed) {f : Frame} (h : p.eval host = .ok f) : f.Capped := by
  induction p generalizing f with
  | scan s proj =>
    obtain ⟨g, hg, h⟩ := bind_eq_ok.1 h
    cases proj with
    | none =>
      obtain rfl := pure_eq_ok.1 h
      exact hp _ g hg
    | some names => exact (hp _ g hg).select h
  | step op x ih =>
    obtain ⟨g, hg, h⟩ := bind_eq_ok.1 h
    exact Operator.run_capped (ih hp hg) h
  | join s l r ihl ihr =>
    obtain ⟨_, -, h⟩ := bind_eq_ok.1 h
    obtain ⟨_, -, h⟩ := bind_eq_ok.1 h
    obtain ⟨-, _, -, h⟩ := Join.joined_eq_ok.1 h
    exact Join.capped_assemble h
  | cache id x ih => exact ih hp h

end Plan

end Columnar
