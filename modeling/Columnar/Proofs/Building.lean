import Columnar.Proofs.Shapes

/-!
Frames that operations give, in any order and number. They are exactly those of columns of one height under distinct
names, and with columns they are never higher than allowed. But nobody counts the rows of no columns when they are
stacked or gathered, so frames without columns are as high as these two operations make them.
-/

namespace Columnar.Frame

variable {f g out : Frame} {most : Nat}

/-- What operations give one after the other, if no stack or gather of no columns has more rows than `most`. -/
inductive Reachable (most : Nat) : Frame → Prop
  | empty : Reachable most empty
  | ofColumns {cs : List Column} {out : Frame} (h : ofColumns cs = .ok out) : Reachable most out
  | select {names : List String} {f out : Frame} (hf : Reachable most f) (h : f.select names = .ok out) :
      Reachable most out
  | withColumn {c : Column} {f out : Frame} (hf : Reachable most f) (h : f.withColumn c = .ok out) :
      Reachable most out
  | vstack {f g out : Frame} (hf : Reachable most f) (hg : Reachable most g) (h : f.vstack g = .ok out)
      (bare : f.columns = [] → f.height + g.height ≤ most) : Reachable most out
  | filter {m : Mask} {f out : Frame} (hf : Reachable most f) (h : f.filter m = .ok out) : Reachable most out
  | take {g : Gather} {f out : Frame} (hf : Reachable most f) (h : f.take g = .ok out)
      (bare : f.columns = [] → g.size ≤ most) : Reachable most out
  | slice (offset n : Nat) {f : Frame} (hf : Reachable most f) : Reachable most (f.slice offset n)
  | head (n : Nat) {f : Frame} (hf : Reachable most f) : Reachable most (f.head n)
  | tail (n : Nat) {f : Frame} (hf : Reachable most f) : Reachable most (f.tail n)
  | sortBy {names : List String} {descending : List Bool} {f out : Frame} (hf : Reachable most f)
      (h : f.sortBy names descending = .ok out) : Reachable most out

theorem vstack_eq_ok : f.vstack g = .ok out ↔ f.names = g.names ∧
    ofColumnsAt (f.height + g.height) (f.columns.zipWith (Column.stackOnto · [·]) g.columns) = .ok out := by
  unfold vstack
  split
  next ne => exact ⟨nofun, fun h => absurd h.1 ne⟩
  next eq => exact ⟨fun h => ⟨not_not.1 eq, h⟩, fun h => h.2⟩

theorem rectangular_vstack (hf : f.Rectangular) (hg : g.Rectangular) (h : f.vstack g = .ok out) :
    out.Rectangular := by
  refine rectangular_ofColumnsAt (vstack_eq_ok.1 h).2 fun s hs => ?_
  obtain ⟨i, hi, rfl⟩ := List.mem_iff_getElem.1 hs
  rw [List.getElem_zipWith, (Column.stackOnto_spec ..).2.1]
  simp [hf.heights, hg.heights]

theorem Reachable.rectangular (h : f.Reachable most) : f.Rectangular := by
  induction h with
  | empty => exact ⟨List.nodup_nil, nofun, fun h => absurd rfl h⟩
  | ofColumns h => exact rectangular_ofColumns h
  | select _ h _ => exact rectangular_select h
  | withColumn _ h _ => exact rectangular_withColumn h
  | vstack _ _ h _ ihf ihg => exact rectangular_vstack ihf ihg h
  | filter _ h _ => exact rectangular_filter h
  | take _ h _ _ => exact rectangular_take h
  | slice offset n _ ih => exact rectangular_slice ih offset n
  | head n _ ih => exact rectangular_slice ih 0 n
  | tail n _ ih => exact rectangular_slice ih _ _
  | sortBy _ h _ => exact rectangular_sortBy h

theorem Rectangular.height_le (hf : f.Rectangular) (bare : f.columns = [] → f.height ≤ most) :
    f.height ≤ max most maxRows := by
  by_cases none : f.columns = []
  · exact (bare none).trans (Nat.le_max_left ..)
  · exact (hf.limit none).trans (Nat.le_max_right ..)

theorem Reachable.height_le (h : f.Reachable most) : f.height ≤ max most maxRows := by
  have counted {cs : List Column} {out : Frame} (h : Frame.ofColumns cs = .ok out) : out.height ≤ max most maxRows :=
    ((capped_ofColumns h).short).trans (Nat.le_max_right ..)
  induction h with
  | empty => exact Nat.zero_le _
  | ofColumns h => exact counted h
  | select _ h ih =>
    obtain ⟨cs, -, _, hout, rfl⟩ := select_eq_ok.1 h
    split
    · exact ih
    · exact counted hout
  | withColumn _ h _ =>
    unfold Frame.withColumn at h
    split at h
    · cases h
    · exact counted h
  | vstack hf hg h bare _ _ =>
    refine (rectangular_vstack hf.rectangular hg.rectangular h).height_le fun none => ?_
    obtain ⟨names, h⟩ := vstack_eq_ok.1 h
    rw [height_ofColumnsAt h]
    obtain ⟨-, -, rfl⟩ := ofColumnsAt_eq_ok.1 h
    refine bare ((List.zipWith_eq_nil_iff.1 none).elim id fun none => ?_)
    rw [← List.map_eq_nil_iff, ← Frame.names, names, Frame.names, none, List.map_nil]
  | filter _ h ih => exact (height_filter h).trans ih
  | take _ h bare _ =>
    refine (rectangular_take h).height_le fun none => ?_
    rw [height_ofColumnsAt h]
    obtain ⟨-, -, rfl⟩ := ofColumnsAt_eq_ok.1 h
    exact bare (List.map_eq_nil_iff.1 none)
  | slice _ _ _ ih => exact (height_slice_le ..).trans ih
  | head _ _ ih => exact (height_slice_le ..).trans ih
  | tail _ _ ih => exact (height_slice_le ..).trans ih
  | sortBy hf h ih => exact (height_sortBy hf.rectangular h).trans ih

theorem reachable_of_columns (hf : f.Rectangular) (nonempty : f.columns ≠ []) : f.Reachable most := by
  obtain ⟨g, hg, columns, height⟩ := ofColumns_ok hf.names hf.heights hf.limit
  have eq : g = f := by
    cases f
    cases g
    cases columns
    cases height nonempty
    rfl
  exact eq ▸ .ofColumns hg

theorem take_bare (n : Nat) (g : Gather) : (⟨[], n⟩ : Frame).take g = .ok ⟨[], g.size⟩ := rfl

theorem vstack_bare (m n : Nat) : (⟨[], m⟩ : Frame).vstack ⟨[], n⟩ = .ok ⟨[], m + n⟩ := rfl

theorem reachable_bare {n : Nat} (h : n ≤ max most maxRows) : (⟨[], n⟩ : Frame).Reachable most := by
  rcases le_max_iff.1 h with gathered | allowed
  · refine .take .empty (g := .replicate n none) (by rw [Frame.empty, take_bare, Array.size_replicate]) fun _ => ?_
    rwa [Array.size_replicate]
  · have names : ([Column.nulls "n" n .null].map (·.name)).Nodup := List.nodup_singleton _
    have heights : ∀ c ∈ [Column.nulls "n" n .null], c.height = n :=
      List.forall_mem_singleton.2 (Column.height_nulls ..)
    obtain ⟨f, hf, -, height⟩ := ofColumns_ok names heights fun _ => allowed
    have choice : f.select [] = .ok ⟨[], f.height⟩ := select_eq_ok.2 ⟨[], rfl, _, rfl, rfl⟩
    rw [← height nofun]
    exact .select (.ofColumns hf) choice

/-- Exactly these frames are reached. -/
theorem reachable_iff : f.Reachable most ↔ f.Rectangular ∧ f.height ≤ max most maxRows := by
  refine ⟨fun h => ⟨h.rectangular, h.height_le⟩, fun ⟨hf, limit⟩ => ?_⟩
  by_cases none : f.columns = []
  · obtain ⟨_, n⟩ := f
    cases none
    exact reachable_bare limit
  · exact reachable_of_columns hf none

theorem Reachable.fits (hf : f.Reachable maxRows) (hg : g.Reachable maxRows) : f.height + g.height < 2 ^ 32 := by
  have hf := hf.height_le
  have hg := hg.height_le
  rw [Nat.max_self, maxRows] at hf hg
  omega

/-- A choice of no columns, stacked onto itself, is higher than allowed. -/
theorem reachable_beyond : ∃ f : Frame, f.Reachable (2 * maxRows) ∧ maxRows < f.height := by
  have bare : (⟨[], maxRows⟩ : Frame).Reachable (2 * maxRows) := reachable_bare (Nat.le_max_right ..)
  exact ⟨_, .vstack bare bare (vstack_bare ..) fun _ => (Nat.two_mul _).ge, by decide⟩

end Columnar.Frame
