import Columnar.Grouping.Aggregate
import Columnar.Proofs.Groups
import Columnar.Proofs.Stacking

namespace Columnar

theorem ofFn_congr {m n : Nat} (h : m = n) {f g : Nat → α} (hfg : ∀ i, f i = g i) :
    (Array.ofFn fun i : Fin m => f i) = Array.ofFn fun i : Fin n => g i := by
  subst h
  simp only [hfg]

namespace Grouping

theorem floatColumn_alike (m n : String) {xs ys : Array Float} (h : xs = ys) :
    (floatColumn m xs).Alike (floatColumn n ys) :=
  h ▸ ⟨rfl, rfl, fun _ => rfl, Column.sound_of_dtype nofun, Column.sound_of_dtype nofun⟩

theorem intColumn_alike (m n : String) {xs ys : Array Int64} (h : xs = ys) :
    (intColumn m xs).Alike (intColumn n ys) :=
  h ▸ ⟨rfl, rfl, fun _ => rfl, Column.sound_of_dtype nofun, Column.sound_of_dtype nofun⟩

variable {c d : Column} (h : c.Alike d) (g : Grouping)

include h

theorem floatsOr_congr (x : Float) : floatsOr c x = floatsOr d x :=
  ofFn_congr h.height (f := fun i => (c.float? i).getD x) (g := fun i => (d.float? i).getD x)
    fun i => by rw [h.float?]

theorem intsOr_congr (x : Int64) : intsOr c x = intsOr d x :=
  ofFn_congr h.height (f := fun i => (c.int? i).getD x) (g := fun i => (d.int? i).getD x)
    fun i => by rw [h.int?]

theorem valueCounts_congr : g.valueCounts c = g.valueCounts d := by
  have held : (Array.ofFn fun i : Fin c.height => !c.isNull i) = .ofFn fun i : Fin d.height => !d.isNull i :=
    ofFn_congr h.height (f := fun i => !c.isNull i) (g := fun i => !d.isNull i) fun i => by rw [h.isNull]
  rw [valueCounts, valueCounts, held]

theorem floatSums_congr : g.floatSums c = g.floatSums d := by rw [floatSums, floatSums, floatsOr_congr h]

theorem means_congr : g.means c = g.means d := by
  rw [means, means, floatSums_congr h, valueCounts_congr h]

theorem members_congr : g.members c = g.members d := by
  have rows : (Array.ofFn fun i : Fin c.height => c.float? i) = .ofFn fun i : Fin d.height => d.float? i :=
    ofFn_congr h.height (f := c.float?) (g := d.float?) h.float?
  rw [members, members, rows]

theorem variances_congr : g.variances c = g.variances d := by
  simp only [variances, means_congr h, valueCounts_congr h, h.float?]

theorem sums_alike : (g.sums c).Alike (g.sums d) := by
  simp only [sums, floatSums_congr h, intSums, intsOr_congr h, h.dtype]
  split
  · exact floatColumn_alike _ _ rfl
  · exact intColumn_alike _ _ rfl

theorem extremes_alike (e : End) : (g.extremes c e).Alike (g.extremes d e) := by
  simp only [extremes, floatExtremes, intExtremes, floatsOr_congr h, intsOr_congr h, valueCounts_congr h,
    h.dtype]
  split
  · exact floatColumn_alike _ _ rfl
  · exact (intColumn_alike _ _ rfl).cast _

theorem extremeRows_congr (e : End) : g.extremeRows c e = g.extremeRows d e := by
  simp only [extremeRows]
  congr 1
  funext best row
  rcases h.value? row with ⟨hc, hd⟩ | ⟨v, w, hc, hd, hvw⟩
  · rw [hc, hd]
  · rw [hc, hd]
    cases best with
    | none => rfl
    | some b =>
      rcases h.value? b with ⟨hc', hd'⟩ | ⟨v', w', hc', hd', hvw'⟩
      · simp only [hc', hd']
      · simp only [hc', hd', Value.order_congr hvw hvw']

theorem extreme_alike (e : End) : (g.extreme c e).Alike (g.extreme d e) := by
  simp only [extreme, h.dtype, extremeRows_congr h]
  split
  · exact h.take _
  · exact extremes_alike h g e

omit h in
theorem pairs_firstRows (host : Host) {c : Column} (sound : c.Sound) :
    (assign (Hasher.combine (Hasher.rows host.hasher.code c) (g.ids.map (.ofNat ·)))
      fun i j => g.ids[i]? == g.ids[j]? && c.groupEq i c j).firstRows =
      (placed (fun i j => g.ids[i]? == g.ids[j]? && c.groupEq i c j) c.height).2 := by
  have size : (Hasher.combine (Hasher.rows host.hasher.code c) (g.ids.map (.ofNat ·))).size = c.height := by
    rw [Hasher.combine, Array.size_mapIdx, Hasher.size_rows]
  rw [← size]
  refine (assign_eq_placed fun i hi j hj same => ?_).2
  rw [Bool.and_eq_true, beq_iff_eq] at same
  rw [Hasher.getElem?_combine, Hasher.getElem?_combine, Array.getElem?_map, Array.getElem?_map, same.1,
    host.hasher.getElem?_rows_of_groupEq (sound.onePlace i j) (size ▸ hi) (size ▸ hj) same.2]

theorem distinctCounts_congr (host : Host) : distinctCounts host g c = distinctCounts host g d := by
  simp only [distinctCounts]
  rw [pairs_firstRows g host h.sound.1, pairs_firstRows g host h.sound.2]
  simp only [h.groupEq h, h.height, h.isNull]

/-- Alike columns have alike aggregations, and none together. -/
theorem aggregate_alike (host : Host) (op : Aggregation) :
    Follows Column.Alike (g.aggregate host c op) (g.aggregate host d op) := by
  have numbers {x y : Column} (op : Aggregation) (hxy : x.Alike y) :
      Follows Column.Alike (do requireNumbers c op; pure x) (do requireNumbers d op; pure y) := by
    simp only [requireNumbers, h.dtype]
    split
    · exact .error
    · exact .ok hxy
  cases op with
  | count => exact .ok (intColumn_alike _ _ (by rw [valueCounts_congr h]))
  | first => exact .ok (h.take _)
  | last => exact .ok (h.take _)
  | min => exact .ok (extreme_alike h g .least)
  | max => exact .ok (extreme_alike h g .greatest)
  | distinct => exact .ok (intColumn_alike _ _ (by rw [distinctCounts_congr h]))
  | sum => exact numbers .sum (sums_alike h g)
  | mean => exact numbers .mean (floatColumn_alike _ _ (means_congr h g))
  | std => exact numbers .std (floatColumn_alike _ _ (by rw [variances_congr h]))
  | var => exact numbers .var (floatColumn_alike _ _ (variances_congr h g))
  | median => exact numbers .median (floatColumn_alike _ _ (by rw [medians, medians, members_congr h]))

end Grouping

end Columnar
