import Columnar.Operator.Run
import Columnar.Pass.Pruning
import Columnar.Proofs.Groups
import Columnar.Proofs.Selecting

namespace Columnar

def ColumnFunction.Deterministic (g : ColumnFunction) : Prop :=
  ∀ c d : Column, c.name = d.name → c.Alike d → Follows Column.Alike (g.apply c) (g.apply d)

namespace Frame

variable {required : Option (List String)} {names : List String} {f f' g : Frame}

theorem Alike.serves (h : f.Alike g) : Serves required f g := by
  cases required with
  | none => exact h
  | some names => exact h.offers names

def Grounded (f : Frame) : Prop := f.columns = [] → f.height = 0

structure Served (required : Option (List String)) (f f' g' : Frame) : Prop where
  sane : f'.Sane
  serves : Serves required f' g'
  grounded : f.Grounded → f'.Grounded

theorem set_serves (hf : f.Sane) (hg : g.Sane) {x y : Except Error Column} {name : String}
    (h : Follows (fun c d => c.height = f.height ∧ c.name = name ∧ d.name = name ∧ c.Alike d) x y)
    (hfg : Serves (required.map fun names => names.filter (· != name)) f g) :
    Follows (Served required f) (x >>= f.withColumn) (y >>= g.withColumn) := by
  refine h.bind fun c d ⟨height, hc, hd, hcd⟩ f' hf' => ?_
  obtain ⟨g', hg', serves⟩ := Frame.withColumn_serves hf.toRectangular hg.toRectangular
    (hc.trans hd.symm) height hcd (hc ▸ hfg) hf'
  refine ⟨g', hg', Frame.withColumn_sane hf height hcd.sound.1 hf', serves, fun _ none => ?_⟩
  obtain ⟨rfl, -⟩ := (withColumn_eq_ok hf.toRectangular height).1 hf'
  cases setColumn_ne_nil c f.columns none

structure Built (f g : Frame) : Prop where
  sane : f.Sane
  grounded : f.Grounded
  alike : f.Alike g

theorem ofColumns_built {cs ds : List Column}
    (h : List.Forall₂ (fun c d => c.name = d.name ∧ c.Alike d) cs ds) :
    Follows Built (ofColumns cs) (ofColumns ds) := by
  intro f hf
  obtain ⟨rfl, nodup, heights, limit⟩ := ofColumns_eq_ok.1 hf
  have names : cs.map (·.name) = ds.map (·.name) := map_eq_map h fun _ _ h => h.1
  have height : Column.heightOf cs = Column.heightOf ds := by
    cases h with
    | nil => rfl
    | cons h _ => exact h.2.height
  refine ⟨⟨ds, Column.heightOf ds⟩, ofColumns_eq_ok.2 ⟨rfl, names ▸ nodup, fun d hd => ?_, height ▸ limit⟩,
    ⟨capped_ofColumns hf, fun c hc => ?_⟩, fun none => congrArg Column.heightOf none, height, h⟩
  · obtain ⟨c, hc, _, hcd⟩ := exists_left h d hd
    rw [← hcd.height, heights c hc, height]
  · obtain ⟨_, _, _, hcd⟩ := exists_right h c hc
    exact hcd.sound.1

theorem order_congr {cs ds : List Column} (h : List.Forall₂ Column.Alike cs ds) (descending : List Bool)
    (i j : Nat) : SortKey.order i j (cs.zipWith SortKey.mk descending) =
      SortKey.order i j (ds.zipWith SortKey.mk descending) := by
  induction h generalizing descending with
  | nil => rfl
  | @cons c d _ _ hcd _ ih =>
    cases descending with
    | nil => rfl
    | cons b bs =>
      have rows : SortKey.orderRows ⟨c, b⟩ i j = SortKey.orderRows ⟨d, b⟩ i j := by
        simp only [SortKey.orderRows]
        rcases hcd.value? i with ⟨hi, hi'⟩ | ⟨v, v', hi, hi', hv⟩ <;>
          rcases hcd.value? j with ⟨hj, hj'⟩ | ⟨w, w', hj, hj', hw⟩ <;>
          simp only [hi, hi', hj, hj', SortKey.orderValues, Column.orderOptional]
        rw [Value.order_congr hv hw, Value.order_congr hw hv]
      rw [List.zipWith_cons_cons, List.zipWith_cons_cons, SortKey.order, SortKey.order, rows, ih]

theorem length_argsort (n : Nat) (keys : List SortKey) : (argsort n keys).length = n := by
  simp [argsort]

theorem heightOf_le {cs : List Column} {n : Nat} (h : ∀ c ∈ cs, c.height = n) :
    Column.heightOf cs ≤ n := by
  cases cs with
  | nil => exact Nat.zero_le n
  | cons c cs => exact Nat.le_of_eq (h c List.mem_cons_self)

theorem heights_of_mapM (hf : f.Rectangular) {cs : List Column} (h : names.mapM f.column = .ok cs) :
    ∀ c ∈ cs, c.height = f.height := fun c hc => by
  obtain ⟨_, _, hn⟩ := exists_left (mapM_eq_ok.1 h) c hc
  exact hf.height (column_eq_ok.1 hn)

theorem heightOf_alike {cs ds : List Column} (h : List.Forall₂ Column.Alike cs ds) :
    Column.heightOf cs = Column.heightOf ds := by
  cases h with
  | nil => rfl
  | cons h _ => exact h.height

def SameRows (f g f' g' : Frame) : Prop :=
  ∃ rows : List Nat, rows.length ≤ f.height ∧ (∀ i ∈ rows, i < f.height) ∧ Selects rows f f' ∧
    Selects rows g g'

theorem SameRows.serves {g' : Frame} (h : SameRows f g f' g') (hfg : Serves required f g) :
    Serves required f' g' := by
  obtain ⟨rows, -, -, hf, hg⟩ := h
  exact hf.serves hg hfg

theorem SameRows.sane {g' : Frame} (h : SameRows f g f' g') (hf : f.Sane) : f'.Sane := by
  obtain ⟨rows, fewer, -, hf', -⟩ := h
  exact hf'.sane hf fewer

theorem SameRows.grounded {g' : Frame} (h : SameRows f g f' g') (hf : f.Grounded) : f'.Grounded := by
  obtain ⟨rows, fewer, -, hf', -⟩ := h
  intro none
  have columns := hf'.columns
  rw [none, List.forall₂_nil_right_iff] at columns
  rw [hf'.height]
  exact Nat.le_zero.1 (hf columns ▸ fewer)

theorem take_sameRows (hg : g.Sane) (height : f.height = g.height) {rows : List Nat}
    (fewer : rows.length ≤ f.height) (below : ∀ i ∈ rows, i < f.height) :
    Follows (SameRows f g) (f.take (rows.map some).toArray) (g.take (rows.map some).toArray) := by
  intro f' hf'
  obtain ⟨g', hg'⟩ := take_ok hg.toRectangular fun nonempty => Nat.le_trans (height ▸ fewer) (hg.limit nonempty)
  exact ⟨g', hg', rows, fewer, below, selects_take hf', selects_take hg'⟩

theorem filter_sameRows (hg : g.Sane) (height : f.height = g.height) {m m' : Mask}
    (kept : m.kept = m'.kept) (size : m.size = m'.size) :
    Follows (SameRows f g) (f.filter m) (g.filter m') := by
  intro f' hf'
  obtain ⟨hm, selects⟩ := selects_filter hf'
  obtain ⟨g', hg'⟩ := filter_ok hg.toRectangular (size.symm.trans (hm.trans height))
  exact ⟨g', hg', m.kept, hm ▸ m.length_kept_le, fun i hi => hm ▸ Mask.lt_size_of_mem_kept hi, selects,
    kept ▸ (selects_filter hg').2⟩

theorem slice_sameRows (hf : f.Sane) (hg : g.Sane) (height : f.height = g.height) (offset n : Nat) :
    SameRows f g (f.slice offset n) (g.slice offset n) := by
  refine ⟨_, f.height_slice offset n, fun i hi => ?_, selects_slice hf.toRectangular offset n,
    height ▸ selects_slice hg.toRectangular offset n⟩
  have := (List.mem_range'_1.1 hi).2
  omega

theorem head_sameRows (hf : f.Sane) (hg : g.Sane) (height : f.height = g.height) (n : Nat) :
    SameRows f g (f.head n) (g.head n) := slice_sameRows hf hg height 0 n

theorem tail_sameRows (hf : f.Sane) (hg : g.Sane) (height : f.height = g.height) (n : Nat) :
    SameRows f g (f.tail n) (g.tail n) := by
  simp only [tail, ← height]
  exact slice_sameRows hf hg height ..

theorem sortBy_sameRows (hf : f.Sane) (hg : g.Sane) (h : Offers names f g) (descending : List Bool) :
    Follows (SameRows f g) (f.sortBy names descending) (g.sortBy names descending) := by
  unfold sortBy
  split
  · exact .error
  · refine (h.mapM_column fun _ hn => hn).mono (fun cs ds hcs _ hcd => And.intro hcs hcd) |>.bind
      fun cs ds ⟨hcs, hcd⟩ => ?_
    have order : argsort (Column.heightOf cs) (cs.zipWith SortKey.mk descending) =
        argsort (Column.heightOf ds) (ds.zipWith SortKey.mk descending) := by
      simp only [argsort, heightOf_alike hcd, order_congr hcd]
    have below := heightOf_le (heights_of_mapM hf.toRectangular hcs)
    rw [← order]
    refine take_sameRows hg h.height (by rwa [length_argsort]) fun i hi => ?_
    rw [argsort, List.mem_mergeSort, List.mem_range] at hi
    exact Nat.lt_of_lt_of_le hi below

theorem distinct_sameRows (host : Host) (hf : f.Sane) (hg : g.Sane) {subset : Option (List String)}
    (h : Offers (subset.getD f.names) f g) (same : subset.getD f.names = subset.getD g.names) :
    Follows (SameRows f g) (f.distinct host subset) (g.distinct host subset) := by
  simp only [distinct, ← same]
  split
  · exact .ok ⟨List.range f.height, by simp, fun i => List.mem_range.1, selects_range hf.toRectangular,
      h.height ▸ selects_range hg.toRectangular⟩
  · refine (h.mapM_column fun _ hn => hn).mono (fun cs ds hcs _ hcd => And.intro hcs hcd) |>.bind
      fun cs ds ⟨hcs, hcd⟩ => ?_
    have heights := heights_of_mapM hf.toRectangular hcs
    have sound : ∀ c ∈ cs, c.Sound := fun c hc => by
      obtain ⟨_, _, hcd⟩ := exists_right hcd c hc
      exact hcd.sound.1
    obtain ⟨fewer, below⟩ := Grouping.firstRows_ofKeys host heights sound
    rw [← Grouping.ofKeys_congr host hcd heights, ← @Array.toArray_toList _ (Array.map some _),
      Array.toList_map]
    refine take_sameRows hg h.height ?_ fun i hi => ?_
    · exact Nat.le_trans (by simpa using fewer) (heightOf_le heights)
    · exact Nat.lt_of_lt_of_le (below i (Array.mem_def.2 hi)) (heightOf_le heights)

end Frame

namespace Expr

/-- The second expression gives over the second frame what the first one gives over the first. -/
def Matches (f g : Frame) (e e' : Expr) : Prop :=
  Follows (fun c d => c.height = f.height ∧ c.Alike d) (e.eval f) (e'.eval g)

variable {required : Option (List String)} {f g : Frame} {e e' : Expr}

theorem Matches.evaluate (h : Matches f g e e') :
    Follows (fun c d => c.height = f.height ∧ c.name = e.outputName ∧ d.name = e'.outputName ∧ c.Alike d)
      (e.evaluate f) (e'.evaluate g) :=
  Follows.map h fun _ _ h => ⟨h.1, rfl, rfl, h.2.rename _ _⟩

theorem Matches.evaluateMask (h : Matches f g e e') :
    Follows (fun m m' => m.size = m'.size ∧ m.kept = m'.kept) (e.evaluateMask f) (e'.evaluateMask g) := by
  refine Follows.bind h fun c d hcd => ?_
  refine (toMask_local e e' (hcd.2.local hcd.1)).follows.mono fun m m' _ _ hm => ?_
  have size : m.size = m'.size := by rw [hm.size, List.length_range, hm.height]
  refine ⟨size, ?_⟩
  rw [Mask.kept, Mask.kept, ← size]
  refine List.filter_congr fun i hi => ?_
  rw [hm.holds (by rw [← hm.height]; exact List.getElem?_range (List.mem_range.1 hi))]

theorem filter_sameRows (hg : g.Sane) (height : f.height = g.height)
    (h : Matches f g e e') :
    Follows (f.SameRows g) (e.evaluateMask f >>= f.filter) (e'.evaluateMask g >>= g.filter) :=
  h.evaluateMask.bind fun _ _ hm => Frame.filter_sameRows hg height hm.2 hm.1

theorem Matches.set (h : Matches f g e e') (name : e.outputName = e'.outputName) :
    Follows (fun c d => c.height = f.height ∧ c.name = e.outputName ∧ d.name = e.outputName ∧ c.Alike d)
      (e.evaluate f) (e'.evaluate g) :=
  h.evaluate.mono fun _ _ _ _ ⟨height, hc, hd, hcd⟩ => ⟨height, hc, hd.trans name.symm, hcd⟩

theorem runProject_eq (host : Host) (f : Frame) (es : List Expr) :
    Operator.runProject host f es = es.mapM (·.evaluate f) >>= Frame.ofColumns := by
  rw [Operator.runProject, Pool.columns_eq_mapM, mapM_range fun i e he => by rw [he]]

theorem project_built (host : Host) {es es' : List Expr}
    (h : List.Forall₂ (fun e e' => Matches f g e e' ∧ e.outputName = e'.outputName) es es') :
    Follows Frame.Built (Operator.runProject host f es) (Operator.runProject host g es') := by
  have evaluated : Follows (List.Forall₂ fun c d : Column => c.name = d.name ∧ c.Alike d)
      (es.mapM (·.evaluate f)) (es'.mapM (·.evaluate g)) :=
    .mapM (h.imp fun e e' ⟨h, name⟩ => h.evaluate.mono fun c d _ _ ⟨_, hc, hd, hcd⟩ =>
      ⟨hc.trans (name.trans hd.symm), hcd⟩)
  rw [runProject_eq, runProject_eq]
  exact evaluated.bind fun _ _ => Frame.ofColumns_built

theorem project_names (host : Host) (hf : f.Sane) (grounded : f.Grounded) :
    Operator.runProject host f (f.names.map .column) = .ok f := by
  have columns : (f.names.map Expr.column).mapM (·.evaluate f) = .ok f.columns := by
    rw [mapM_eq_ok, Frame.names, List.map_map, List.forall₂_map_left_iff]
    refine List.forall₂_same.2 fun c hc => ?_
    rw [Function.comp, evaluate, eval_column, Frame.column_eq_ok.2 (hf.toRectangular.column? hc)]
    rfl
  have height : Column.heightOf f.columns = f.height := by
    cases hcs : f.columns with
    | nil => exact (grounded hcs).symm
    | cons c cs => exact hf.heights c (hcs ▸ List.mem_cons_self)
  rw [runProject_eq, columns]
  refine Frame.ofColumns_eq_ok.2 ⟨by rw [height], hf.names, fun c hc => ?_, ?_⟩
  · rw [height, hf.heights c hc]
  · rw [height]
    exact hf.short

end Expr

namespace Operator

def applied (f : Frame) (column : String) (g : ColumnFunction) : Except Error Column := do
  let out ← g.apply (← f.column column)
  if out.height ≠ f.height then throw (.applyHeight g.name column out.height f.height)
  pure (out.rename column)

theorem runApply_eq (f : Frame) (column : String) (g : ColumnFunction) :
    runApply f column g = applied f column g >>= f.withColumn := by
  unfold runApply applied
  cases f.column column with
  | error => rfl
  | ok c =>
    simp only [bind, Except.bind]
    cases g.apply c with
    | error => rfl
    | ok out => by_cases h : out.height ≠ f.height <;> simp [h, throw, throwThe, MonadExceptOf.throw, pure, Except.pure]

theorem applied_alike {f g : Frame} {column : String} {apply : ColumnFunction} (det : apply.Deterministic)
    (offers : f.Offers [column] g) :
    Follows (fun c d => c.height = f.height ∧ c.name = column ∧ d.name = column ∧ c.Alike d)
      (applied f column apply) (applied g column apply) := by
  refine (offers.column List.mem_cons_self).mono (fun c d hc hd hcd => And.intro (And.intro hc hd) hcd)
    |>.bind fun c d ⟨⟨hc, hd⟩, hcd⟩ => ?_
  have name : c.name = d.name := (Frame.name_of_column? (Frame.column_eq_ok.1 hc)).trans
    (Frame.name_of_column? (Frame.column_eq_ok.1 hd)).symm
  refine (det c d name hcd).bind fun out out' hout => ?_
  rw [← hout.height, ← offers.height]
  split
  · exact .error
  next height => exact .ok ⟨Decidable.not_not.1 height, rfl, rfl, hout.rename _ _⟩

end Operator

end Columnar
