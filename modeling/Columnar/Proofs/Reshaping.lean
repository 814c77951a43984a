import Columnar.Proofs.Aggregates
import Columnar.Proofs.Operators

namespace Columnar

namespace Frame

variable {names : List String} {f g : Frame}

def Found (f : Frame) (c d : Column) : Prop := c.height = f.height ∧ c.name = d.name ∧ c.Alike d

theorem column_found (hf : f.Rectangular) (h : Offers names f g) {n : String} (hn : n ∈ names) :
    Follows (Found f) (f.column n) (g.column n) := by
  refine (h.column hn).mono fun c d hc hd hcd => ?_
  rw [column_eq_ok] at hc hd
  exact ⟨hf.height hc, (name_of_column? hc).trans (name_of_column? hd).symm, hcd⟩

theorem columns_found (hf : f.Rectangular) (h : Offers names f g) {ns : List String}
    (hns : ∀ n ∈ ns, n ∈ names) : Follows (List.Forall₂ (Found f)) (ns.mapM f.column) (ns.mapM g.column) :=
  .mapM (List.forall₂_same.2 fun n hn => column_found hf h (hns n hn))

theorem heights_of_found {cs ds : List Column} (h : List.Forall₂ (Found f) cs ds) :
    ∀ c ∈ cs, c.height = f.height := fun c hc => by
  obtain ⟨_, _, hcd⟩ := exists_right h c hc
  exact hcd.1

theorem groups_of_found (host : Host) {cs ds : List Column} (h : List.Forall₂ (Found f) cs ds) :
    Grouping.ofKeys host cs = Grouping.ofKeys host ds :=
  Grouping.ofKeys_congr host (h.imp fun _ _ hcd => hcd.2.2) (heights_of_found h)

theorem gather_found {cs ds : List Column} (h : List.Forall₂ (Found f) cs ds) (rows : Array Nat) :
    List.Forall₂ (fun c d => c.name = d.name ∧ c.Alike d) (cs.map (·.gather rows)) (ds.map (·.gather rows)) := by
  rw [List.forall₂_map_left_iff, List.forall₂_map_right_iff]
  exact h.imp fun c d hcd => ⟨hcd.2.1, hcd.2.2.take _⟩

theorem pivotCells_congr (rows combos : Grouping) {p p' c c' : Column} (hp : p.Alike p') (hc : c.Alike c') :
    pivotCells rows combos p c = pivotCells rows combos p' c' := by
  simp only [pivotCells, hc.float?]
  congr 1
  funext ⟨first, combo⟩
  rcases hp.value? first with ⟨h, h'⟩ | ⟨v, w, h, h', hvw⟩
  · simp only [h, h', Option.map_none]
  · have scalar : v.scalar = w.scalar := by rw [← Value.scalar_reading, hvw, Value.scalar_reading]
    simp only [h, h', Option.map_some, scalar]

theorem pivotColumn_sound {height : Nat} {cells : List (String × Nat × Option Float)} {labels : List String}
    {d : Column} (h : d ∈ labels.map (pivotColumn height cells)) : d.Sound := by
  obtain ⟨label, -, rfl⟩ := List.mem_map.1 h
  exact Column.sound_of_dtype nofun

theorem pivot_built (host : Host) (hf : f.Rectangular) {index : List String} {columns values : String}
    (h : Offers (index ++ [columns, values]) f g) (op : Aggregation) :
    Follows Built (f.pivot host index columns values op) (g.pivot host index columns values op) := by
  unfold pivot
  split
  · exact .error
  · refine (columns_found hf h fun n hn => by simp [hn]).bind fun ks ks' hks => ?_
    refine (column_found hf h (by simp)).bind fun p p' hp => ?_
    refine (column_found hf h (by simp)).bind fun v v' hv => ?_
    have all : List.Forall₂ (Found f) (ks ++ [p]) (ks' ++ [p']) := List.rel_append hks (.cons hp .nil)
    rw [← groups_of_found host hks, ← groups_of_found host all]
    refine (Grouping.aggregate_alike hv.2.2 _ host op).bind fun c c' hc => ?_
    rw [← pivotCells_congr _ _ hp.2.2 hc]
    refine ofColumns_built (List.rel_append (gather_found hks _) ?_)
    exact List.forall₂_same.2 fun d hd => ⟨rfl, .refl (pivotColumn_sound hd)⟩

theorem melt_built (hf : f.Rectangular) {ids values : List String} {labelName valueName : String}
    (h : Offers (ids ++ f.meltedColumns ids values) f g)
    (same : f.meltedColumns ids values = g.meltedColumns ids values) :
    Follows Built (f.melt ids values labelName valueName) (g.melt ids values labelName valueName) := by
  simp only [melt, ← same]
  refine (columns_found hf h fun n hn => by simp [hn]).bind fun cs cs' hcs => ?_
  have numeric : cs.all (·.dtype.isNumeric) = cs'.all (·.dtype.isNumeric) := by
    induction hcs with
    | nil => rfl
    | cons hc _ ih => rw [List.all_cons, List.all_cons, hc.2.2.dtype, ih]
  rw [← numeric, ← h.height]
  generalize (if cs.all (·.dtype.isNumeric) then DType.float64 else .string) = target
  have ids' : Follows (List.Forall₂ fun c d : Column => c.name = d.name ∧ c.Alike d)
      (ids.mapM fun name => (·.take (f.meltedColumns ids values |>.flatMap fun _ =>
        (List.range f.height).map some).toArray) <$> f.column name)
      (ids.mapM fun name => (·.take (f.meltedColumns ids values |>.flatMap fun _ =>
        (List.range f.height).map some).toArray) <$> g.column name) :=
    .mapM (List.forall₂_same.2 fun n hn => (column_found hf h (by simp [hn])).map fun c d hcd =>
      ⟨hcd.2.1, hcd.2.2.take _⟩)
  refine ids'.bind fun ks ks' hks => ofColumns_built (List.rel_append hks (.cons ?_ (.cons ?_ .nil)))
  · exact ⟨rfl, .refl (Column.sound_of_dtype nofun)⟩
  · cases hcs with
    | nil => exact ⟨rfl, .refl (Column.sound_of_dtype nofun)⟩
    | cons hc hcs =>
      refine ⟨rfl, Column.Alike.rename (Column.Alike.stackOnto (hc.2.2.cast target) ?_) _ _⟩
      rw [List.forall₂_map_left_iff, List.forall₂_map_right_iff]
      exact hcs.imp fun c d hcd => hcd.2.2.cast target

end Frame

end Columnar
