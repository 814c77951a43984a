import Columnar.Proofs.Layouts
import Columnar.Proofs.Requests
import Columnar.Proofs.Rejoining

namespace Columnar

namespace Frame

/-- The third frame holds the pairs of rows of the first two, those of one left row behind those of the one before. -/
structure Product (l r out : Frame) : Prop where
  height : out.height = l.height * r.height
  row : ∀ i < l.height, ∀ j < r.height, out.row (i * r.height + j) = l.row i ++ r.row j

def entry (f : Frame) (i : Nat) (name : String) : Scalar :=
  (((f.column? name).bind (·.reads i)).map (·.scalar)).getD .null

theorem Rectangular.row_eq {f : Frame} (hf : f.Rectangular) (i : Nat) : f.row i = f.names.map (f.entry i) := by
  rw [row, Frame.names, List.map_map]
  refine List.map_congr_left fun c hc => ?_
  rw [Function.comp_apply, entry, hf.column? hc, Option.bind_some, Column.scalar_eq]

end Frame

namespace Join

theorem length_crossPairs (m n : Nat) : (crossPairs m n).length = m * n := by
  simp [crossPairs, List.length_flatMap]

theorem getElem?_crossPairs {m n i j : Nat} (hi : i < m) (hj : j < n) :
    (crossPairs m n)[i * n + j]? = some (some i, some j) := by
  rw [crossPairs, getElem?_blocks _ (Nat.zero_lt_of_lt hj), mul_add_div_of_lt hj, List.getElem?_range hi,
    Nat.mul_add_mod_of_lt hj]
  rfl

theorem within_crossPairs (m n : Nat) : Within m n (crossPairs m n) :=
  crossPairs_eq_nestedLoop m n ▸ within_nestedLoop .cross _ m n

variable {l r out : Frame} {suffix : String}

theorem run_cross (host : Host) (l r : Frame) (suffix : String) : run host l r ⟨.cross, [], [], suffix⟩ =
    (JoinStrategy.cross, ·) <$> assemble l r ⟨.cross, [], [], suffix⟩ (crossPairs l.height r.height) := by
  refine (run_eq host l r _).trans ?_
  change (assemble l r ⟨.cross, [], [], suffix⟩ (crossPairs l.height r.height) >>= fun out =>
    .ok (JoinStrategy.cross, out)) = _
  cases assemble l r ⟨.cross, [], [], suffix⟩ (crossPairs l.height r.height) <;> rfl

theorem sources_crossed (suffix : String) (left right : List String) :
    (JoinColumn.rightColumns [] (JoinColumn.effectiveSuffix suffix) left right).map (·.source) = right :=
  (JoinColumn.sources_rightColumns ..).trans (List.filter_eq_self.2 fun _ _ => rfl)

theorem layout_crossed_eq_nil {left right : List String}
    (h : JoinColumn.layout left right [] [] .cross suffix = []) : left = [] ∧ right = [] := by
  obtain ⟨lefts, rights⟩ := List.append_eq_nil_iff.1 h
  refine ⟨List.map_eq_nil_iff.1 lefts, ?_⟩
  exact (sources_crossed suffix left right).symm.trans (congrArg (·.map (·.source)) rights)

theorem row_of_crossed (hl : l.Rectangular) (hr : r.Rectangular) {pairs : List RowPair} {cs : List Column}
    (h : List.Forall₂ (Holds l r pairs) (JoinColumn.layout l.names r.names [] [] .cross suffix) cs) {k i j : Nat}
    (hk : pairs[k]? = some (some i, some j)) : cs.map (·.scalar k) = l.row i ++ r.row j := by
  have cells : cs.map (·.scalar k) = (JoinColumn.layout l.names r.names [] [] .cross suffix).map fun c =>
      ((valueAt l r c (some i, some j)).map (·.scalar)).getD .null :=
    (map_eq_map h fun c d hd => by rw [Column.scalar_eq, hd.reads, hk, Option.bind_some]).symm
  rw [cells, JoinColumn.layout, List.map_append, hl.row_eq, hr.row_eq]
  congr 1
  · rw [JoinColumn.leftColumns, List.map_map]
    exact List.map_congr_left fun c _ => rfl
  · refine Eq.trans (List.map_congr_left fun c hc => ?_)
      ((List.map_map ..).symm.trans (congrArg _ (sources_crossed suffix l.names r.names)))
    obtain ⟨side, source, name, fallback⟩ := c
    obtain rfl : side = .right := (JoinColumn.mem_rightColumns hc).1
    rfl

theorem height_assemble_of_no_columns {s : JoinSpec} {pairs : List RowPair} (h : assemble l r s pairs = .ok out)
    (none : s.layout l.names r.names = []) : out.height = 0 := by
  rw [assemble, none] at h
  obtain ⟨columns, hcolumns, h⟩ := bind_eq_ok.1 h
  obtain rfl := pure_eq_ok.1 hcolumns
  obtain ⟨rfl, -⟩ := Frame.ofColumns_eq_ok.1 h
  rfl

/-- A cross join gives the product of two frames whose rows fit a frame, if one of them has a column or there are no
pairs at all. -/
theorem run_cross_product (host : Host) (hl : l.Rectangular) (hr : r.Rectangular)
    (limit : l.height * r.height ≤ Frame.maxRows)
    (grounded : l.columns = [] → r.columns = [] → l.height * r.height = 0) (suffix : String) :
    ∃ out, run host l r ⟨.cross, [], [], suffix⟩ = .ok (.cross, out) ∧ l.Product r out := by
  have within := within_crossPairs l.height r.height
  rw [← length_crossPairs] at limit
  obtain ⟨out, hout⟩ := @assemble_ok l r hl _ within ⟨.cross, [], [], suffix⟩ nofun limit
  refine ⟨out, (run_cross ..).trans (congrArg _ hout), ?_, fun i hi j hj => ?_⟩
  · by_cases wide : JoinColumn.layout l.names r.names [] [] .cross suffix = []
    · obtain ⟨left, right⟩ := layout_crossed_eq_nil wide
      rw [grounded (List.map_eq_nil_iff.1 left) (List.map_eq_nil_iff.1 right)]
      exact height_assemble_of_no_columns hout wide
    · exact (height_assemble hl within hout wide).trans (length_crossPairs ..)
  · exact row_of_crossed hl hr (assemble_holds hl within hout) (getElem?_crossPairs hi hj)

def bareRows : Frame := ⟨[], 3⟩

theorem rectangular_bareRows : bareRows.Rectangular := ⟨List.nodup_nil, nofun, fun nonempty => absurd rfl nonempty⟩

def twoColors : Frame := ⟨[⟨"color", .string #[some "red", none]⟩], 2⟩

theorem run_cross_product_bareRows :
    ∃ out, run Host.fourCores twoColors bareRows ⟨.cross, [], [], ""⟩ = .ok (.cross, out) ∧
      twoColors.Product bareRows out :=
  run_cross_product Host.fourCores (Frame.sane_of_plain (by decide) (by decide) (by decide)).toRectangular
    rectangular_bareRows (by decide) (fun none => by cases none) ""

/-- Among themselves they do not. -/
theorem run_cross_onlyBareRows :
    ∃ out, run Host.fourCores bareRows bareRows ⟨.cross, [], [], ""⟩ = .ok (.cross, out) ∧ out.height = 0 ∧
      ¬bareRows.Product bareRows out := by
  refine ⟨Frame.empty, rfl, rfl, fun product => ?_⟩
  cases product.height

end Join

end Columnar
