import Columnar.Proofs.Narrowing
import Columnar.Proofs.Ranks
import Columnar.Proofs.Sorting
import Mathlib.Data.List.Range

namespace Columnar

section Prefix

variable {p : α → Bool} {xs : List α} (mono : xs.Pairwise fun x y => p y → p x)

include mono

theorem takeWhile_eq_filter : xs.takeWhile p = xs.filter p := by
  induction xs with
  | nil => rfl
  | cons x xs ih =>
    obtain ⟨first, rest⟩ := List.pairwise_cons.1 mono
    by_cases hx : p x
    · rw [List.takeWhile_cons_of_pos hx, List.filter_cons_of_pos hx, ih rest]
    · have none : ∀ y ∈ x :: xs, ¬ p y :=
        List.forall_mem_cons.2 ⟨hx, fun y hy h => hx (first y hy h)⟩
      rw [List.takeWhile_cons_of_neg hx, List.filter_eq_nil_iff.2 none]

theorem dropWhile_eq_filter : xs.dropWhile p = xs.filter (!p ·) := by
  induction xs with
  | nil => rfl
  | cons x xs ih =>
    obtain ⟨first, rest⟩ := List.pairwise_cons.1 mono
    by_cases hx : p x
    · rw [List.dropWhile_cons_of_pos hx, List.filter_cons_of_neg (by simp [hx]), ih rest]
    · have all : ∀ y ∈ x :: xs, !p y := by
        refine List.forall_mem_cons.2 ⟨by simpa using hx, fun y hy => ?_⟩
        simpa using fun h => hx (first y hy h)
      rw [List.dropWhile_cons_of_neg hx, List.filter_eq_self.2 all]

end Prefix

namespace Join

section Runs

variable {γ : Type} (cmp : γ → γ → Ordering) (f g : Nat → γ)

def Ascending (rows : List Nat) : Prop := rows.Pairwise fun a b => (cmp (f a) (f b)).isLE

def matching (ls rs : List Nat) : List (Nat × Nat) :=
  ls.flatMap fun l => (rs.filter fun r => cmp (f l) (g r) == .eq).map (l, ·)

variable {cmp f g} [Std.TransCmp cmp]

open Std

theorem Ascending.head {a b : Nat} {rows : List Nat} (h : Ascending cmp f (a :: rows)) (hb : b ∈ a :: rows) :
    (cmp (f a) (f b)).isLE := by
  rcases List.mem_cons.1 hb with rfl | hb
  · exact ReflCmp.isLE_rfl
  · exact (List.pairwise_cons.1 h).1 b hb

theorem Ascending.same_head {a : Nat} {rows : List Nat} (h : Ascending cmp f (a :: rows)) :
    rows.Pairwise fun b c => cmp (f a) (f c) == .eq → cmp (f a) (f b) == .eq := by
  refine (List.pairwise_cons.1 h).2.imp_of_mem fun {b c} hb _ hbc same => ?_
  have back : (cmp (f b) (f a)).isLE := by
    rw [TransCmp.congr_right (beq_iff_eq.1 same)]
    exact hbc
  exact beq_iff_eq.2 (OrientedCmp.isLE_antisymm (h.head (List.mem_cons_of_mem a hb)) back)

theorem matching_of_lt {l r : Nat} {ls rs : List Nat} (hr : Ascending cmp g (r :: rs))
    (lt : cmp (f l) (g r) = .lt) : matching cmp f g (l :: ls) (r :: rs) = matching cmp f g ls (r :: rs) := by
  have none : (r :: rs).filter (fun x => cmp (f l) (g x) == .eq) = [] := by
    refine List.filter_eq_nil_iff.2 fun x hx => ?_
    simp [TransCmp.lt_of_lt_of_isLE lt (hr.head hx)]
  rw [matching, List.flatMap_cons, none]
  rfl

theorem matching_of_gt {l r : Nat} {ls rs : List Nat} (hl : Ascending cmp f (l :: ls))
    (gt : cmp (f l) (g r) = .gt) : matching cmp f g (l :: ls) (r :: rs) = matching cmp f g (l :: ls) rs := by
  refine List.flatMap_congr fun a ha => ?_
  have above : cmp (f a) (g r) = .gt := TransCmp.gt_of_isGE_of_gt (OrientedCmp.isGE_iff_isLE.2 (hl.head ha)) gt
  rw [List.filter_cons_of_neg (by simp [above])]

theorem matching_of_eq {l r : Nat} {ls rs : List Nat} (hl : Ascending cmp f (l :: ls))
    (hr : Ascending cmp g (r :: rs)) (eq : cmp (f l) (g r) = .eq) :
    matching cmp f g (l :: ls) (r :: rs) =
      (l :: ls.takeWhile fun a => cmp (f l) (f a) == .eq).flatMap
          (fun a => (r :: rs.takeWhile fun b => cmp (g r) (g b) == .eq).map (a, ·)) ++
        matching cmp f g (ls.dropWhile fun a => cmp (f l) (f a) == .eq)
          (rs.dropWhile fun b => cmp (g r) (g b) == .eq) := by
  have keyed (a b : Nat) (ha : cmp (f l) (f a) = .eq) : cmp (f a) (g b) = cmp (g r) (g b) :=
    (TransCmp.congr_left ha).symm.trans (TransCmp.congr_left eq)
  have split : l :: ls = (l :: ls.takeWhile fun a => cmp (f l) (f a) == .eq) ++
      ls.dropWhile fun a => cmp (f l) (f a) == .eq := by
    rw [List.cons_append, List.takeWhile_append_dropWhile]
  rw [matching, split, List.flatMap_append]
  congr 1
  · refine List.flatMap_congr fun a ha => ?_
    have same : cmp (f l) (f a) = .eq := by
      rw [takeWhile_eq_filter hl.same_head] at ha
      rcases List.mem_cons.1 ha with rfl | ha
      · exact ReflCmp.compare_self
      · exact beq_iff_eq.1 (List.mem_filter.1 ha).2
    have first : cmp (g r) (g r) = .eq := ReflCmp.compare_self
    simp only [keyed a _ same]
    rw [List.filter_cons_of_pos (by simp [first]), takeWhile_eq_filter hr.same_head]
  · refine List.flatMap_congr fun a ha => ?_
    rw [dropWhile_eq_filter hl.same_head] at ha
    rw [dropWhile_eq_filter hr.same_head, List.filter_filter]
    obtain ⟨ha, other⟩ := List.mem_filter.1 ha
    have above : cmp (f a) (g r) = .gt := by
      rw [← TransCmp.congr_right eq]
      have behind := Ordering.isLE_iff_eq_lt_or_eq_eq.1 (hl.head (List.mem_cons_of_mem l ha))
      exact OrientedCmp.gt_of_lt (behind.resolve_right (by simpa using other))
    rw [List.filter_cons_of_neg (by simp [above])]
    congr 1
    refine List.filter_congr fun x _ => ?_
    by_cases hx : cmp (g r) (g x) = .eq
    · simp [← TransCmp.congr_right (b := g r) hx, above]
    · simp [hx]

/-- The walk along two lists in the order of their keys finds the pairs of rows with equal keys. -/
theorem mergeRuns_eq_matching {ls rs : List Nat} (hl : Ascending cmp f ls) (hr : Ascending cmp g rs) :
    mergeRuns (fun l r => cmp (f l) (g r)) (fun a b => cmp (f a) (f b) == .eq)
      (fun a b => cmp (g a) (g b) == .eq) ls rs = matching cmp f g ls rs := by
  -- Each step leaves behind a row without a partner, or a whole run on both sides.
  fun_induction mergeRuns (fun l r => cmp (f l) (g r)) (fun a b => cmp (f a) (f b) == .eq)
      (fun a b => cmp (g a) (g b) == .eq) ls rs with
  | case1 l ls r rs lt ih => rw [ih hl.of_cons hr, matching_of_lt hr lt]
  | case2 l ls r rs gt ih => rw [ih hl hr.of_cons, matching_of_gt hl gt]
  | case3 l ls r rs eq leftRun rightRun ih =>
    rw [ih (hl.of_cons.sublist (List.dropWhile_sublist _)) (hr.of_cons.sublist (List.dropWhile_sublist _)),
      matching_of_eq hl hr eq]
  | case4 ls rs none =>
    cases ls with
    | nil => rfl
    | cons l ls =>
      cases rs with
      | nil => simp [matching]
      | cons r rs => exact absurd rfl (none l ls r rs rfl)

end Runs

def ranks (columns : List Column) (i : Nat) : List Rank := columns.map (·.rank i)

def orderRanks : List Rank → List Rank → Ordering := List.compareLex Rank.order

instance : Std.TransCmp orderRanks := inferInstanceAs (Std.TransCmp (List.compareLex Rank.order))

theorem orderKeys_eq_orderRanks {left right : List Column}
    (space : List.Forall₂ (fun a b => sameSpace a.dtype b.dtype) left right) (l r : Nat) :
    orderKeys left l right r = orderRanks (ranks left l) (ranks right r) := by
  induction space with
  | nil => rfl
  | @cons a b as bs h _ ih =>
    rw [orderKeys, ih, Column.orderRows_eq_rank h]
    exact List.compareLex_cons_cons.symm

theorem sameSpace_refl (columns : List Column) :
    List.Forall₂ (fun a b => sameSpace a.dtype b.dtype) columns columns :=
  List.forall₂_same.2 fun _ _ => by simp [sameSpace]

theorem order_ascending (columns : List Column) (i j : Nat) :
    SortKey.order i j (columns.map (⟨·, false⟩)) = orderKeys columns i columns j := by
  induction columns with
  | nil => rfl
  | cons c cs ih =>
    have first : SortKey.orderRows ⟨c, false⟩ i j = c.orderRows i c j := by
      unfold SortKey.orderRows SortKey.orderValues Column.orderRows
      cases c.value? i <;> cases c.value? j <;> rfl
    rw [List.map_cons, SortKey.order, ih, first, orderKeys]

/-- No key of the two rows holds zeros of opposite sign. -/
def Keys.SignsAgree (k : Keys) (l r : Nat) : Prop :=
  ∀ p ∈ k.left.zip k.right, p.1.SignsAgree l p.2 r

instance (k : Keys) (l r : Nat) : Decidable (k.SignsAgree l r) :=
  inferInstanceAs (Decidable (∀ p ∈ k.left.zip k.right, p.1.SignsAgree l p.2 r))

theorem orderKeys_eq_iff {k : Keys} (space : List.Forall₂ (fun a b => sameSpace a.dtype b.dtype) k.left k.right)
    {l r : Nat} (hl : anyNull k.left l = false) (hr : anyNull k.right r = false) :
    orderKeys k.left l k.right r = .eq ↔ k.agree l r ∧ k.SignsAgree l r := by
  obtain ⟨left, right⟩ := k
  simp only at space hl hr
  induction space with
  | nil => simp [orderKeys, Keys.agree, Keys.SignsAgree]
  | @cons a b as bs h _ ih =>
    simp only [anyNull, List.any_cons, Bool.or_eq_false_iff] at hl hr
    simp only [orderKeys, Ordering.then_eq_eq, Column.orderRows_eq_iff h hl.1 hr.1, ih hl.2 hr.2, Keys.agree,
      Keys.SignsAgree, List.zip_cons_cons, List.all_cons, Bool.and_eq_true, List.forall_mem_cons]
    exact and_and_and_comm

theorem ascending_range {c : Column} (h : c.isSorted) :
    Ascending orderRanks (ranks [c]) (List.range c.height) := by
  have order (i j : Nat) : orderRanks (ranks [c] i) (ranks [c] j) = c.orderRows i c j := by
    rw [← orderKeys_eq_orderRanks (sameSpace_refl [c])]
    exact Ordering.then_eq
  let le (i j : Nat) : Prop := (orderRanks (ranks [c] i) (ranks [c] j)).isLE
  have : Trans le le le := ⟨Std.TransCmp.isLE_trans⟩
  refine List.isChain_iff_pairwise.1 ((List.isChain_range le _).2 fun i hi => ?_)
  have next := List.all_eq_true.1 (Bool.and_eq_true _ _ ▸ h).2 i (List.mem_range.2 hi)
  rw [← order] at next
  simpa [le, Ordering.isLE_iff_ne_gt] using next

theorem ascending_argsort (columns : List Column) (n : Nat) :
    Ascending orderRanks (ranks columns) (argsort n (columns.map (⟨·, false⟩))) := by
  refine (SortKey.pairwise_argsort n _).imp fun h => ?_
  rw [order_ascending, orderKeys_eq_orderRanks (sameSpace_refl columns)] at h
  rcases h with before | ⟨alike, -⟩
  · rw [before]
    rfl
  · rw [alike]
    rfl

theorem ascending_sortedRows {columns : List Column} {sorted : Bool}
    (h : sorted → Ascending orderRanks (ranks columns) (List.range (Column.heightOf columns))) :
    Ascending orderRanks (ranks columns) (sortedRows columns sorted) := by
  refine List.Pairwise.filter _ ?_
  cases sorted with
  | true => exact h rfl
  | false => exact ascending_argsort columns _

theorem sortedRows_perm (columns : List Column) (sorted : Bool) :
    (sortedRows columns sorted).Perm
      ((List.range (Column.heightOf columns)).filter (!anyNull columns ·)) := by
  refine List.Perm.filter _ ?_
  cases sorted with
  | true => exact .refl _
  | false => exact List.mergeSort_perm ..

theorem mem_sortedRows {columns : List Column} {sorted : Bool} {i : Nat} :
    i ∈ sortedRows columns sorted ↔ i < Column.heightOf columns ∧ anyNull columns i = false := by
  rw [(sortedRows_perm columns sorted).mem_iff, List.mem_filter, List.mem_range, Bool.not_eq_true']

theorem Keys.ascending {k : Keys} {sorted : Bool} (h : sorted → k.sorted) :
    Ascending orderRanks (ranks k.left) (sortedRows k.left sorted) ∧
      Ascending orderRanks (ranks k.right) (sortedRows k.right sorted) := by
  have presorted (hs : sorted) : Ascending orderRanks (ranks k.left) (List.range (Column.heightOf k.left)) ∧
      Ascending orderRanks (ranks k.right) (List.range (Column.heightOf k.right)) := by
    have hk := h hs
    obtain ⟨left, right⟩ := k
    simp only [Keys.sorted] at hk
    split at hk
    next l r =>
      rw [Bool.and_eq_true] at hk
      exact ⟨ascending_range hk.1, ascending_range hk.2⟩
    · cases hk
  exact ⟨ascending_sortedRows fun hs => (presorted hs).1, ascending_sortedRows fun hs => (presorted hs).2⟩

theorem nestedLoop_inner (agree : α → β → Bool) (ls : List α) (rs : List β) :
    nestedLoop .inner agree ls rs =
      ls.flatMap fun l => (rs.filter (agree l)).map fun r => (some l, some r) := by
  have pairs : pairsOf .inner agree rs = fun l => (rs.filter (agree l)).map fun r => (some l, some r) := by
    funext l
    simp [pairsOf, JoinKind.keepsLeft]
  simp [nestedLoop, pairs, JoinKind.keepsRight]

theorem mergePairs_eq_nestedLoop {k : Keys} {m n : Nat} (hk : k.Paired m n) {sorted : Bool}
    (h : sorted → k.sorted) :
    mergePairs k sorted = nestedLoop .inner (fun l r => orderKeys k.left l k.right r == .eq)
      (sortedRows k.left sorted) (sortedRows k.right sorted) := by
  obtain ⟨hl, hr⟩ := Keys.ascending h
  simp only [mergePairs, orderKeys_eq_orderRanks hk.space, orderKeys_eq_orderRanks (sameSpace_refl k.left),
    orderKeys_eq_orderRanks (sameSpace_refl k.right), mergeRuns_eq_matching hl hr, nestedLoop_inner, matching,
    List.map_flatMap, List.map_map, Function.comp_def]

theorem nestedLoop_perm (agree : α → β → Bool) {ls ls' : List α} {rs rs' : List β} (hl : ls.Perm ls')
    (hr : rs.Perm rs') : (nestedLoop .inner agree ls rs).Perm (nestedLoop .inner agree ls' rs') := by
  rw [nestedLoop_inner, nestedLoop_inner]
  exact hl.flatMap fun l _ => (hr.filter _).map _

theorem nestedLoop_withoutNulls {k : Keys} {m n : Nat} (hk : k.Paired m n) :
    nestedLoop .inner k.agree ((List.range m).filter (!anyNull k.left ·))
        ((List.range n).filter (!anyNull k.right ·)) =
      nestedLoop .inner k.agree (List.range m) (List.range n) := by
  rw [nestedLoop_filter_left (.inl rfl), nestedLoop_filter_right (.inl rfl), List.filter_filter]
  refine List.filter_eq_self.2 fun p hp => ?_
  rw [nestedLoop_inner] at hp
  obtain ⟨l, -, hp⟩ := List.mem_flatMap.1 hp
  obtain ⟨r, hr, rfl⟩ := List.mem_map.1 hp
  obtain ⟨left, right⟩ := hk.not_anyNull_of_agree (List.mem_filter.1 hr).2
  simp [left, right]

section Signs

variable {k : Keys} {m n : Nat} (hk : k.Paired m n)
  (signs : ∀ i < m, ∀ j < n, k.agree i j → k.SignsAgree i j)

include hk signs

theorem mergePairs_eq_agree {sorted : Bool} (h : sorted → k.sorted) :
    mergePairs k sorted =
      nestedLoop .inner k.agree (sortedRows k.left sorted) (sortedRows k.right sorted) := by
  rw [mergePairs_eq_nestedLoop hk h]
  refine nestedLoop_congr _ fun i hi j hj => ?_
  obtain ⟨hi, left⟩ := mem_sortedRows.1 hi
  obtain ⟨hj, right⟩ := mem_sortedRows.1 hj
  rw [hk.heightOf_left] at hi
  rw [hk.heightOf_right] at hj
  rw [Bool.eq_iff_iff, beq_iff_eq, orderKeys_eq_iff hk.space left right]
  exact and_iff_left_of_imp (signs i hi j hj)

theorem mergePairs_eq_hashPairs (host : Host) (h : k.sorted) : mergePairs k true = hashPairs host k .inner := by
  rw [mergePairs_eq_agree hk signs fun _ => h, hashPairs_eq_nestedLoop host hk, ← nestedLoop_withoutNulls hk]
  simp only [sortedRows, hk.heightOf_left, hk.heightOf_right, ↓reduceIte]

theorem mergePairs_perm (host : Host) {sorted : Bool} (h : sorted → k.sorted) :
    (mergePairs k sorted).Perm (hashPairs host k .inner) := by
  have left := sortedRows_perm k.left sorted
  have right := sortedRows_perm k.right sorted
  rw [hk.heightOf_left] at left
  rw [hk.heightOf_right] at right
  rw [mergePairs_eq_agree hk signs h, hashPairs_eq_nestedLoop host hk, ← nestedLoop_withoutNulls hk]
  exact nestedLoop_perm _ left right

end Signs

def rowAt (l r : Frame) (s : JoinSpec) (p : RowPair) : List Scalar :=
  (s.layout l.names r.names).map fun c => ((valueAt l r c p).map (·.scalar)).getD .null

section Assembled

variable {l r f : Frame} {s : JoinSpec} {pairs : List RowPair} (hl : l.Rectangular)
  (within : Within l.height r.height pairs) (h : assemble l r s pairs = .ok f)

include hl within h

theorem schema_assemble :
    f.schema.map (fun c => (c.1, some c.2)) =
      (s.layout l.names r.names).map fun c => (c.name, typeOf l r c) := by
  rw [Frame.schema, List.map_map]
  exact (map_eq_map (assemble_holds hl within h) fun c out hc => by simp [hc.name, hc.dtype]).symm

theorem rows_assemble (nonempty : s.layout l.names r.names ≠ []) :
    (List.range f.height).map f.row = pairs.map (rowAt l r s) := by
  rw [height_assemble hl within h nonempty]
  refine List.ext_getElem (by simp) fun i hi _ => ?_
  rw [List.length_map, List.length_range] at hi
  rw [List.getElem_map, List.getElem_map, List.getElem_range, Frame.row, rowAt]
  refine (map_eq_map (assemble_holds hl within h) fun c out hc => ?_).symm
  rw [Column.scalar_eq, hc.reads, List.getElem?_eq_getElem hi, Option.bind_some]

end Assembled

theorem layout_ne_nil {l r : Frame} {s : JoinSpec} {k : Keys} (found : keys l r s = .ok k)
    (nonempty : s.leftOn.zip s.rightOn ≠ []) : s.layout l.names r.names ≠ [] := by
  obtain ⟨⟨a, b⟩, hab⟩ := List.exists_mem_of_ne_nil _ nonempty
  have named := ((keys_eq_ok found).1 a b hab).1
  intro none
  have left := (List.append_eq_nil_iff.1 none).1
  rw [JoinColumn.leftColumns, List.map_eq_nil_iff] at left
  exact List.not_mem_nil (left ▸ named)

theorem assemble_perm {l r f : Frame} {s : JoinSpec} {k : Keys} (hl : l.Rectangular) (found : keys l r s = .ok k)
    (nonempty : s.leftOn.zip s.rightOn ≠ []) {pairs pairs' : List RowPair} (perm : pairs.Perm pairs')
    (within : Within l.height r.height pairs') (h : assemble l r s pairs = .ok f) :
    ∃ g, assemble l r s pairs' = .ok g ∧ f.schema = g.schema ∧
      ((List.range f.height).map f.row).Perm ((List.range g.height).map g.row) := by
  have wide := layout_ne_nil found nonempty
  have within' : Within l.height r.height pairs := fun p hp => within p (perm.mem_iff.1 hp)
  have height := height_assemble hl within' h wide
  have limit : pairs'.length ≤ Frame.maxRows := by
    rw [← perm.length_eq, ← height]
    refine (capped_assemble h).limit fun none => ?_
    have holds := assemble_holds hl within' h
    rw [none, List.forall₂_nil_right_iff] at holds
    exact wide holds
  obtain ⟨g, hg⟩ := assemble_ok hl within (keys_eq_ok found).1 limit
  refine ⟨g, hg, ?_, ?_⟩
  · have inj : Function.Injective fun c : String × DType => (c.1, some c.2) := fun c d h => by
      simpa [Prod.ext_iff] using h
    refine List.map_injective_iff.2 inj ?_
    rw [schema_assemble hl within' h, schema_assemble hl within hg]
  · rw [rows_assemble hl within' h wide, rows_assemble hl within hg wide]
    exact perm.map _

theorem joined_eq (host : Host) (l r : Frame) (s : JoinSpec) :
    joined host l r s = (do
      s.validate
      let k ← keys l r s
      assemble l r s (rowPairs host s k l.height r.height)) := by
  simp only [joined, run_eq, map_bind, map_pure, bind_pure]

theorem Keys.strategy_eq_sortMerge {k : Keys} {kind : JoinKind} {autoSortMerge : Bool}
    (h : k.strategy kind autoSortMerge = .sortMerge) : kind = .inner ∧ k.sorted := by
  unfold Keys.strategy at h
  split at h
  · cases h
  · split at h
    next merges =>
      simp only [Bool.and_eq_true, decide_eq_true_eq] at merges
      exact ⟨merges.1.2, merges.2⟩
    · cases h

section Agreement

variable (host : Host) {l r : Frame} {s : JoinSpec} {k : Keys} (hl : l.Rectangular) (hr : r.Rectangular)
  (found : keys l r s = .ok k) (signs : ∀ i < l.height, ∀ j < r.height, k.agree i j → k.SignsAgree i j)

include hl hr found signs

theorem joined_of_merges (merges : k.strategy s.kind host.autoSortMerge = .sortMerge) :
    joined host l r s = joined { host with autoSortMerge := false } l r s := by
  obtain ⟨kind, sorted⟩ := Keys.strategy_eq_sortMerge merges
  have hashed : k.strategy .inner false = .hash := rfl
  rw [joined_eq, joined_eq]
  cases valid : s.validate with
  | error e => rfl
  | ok =>
    have hk := paired hl hr found (validate_eq_ok valid (by simp [kind]))
    have pairs : rowPairs host s k l.height r.height =
        rowPairs { host with autoSortMerge := false } s k l.height r.height := by
      rw [rowPairs, rowPairs, merges, kind, hashed]
      exact mergePairs_eq_hashPairs hk signs host sorted
    rw [found]
    exact congrArg (assemble l r s) pairs

theorem sortMerge_perm {f : Frame} (h : sortMerge l r s = .ok f) :
    ∃ g, run { host with autoSortMerge := false } l r s = .ok (.hash, g) ∧ f.schema = g.schema ∧
      ((List.range f.height).map f.row).Perm ((List.range g.height).map g.row) := by
  obtain ⟨⟨⟩, valid, h⟩ := bind_eq_ok.1 h
  by_cases kind : s.kind = .inner
  · simp only [kind, ne_eq, not_true_eq_false, ↓reduceIte, found] at h
    have keyed := validate_eq_ok valid (by simp [kind])
    have hk := paired hl hr found keyed
    have within : Within l.height r.height (hashPairs host k .inner) := by
      rw [hashPairs_eq_nestedLoop host hk]
      exact within_nestedLoop _ _ _ _
    obtain ⟨g, hg, same⟩ := assemble_perm hl found keyed (mergePairs_perm hk signs host id) within h
    refine ⟨g, ?_, same⟩
    simp only [run_eq, valid, found, rowPairs, kind]
    exact bind_eq_ok.2 ⟨(), rfl, bind_eq_ok.2 ⟨k, rfl, bind_eq_ok.2 ⟨g, hg, rfl⟩⟩⟩
  · rw [if_pos kind] at h
    cases h

end Agreement

/-- Where no rows with equal keys hold zeros of opposite sign, a join that merges sorted keys gives the frame of
the join by hash, and a merge of whatever keys gives its rows. -/
theorem merge_agrees_with_hash (host : Host) {l r : Frame} {s : JoinSpec} {k : Keys} (hl : l.Rectangular)
    (hr : r.Rectangular) (found : keys l r s = .ok k)
    (signs : ∀ i < l.height, ∀ j < r.height, k.agree i j → k.SignsAgree i j) :
    (k.strategy s.kind host.autoSortMerge = .sortMerge →
      (·.2) <$> run host l r s = (·.2) <$> run { host with autoSortMerge := false } l r s) ∧
    ∀ f, sortMerge l r s = .ok f →
      ∃ g, run { host with autoSortMerge := false } l r s = .ok (.hash, g) ∧ f.schema = g.schema ∧
        ((List.range f.height).map f.row).Perm ((List.range g.height).map g.row) :=
  ⟨joined_of_merges host hl hr found signs, fun _ => sortMerge_perm host hl hr found signs⟩

def onK : JoinSpec := ⟨.inner, ["k"], ["k"], ""⟩

def risingKeys : Frame :=
  ⟨[⟨"k", .float64 #[some Double.negativeInfinity, some Double.negativeZero, some Double.negativeZero]⟩], 3⟩

def fallingKeys : Frame :=
  ⟨[⟨"k", .float64 #[some Double.negativeZero, none, some Double.negativeInfinity]⟩], 3⟩

theorem merge_agrees_with_hash_oneSign :
    (fun p => (p.1, p.2.height)) <$> run Host.fourCores risingKeys risingKeys onK = .ok (.sortMerge, 5) ∧
    (·.2) <$> run Host.fourCores risingKeys risingKeys onK =
      (·.2) <$> run { Host.fourCores with autoSortMerge := false } risingKeys risingKeys onK ∧
    ∃ f g, sortMerge risingKeys fallingKeys onK = .ok f ∧
      run { Host.fourCores with autoSortMerge := false } risingKeys fallingKeys onK = .ok (.hash, g) ∧
      f.schema = g.schema ∧ ((List.range f.height).map f.row).Perm ((List.range g.height).map g.row) := by
  have rising : risingKeys.Rectangular := ⟨by decide, by decide, by decide⟩
  have falling : fallingKeys.Rectangular := ⟨by decide, by decide, by decide⟩
  refine ⟨by decide +kernel, ?_, ?_⟩
  · refine (merge_agrees_with_hash Host.fourCores rising rising (k := ⟨risingKeys.columns, risingKeys.columns⟩) rfl
      (by decide)).1 ?_
    decide
  · let k : Keys := ⟨risingKeys.columns, fallingKeys.columns⟩
    have found : keys risingKeys fallingKeys onK = .ok k := rfl
    have signs : ∀ i < risingKeys.height, ∀ j < fallingKeys.height, k.agree i j → k.SignsAgree i j := by decide
    have keyed : k.Paired risingKeys.height fallingKeys.height := paired rising falling found (by decide)
    have perm : (mergePairs k k.sorted).Perm (hashPairs Host.fourCores k .inner) :=
      mergePairs_perm keyed signs Host.fourCores id
    rw [hashPairs_eq_nestedLoop _ keyed] at perm
    have merges : sortMerge risingKeys fallingKeys onK =
        assemble risingKeys fallingKeys onK (mergePairs k k.sorted) := rfl
    obtain ⟨f, hf⟩ := assemble_ok rising (fun p hp => within_nestedLoop _ _ _ _ p (perm.mem_iff.1 hp))
      (keys_eq_ok found).1 (perm.length_eq ▸ by decide)
    rw [← merges] at hf
    obtain ⟨g, hg⟩ := (merge_agrees_with_hash Host.fourCores rising falling found signs).2 f hf
    exact ⟨f, g, hf, hg⟩

def negativeZeroKey : Frame := ⟨[⟨"k", .float64 #[some Double.negativeZero]⟩], 1⟩

def zeroKey : Frame := ⟨[⟨"k", .float64 #[some Double.zero]⟩], 1⟩

/-- The two zeros are equal, and yet one of them comes before the other. -/
theorem merge_oppositeZeros :
    negativeZeroKey.Rectangular ∧ zeroKey.Rectangular ∧
      (fun p => (p.1, p.2.height)) <$> run Host.fourCores negativeZeroKey zeroKey onK = .ok (.sortMerge, 0) ∧
      (fun p => (p.1, p.2.height)) <$> run { Host.fourCores with autoSortMerge := false } negativeZeroKey zeroKey onK =
        .ok (.hash, 1) := by
  have left : negativeZeroKey.Rectangular := ⟨by decide, by decide, by decide⟩
  have right : zeroKey.Rectangular := ⟨by decide, by decide, by decide⟩
  refine ⟨left, right, by decide +kernel, ?_⟩
  let k : Keys := ⟨negativeZeroKey.columns, zeroKey.columns⟩
  have pairs : rowPairs { Host.fourCores with autoSortMerge := false } onK k 1 1 = [(some 0, some 0)] :=
    (rowPairs_eq_nestedLoop rfl left right rfl rfl).trans (by decide)
  change (fun p : JoinStrategy × Frame => (p.1, p.2.height)) <$> (do
    let out ← assemble negativeZeroKey zeroKey onK
      (rowPairs { Host.fourCores with autoSortMerge := false } onK k 1 1)
    pure (.hash, out)) = _
  rw [pairs]
  decide +kernel

end Join

end Columnar
