import Columnar.Proofs.Rejoining

namespace Columnar.Join

section

variable {kind : JoinKind} {agree : α → β → Bool} {ls : List α} {rs : List β}

theorem nestedLoop_map (f : γ → α) (g : δ → β) (ls : List γ) (rs : List δ) :
    nestedLoop kind agree (ls.map f) (rs.map g) =
      (nestedLoop kind (fun a b => agree (f a) (g b)) ls rs).map fun p => (p.1.map f, p.2.map g) := by
  have pairs (a : γ) : pairsOf kind agree (rs.map g) (f a) =
      (pairsOf kind (fun a b => agree (f a) (g b)) rs a).map fun p => (p.1.map f, p.2.map g) := by
    simp only [pairsOf, List.filter_map, List.isEmpty_map]
    change (if kind.keepsLeft && (rs.filter fun b => agree (f a) (g b)).isEmpty then _ else _) = _
    split
    · rfl
    · simp [Function.comp_def]
  have rest : alone agree (ls.map f) (rs.map g) =
      (alone (fun a b => agree (f a) (g b)) ls rs).map fun p => (p.1.map f, p.2.map g) := by
    simp [alone, List.filter_map, Function.comp_def, List.any_map]
  rw [nestedLoop, nestedLoop, List.map_append, List.flatMap_map, List.map_flatMap]
  congr 1
  · exact List.flatMap_congr fun a _ => pairs a
  · cases kind.keepsRight <;> simp [rest]

theorem filter_eq_of_all {p : α → Bool} (h : ∀ a ∈ ls, p a) : ls.filter p = ls := List.filter_eq_self.2 h

theorem nestedLoop_filter_left {p : α → Bool} (h : kind.keepsRight = false ∨ ∀ a ∈ ls, p a) :
    nestedLoop kind agree (ls.filter p) rs = (nestedLoop kind agree ls rs).filter (·.1.all p) := by
  rcases h with h | h
  · simp only [nestedLoop, h, Bool.false_eq_true, ↓reduceIte, List.append_nil]
    induction ls with
    | nil => rfl
    | cons a ls ih =>
      have mine : ∀ q ∈ pairsOf kind agree rs a, q.1 = some a := fun q hq => by
        simp only [pairsOf] at hq
        split at hq
        · rw [List.mem_singleton.1 hq]
        · obtain ⟨_, _, rfl⟩ := List.mem_map.1 hq
          rfl
      rw [List.flatMap_cons, List.filter_append]
      by_cases hp : p a
      · rw [List.filter_cons_of_pos hp, List.flatMap_cons, ih]
        congr 1
        exact (List.filter_eq_self.2 fun q hq => by simp [mine q hq, hp]).symm
      · have none : (pairsOf kind agree rs a).filter (·.1.all p) = [] :=
          List.filter_eq_nil_iff.2 fun q hq => by simp [mine q hq, hp]
        rw [List.filter_cons_of_neg hp, none, List.nil_append, ih]
  · rw [filter_eq_of_all h]
    refine (List.filter_eq_self.2 fun q hq => ?_).symm
    have left := (mem_nestedLoop hq).1
    cases hq1 : q.1 with
    | none => rfl
    | some a => exact h a (left a (by rw [hq1]; rfl))

theorem nestedLoop_filter_right {p : β → Bool} (h : kind.keepsLeft = false ∨ ∀ b ∈ rs, p b) :
    nestedLoop kind agree ls (rs.filter p) = (nestedLoop kind agree ls rs).filter (·.2.all p) := by
  rcases h with h | h
  · have pairs (a : α) : pairsOf kind agree (rs.filter p) a = (pairsOf kind agree rs a).filter (·.2.all p) := by
      simp only [pairsOf, h, Bool.false_and, Bool.false_eq_true, ↓reduceIte, List.filter_map, List.filter_filter]
      congr 1
      exact List.filter_congr fun b _ => by simp [Bool.and_comm]
    have rest : alone agree ls (rs.filter p) = (alone agree ls rs).filter (·.2.all p) := by
      simp only [alone, List.filter_map, List.filter_filter]
      congr 1
      exact List.filter_congr fun b _ => by simp [Bool.and_comm]
    rw [nestedLoop, nestedLoop, List.filter_append, List.filter_flatMap]
    congr 1
    · exact List.flatMap_congr fun a _ => pairs a
    · cases kind.keepsRight <;> simp [rest]
  · rw [filter_eq_of_all h]
    refine (List.filter_eq_self.2 fun q hq => ?_).symm
    have right := (mem_nestedLoop hq).2
    cases hq2 : q.2 with
    | none => rfl
    | some b => exact h b (right b (by rw [hq2]; rfl))

theorem nestedLoop_congr (agree' : α → β → Bool) (h : ∀ a ∈ ls, ∀ b ∈ rs, agree a b = agree' a b) :
    nestedLoop kind agree ls rs = nestedLoop kind agree' ls rs := by
  have pairs : ∀ a ∈ ls, pairsOf kind agree rs a = pairsOf kind agree' rs a := fun a ha => by
    rw [pairsOf, pairsOf, List.filter_congr (h a ha)]
  have rest : alone agree ls rs = alone agree' ls rs := by
    rw [alone, alone]
    congr 1
    refine List.filter_congr fun b hb => ?_
    congr 1
    rw [Bool.eq_iff_iff, List.any_eq_true, List.any_eq_true]
    exact exists_congr fun a => and_congr_right fun ha => by rw [h a ha b hb]
  rw [nestedLoop, nestedLoop, List.flatMap_congr pairs, rest]

end

theorem rowPairs_eq_nestedLoop {host : Host} (merge : host.autoSortMerge = false) {l r : Frame}
    (hl : l.Rectangular) (hr : r.Rectangular) {s : JoinSpec} (valid : s.validate = .ok ()) {k : Keys}
    (hk : keys l r s = .ok k) :
    rowPairs host s k l.height r.height =
      nestedLoop s.kind k.agree (List.range l.height) (List.range r.height) := by
  by_cases kind : s.kind = .cross
  · have agree : k.agree = fun _ _ => true := by
      have none : s.leftOn = [] := by
        unfold JoinSpec.validate at valid
        rw [if_pos kind] at valid
        split at valid
        next h => exact List.isEmpty_iff.1 (Bool.and_eq_true _ _ ▸ h).1
        · cases valid
      simp only [keys, none, List.zip_nil_left, List.mapM_nil] at hk
      cases hk
      rfl
    rw [rowPairs, Keys.strategy, if_pos kind, agree, kind]
    exact crossPairs_eq_nestedLoop _ _
  · rw [rowPairs, Keys.strategy, if_neg kind, merge]
    exact hashPairs_eq_nestedLoop host (paired hl hr hk (validate_eq_ok valid kind)) s.kind

variable {kl kr : List Nat} {l l' r r' : Frame} {s : JoinSpec}

structure Keys.Picks (kl kr : List Nat) (k k' : Keys) : Prop where
  left : List.Forall₂ (Column.Picks kl) k.left k'.left
  right : List.Forall₂ (Column.Picks kr) k.right k'.right

theorem column_picks {rows : List Nat} {f f' : Frame} (h : Frame.Selects rows f f') (n : String) :
    Follows (Column.Picks rows) (f.column n) (f'.column n) := by
  intro c hc
  have found := h.column? n
  rw [Frame.column_eq_ok.1 hc] at found
  cases hd : f'.column? n with
  | none => rw [hd] at found; cases found
  | some d =>
    rw [hd] at found
    cases found with
    | some hcd => exact ⟨d, Frame.column_eq_ok.2 hd, hcd.toPicks⟩

theorem keys_picks (hl : Frame.Selects kl l l') (hr : Frame.Selects kr r r') :
    Follows (Keys.Picks kl kr) (keys l r s) (keys l' r' s) := by
  refine (keys_follows fun a b _ => ?_).mono fun _ _ _ _ h => ⟨h.1, h.2⟩
  refine (column_picks hl a).bind fun _ _ ha => (column_picks hr b).bind fun _ _ hb => ?_
  exact comparable_follows ha hb ⟨ha.dtype.symm, hb.dtype.symm⟩ ⟨ha.cast _, hb.cast _⟩

theorem Keys.Picks.agree {k k' : Keys} (h : k.Picks kl kr k') {i j a b : Nat} (hi : kl[i]? = some a)
    (hj : kr[j]? = some b) : k'.agree i j = k.agree a b := by
  obtain ⟨left, right⟩ := h
  rw [Keys.agree, Keys.agree]
  generalize k.left = as at left ⊢
  generalize k'.left = as' at left ⊢
  generalize k.right = bs at right ⊢
  generalize k'.right = bs' at right ⊢
  induction left generalizing bs bs' with
  | nil => rfl
  | cons ha _ ih =>
    cases right with
    | nil => rfl
    | cons hb hbs =>
      rw [List.zip_cons_cons, List.zip_cons_cons, List.all_cons, List.all_cons, ih _ _ hbs]
      simp only [Column.joinEq_eq, ha.reads, hb.reads, hi, hj, Option.bind_some]

def lift (kl kr : List Nat) (p : RowPair) : RowPair := (p.1.map (kl.getD · 0), p.2.map (kr.getD · 0))

theorem getElem?_of_lt {ks : List Nat} {i : Nat} (h : i < ks.length) : ks[i]? = some (ks.getD i 0) := by
  rw [List.getD_eq_getElem?_getD, List.getElem?_eq_getElem h, Option.getD_some]

theorem range_map_getD (ks : List Nat) : (List.range ks.length).map (ks.getD · 0) = ks := by
  refine List.ext_getElem (by simp) fun i hi hi' => ?_
  rw [List.getElem_map, List.getElem_range, List.getD_eq_getElem?_getD, List.getElem?_eq_getElem hi',
    Option.getD_some]

/-- The pairs of picked rows are the pairs of the rows that they come from. -/
theorem nestedLoop_picks {k k' : Keys} (h : k.Picks kl kr k') (kind : JoinKind) :
    nestedLoop kind k.agree kl kr =
      (nestedLoop kind k'.agree (List.range kl.length) (List.range kr.length)).map (lift kl kr) := by
  rw [nestedLoop_congr (fun i j => k.agree (kl.getD i 0) (kr.getD j 0)) fun i hi j hj =>
    h.agree (getElem?_of_lt (List.mem_range.1 hi)) (getElem?_of_lt (List.mem_range.1 hj))]
  conv_lhs => rw [← range_map_getD kl, ← range_map_getD kr]
  exact nestedLoop_map ..

theorem column?_select {rows : List Nat} {f f' : Frame} (h : Frame.Selects rows f f') {n : String}
    {c : Column} (hc : f.column? n = some c) : ∃ d, f'.column? n = some d ∧ c.Picks rows d := by
  obtain ⟨d, hd, hcd⟩ := column_picks h n c (Frame.column_eq_ok.2 hc)
  exact ⟨d, Frame.column_eq_ok.1 hd, hcd⟩

theorem select_value (hl : Frame.Selects kl l l') (hr : Frame.Selects kr r r') {c : JoinColumn} {t : DType}
    (h : some t = typeOf l r c) :
    some t = typeOf l' r' c ∧ ∀ p : RowPair, (∀ i ∈ p.1, i < kl.length) → (∀ j ∈ p.2, j < kr.length) →
      valueAt l' r' c p = valueAt l r c (lift kl kr p) := by
  have row {ks : List Nat} {i : Nat} (hi : i < ks.length) {β : Type} (f : Nat → Option β) :
      ks[i]?.bind f = f (ks.getD i 0) := by rw [getElem?_of_lt hi, Option.bind_some]
  obtain ⟨side, source, name, fallback⟩ := c
  cases side with
  | right =>
    obtain ⟨a, ha, rfl⟩ := Option.map_eq_some_iff.1 h.symm
    obtain ⟨b, hb, hab⟩ := column?_select hr ha
    refine ⟨by simp only [typeOf, hb, Option.map_some, hab.dtype], fun (i, j) _ hj => ?_⟩
    cases j with
    | none => simp [valueAt, lift]
    | some j => simp [valueAt, lift, ha, hb, hab.reads, row (hj j rfl)]
  | left =>
    cases fallback with
    | none =>
      obtain ⟨a, ha, rfl⟩ := Option.map_eq_some_iff.1 h.symm
      obtain ⟨b, hb, hab⟩ := column?_select hl ha
      refine ⟨by simp only [typeOf, hb, Option.map_some, hab.dtype], fun (i, j) hi _ => ?_⟩
      cases i with
      | none => simp [valueAt, lift]
      | some i => simp [valueAt, lift, ha, hb, hab.reads, row (hi i rfl)]
    | some key =>
      simp only [typeOf] at h
      obtain ⟨a, ha, h⟩ := Option.bind_eq_some_iff.1 h.symm
      obtain ⟨c, hc, h⟩ := Option.bind_eq_some_iff.1 h
      obtain ⟨b, hb, hab⟩ := column?_select hl ha
      obtain ⟨d, hd, hcd⟩ := column?_select hr hc
      cases h
      refine ⟨by simp [typeOf, hb, hd, hab.dtype, hcd.dtype], fun (i, j) hi hj => ?_⟩
      cases i with
      | some i => simp [valueAt, lift, ha, hb, hc, hd, hab.dtype, hcd.dtype, (hab.cast _).reads, row (hi i rfl)]
      | none =>
        cases j with
        | none => simp [valueAt, lift, ha, hb, hc, hd]
        | some j => simp [valueAt, lift, ha, hb, hc, hd, hab.dtype, hcd.dtype, (hcd.cast _).reads, row (hj j rfl)]

theorem Holds.picks (left : Frame.Selects kl l l') (right : Frame.Selects kr r r') {ps qs : List RowPair}
    (within : Within kl.length kr.length ps) {rows : List Nat} (length : ps.length = rows.length)
    (pairs : ∀ t : Nat, ps[t]?.map (lift kl kr) = rows[t]?.bind (qs[·]?)) {c : JoinColumn} {a b : Column}
    (ha : Holds l r qs c a) (hb : Holds l' r' ps c b) : a.Picks rows b := by
  obtain ⟨types, values⟩ := select_value left right ha.dtype
  refine ⟨Option.some.inj (hb.dtype.trans types.symm), hb.height.trans length, fun t => ?_⟩
  calc b.reads t
    _ = ps[t]?.bind (valueAt l' r' c) := hb.reads t
    _ = ps[t]?.bind fun p => valueAt l r c (lift kl kr p) := Option.bind_congr fun p hp => by
      obtain ⟨hi, hj⟩ := within p (List.mem_of_getElem? hp)
      exact values p hi hj
    _ = (rows[t]?.bind (qs[·]?)).bind (valueAt l r c) := by rw [← pairs, Option.bind_map, Function.comp_def]
    _ = rows[t]?.bind a.reads := by rw [Option.bind_assoc, funext ha.reads]

/-- Picked rows of both sides join to rows of the join, if the pairs that they make are pairs of it. -/
theorem select_joined {host : Host} (merge : host.autoSortMerge = false) (hl : l.Sane) (hr : r.Sane)
    (hl' : l'.Sane) (hr' : r'.Sane) (left : Frame.Selects kl l l') (right : Frame.Selects kr r r')
    {out : Frame} {k : Keys} (hk : keys l r s = .ok k) (h : joined host l r s = .ok out)
    (wide : s.layout l.names r.names ≠ []) {rows : List Nat} (fewer : rows.length ≤ out.height)
    (pairs : (nestedLoop s.kind k.agree kl kr).map some =
      rows.map fun i => (nestedLoop s.kind k.agree (List.range l.height) (List.range r.height))[i]?) :
    ∃ out', joined host l' r' s = .ok out' ∧ Frame.Selects rows out out' := by
  have sane := joined_sane hl hr h
  obtain ⟨valid, k₁, hk₁, h⟩ := joined_eq_ok.1 h
  obtain rfl : k = k₁ := by rw [hk] at hk₁; injection hk₁
  obtain ⟨k', hk', picks⟩ := keys_picks left right k hk
  rw [rowPairs_eq_nestedLoop merge hl.toRectangular hr.toRectangular valid hk] at h
  have holds := assemble_holds hl.toRectangular (within_nestedLoop _ _ _ _) h
  have within := within_nestedLoop s.kind k'.agree kl.length kr.length
  rw [nestedLoop_picks picks, List.map_map] at pairs
  have length : (nestedLoop s.kind k'.agree (List.range kl.length) (List.range kr.length)).length =
      rows.length := by simpa using congrArg List.length pairs
  have places (t : Nat) : (nestedLoop s.kind k'.agree (List.range kl.length) (List.range kr.length))[t]?.map
      (lift kl kr) = rows[t]?.bind
        ((nestedLoop s.kind k.agree (List.range l.height) (List.range r.height))[·]?) := by
    have place := congrArg (·[t]?.bind id) pairs
    rw [Option.map_eq_bind]
    simpa [List.getElem?_map, Option.bind_map, Function.comp_def] using place
  have outWide : out.columns ≠ [] := fun none => by
    rw [none, List.forall₂_nil_right_iff] at holds
    exact wide holds
  have pairs' : rowPairs host s k' l'.height r'.height =
      nestedLoop s.kind k'.agree (List.range kl.length) (List.range kr.length) := by
    rw [rowPairs_eq_nestedLoop merge hl'.toRectangular hr'.toRectangular valid hk', left.height, right.height]
  have within' : Within l'.height r'.height
      (nestedLoop s.kind k'.agree (List.range kl.length) (List.range kr.length)) := by
    rwa [left.height, right.height]
  have named : ∀ a b, (a, b) ∈ s.leftOn.zip s.rightOn → a ∈ l'.names ∧ b ∈ r'.names :=
    (keys_eq_ok hk').1
  obtain ⟨out', hout'⟩ := assemble_ok hl'.toRectangular within' named
    (length ▸ Nat.le_trans fewer (sane.limit outWide))
  refine ⟨out', joined_eq_ok.2 ⟨valid, k', hk', pairs'.symm ▸ hout'⟩, ?_, ?_⟩
  · rw [← length]
    refine height_assemble hl'.toRectangular within' hout' ?_
    rwa [left.names, right.names]
  · have holds' := assemble_holds hl'.toRectangular within' hout'
    have outSane := joined_sane hl' hr' (joined_eq_ok.2 ⟨valid, k', hk', pairs'.symm ▸ hout'⟩)
    rw [left.names, right.names] at holds'
    exact forall₂_common holds holds' fun c a _ b hb hac hbc => ⟨hbc.name.trans hac.name.symm,
      Holds.picks left right within length places hac hbc, fun _ => outSane.sound b hb⟩

end Columnar.Join
