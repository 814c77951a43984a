import Columnar.Proofs.Conjuncts
import Columnar.Proofs.Narrowing
import Columnar.Proofs.Sources

namespace Columnar

namespace JoinColumn

theorem plainSide?_eq_some {layout : List JoinColumn} {n : String} {side : JoinSide}
    (h : plainSide? layout n = some side) :
    ∃ c, layout.find? (·.name == n) = some c ∧ c.side = side ∧ c.source = n ∧ c.fallback = none := by
  obtain ⟨c, hc, h⟩ := Option.bind_eq_some_iff.1 h
  split at h
  next plain =>
    have name : c.name = n := by simpa using List.find?_some hc
    exact ⟨c, hc, Option.some.inj h, plain.1.trans name, Option.isNone_iff_eq_none.1 plain.2⟩
  · cases h

theorem commonSide?_eq_some {layout : List JoinColumn} {ns : List String} {side : JoinSide}
    (h : commonSide? layout ns = some side) : ns ≠ [] ∧ ∀ n ∈ ns, plainSide? layout n = some side := by
  refine ⟨?_, ?_⟩
  · rintro rfl
    cases h
  induction ns generalizing side with
  | nil => nofun
  | cons n ns ih =>
    cases ns with
    | nil => exact List.forall_mem_singleton.2 h
    | cons m ns =>
      obtain ⟨first, hfirst, h⟩ := Option.bind_eq_some_iff.1 h
      obtain ⟨rest, hrest, h⟩ := Option.bind_eq_some_iff.1 h
      split at h
      next same =>
        cases h
        exact List.forall_mem_cons.2 ⟨hfirst, ih (same ▸ hrest)⟩
      · cases h

end JoinColumn

namespace Join

def frameOf (l r : Frame) : JoinSide → Frame
  | .left => l
  | .right => r

def rowOf : JoinSide → RowPair → Option Nat
  | .left, p => p.1
  | .right, p => p.2

variable {l r out : Frame} {pairs : List RowPair} {layout : List JoinColumn} {rows : List Nat}

theorem Holds.find? {columns : List Column} (h : List.Forall₂ (Holds l r pairs) layout columns) {n : String}
    {c : JoinColumn} (hc : layout.find? (·.name == n) = some c) :
    ∃ d, columns.find? (·.name == n) = some d ∧ Holds l r pairs c d := by
  induction h with
  | nil => cases hc
  | @cons c' d' _ _ hcd _ ih =>
    rw [List.find?_cons] at hc ⊢
    rw [hcd.name]
    split at hc
    · cases hc
      exact ⟨d', rfl, hcd⟩
    · exact ih hc

theorem plain_local (hl : l.Sane) (hr : r.Sane) {side : JoinSide}
    (h : List.Forall₂ (Holds l r pairs) layout out.columns) (hrows : rows.map some = pairs.map (rowOf side))
    {n : String} (plain : JoinColumn.plainSide? layout n = some side) :
    ∃ a d, (frameOf l r side).column? n = some a ∧ out.column? n = some d ∧
      Column.Local (frameOf l r side).height rows a d := by
  obtain ⟨⟨cside, source, name, fallback⟩, hc, rfl, rfl, rfl⟩ := JoinColumn.plainSide?_eq_some plain
  obtain ⟨d, hd, holds⟩ := Holds.find? h hc
  have length : rows.length = pairs.length := by simpa using congrArg List.length hrows
  have place (t : Nat) : (rows[t]?).map some = (pairs[t]?).map (rowOf cside) := by
    simpa using congrArg (·[t]?) hrows
  have sane : (frameOf l r cside).Sane := by cases cside <;> assumption
  have source : typeOf l r ⟨cside, source, name, none⟩ =
      ((frameOf l r cside).column? source).map (·.dtype) := by cases cside <;> rfl
  obtain ⟨a, ha, dtype⟩ := Option.map_eq_some_iff.1 (source.symm.trans holds.dtype.symm)
  refine ⟨a, d, ha, hd, sane.height ha, dtype.symm, holds.height.trans length.symm, fun t => ?_⟩
  rw [holds.reads]
  cases ht : rows[t]? with
  | none =>
    have := place t
    rw [ht] at this
    cases hp : pairs[t]? with
    | none => rfl
    | some p => rw [hp] at this; cases this
  | some i =>
    have := place t
    rw [ht] at this
    cases hp : pairs[t]? with
    | none => rw [hp] at this; cases this
    | some p =>
      rw [hp] at this
      have hi : rowOf cside p = some i := (Option.some.inj this).symm
      cases cside with
      | left =>
        have ha : l.column? _ = some a := ha
        have hi : p.1 = some i := hi
        simp [valueAt, ha, hi]
      | right =>
        have ha : r.column? _ = some a := ha
        have hi : p.2 = some i := hi
        simp [valueAt, ha, hi]

theorem plain_mask (hl : l.Sane) (hr : r.Sane) {side : JoinSide}
    (h : List.Forall₂ (Holds l r pairs) layout out.columns) (short : out.height ≤ Frame.maxRows)
    (height : out.height = pairs.length) (within : Within l.height r.height pairs)
    (hrows : rows.map some = pairs.map (rowOf side)) {e : Expr}
    (plain : JoinColumn.commonSide? layout e.columns = some side) :
    Agrees (Mask.Local (frameOf l r side).height rows) (e.evaluateMask (frameOf l r side))
      (e.evaluateMask out) := by
  have length : rows.length = out.height :=
    (by simpa using congrArg List.length hrows : rows.length = pairs.length).trans height.symm
  have tall : (frameOf l r side).height ≤ Frame.maxRows := by
    cases side with
    | left => exact hl.short
    | right => exact hr.short
  refine Expr.mask_local ⟨fun i hi => ?_, tall, length.symm ▸ short⟩ length fun n hn => ?_
  · have := List.mem_map_of_mem (f := some) hi
    rw [hrows] at this
    obtain ⟨p, hp, hpi⟩ := List.mem_map.1 this
    obtain ⟨left, right⟩ := within p hp
    cases side with
    | left => exact left i hpi
    | right => exact right i hpi
  · obtain ⟨a, d, ha, hd, hlocal⟩ := plain_local hl hr h hrows
      ((JoinColumn.commonSide?_eq_some plain).2 n (Expr.mem_columns.2 hn))
    rw [Frame.column_eq_ok.2 ha, Frame.column_eq_ok.2 hd]
    exact .ok hlocal

theorem rowOf_nestedLoop {kind : JoinKind} {agree : Nat → Nat → Bool} {ls rs : List Nat} {side : JoinSide}
    (h : kind.preserves side) : ∀ p ∈ nestedLoop kind agree ls rs, (rowOf side p).isSome := by
  intro p hp
  rcases List.mem_append.1 hp with hp | hp
  · obtain ⟨a, -, hp⟩ := List.mem_flatMap.1 hp
    simp only [pairsOf] at hp
    split at hp
    next alone =>
      rw [List.mem_singleton.1 hp]
      cases side with
      | left => rfl
      | right => cases kind <;> simp_all [JoinKind.preserves, JoinKind.keepsLeft]
    · obtain ⟨b, -, rfl⟩ := List.mem_map.1 hp
      cases side <;> rfl
  · split at hp
    next keeps =>
      obtain ⟨b, -, rfl⟩ := List.mem_map.1 hp
      cases side with
      | left => cases kind <;> simp_all [JoinKind.preserves, JoinKind.keepsRight]
      | right => rfl
    · cases hp

theorem filterMap_of_isSome {f : α → Option β} {xs : List α} (h : ∀ x ∈ xs, (f x).isSome) :
    (xs.filterMap f).map some = xs.map f := by
  induction xs with
  | nil => rfl
  | cons x xs ih =>
    obtain ⟨hx, hxs⟩ := List.forall_mem_cons.1 h
    obtain ⟨y, hy⟩ := Option.isSome_iff_exists.1 hx
    rw [List.filterMap_cons_some hy, List.map_cons, List.map_cons, ih hxs, hy]

/-- Conditions that go to a side: they name plain columns of it only, and the join keeps no row of the
other side by itself. -/
def GoTo (kind : JoinKind) (layout : List JoinColumn) (side : JoinSide) (es : List Expr) : Prop :=
  ∀ e ∈ es, kind.preserves side ∧ JoinColumn.commonSide? layout e.columns = some side

variable {host : Host} {s : JoinSpec} {k : Keys} {es : List Expr} {side : JoinSide}

/-- Conditions that go to a side decide there, and hold of a pair where they hold of its row. -/
theorem GoTo.holds (hl : l.Sane) (hr : r.Sane)
    (h : List.Forall₂ (Holds l r pairs) layout out.columns) (short : out.height ≤ Frame.maxRows)
    (height : out.height = pairs.length)
    (made : pairs = nestedLoop s.kind k.agree (List.range l.height) (List.range r.height))
    (go : GoTo s.kind layout side es) (decides : ∀ e ∈ es, e.Decides out) :
    (∀ e ∈ es, e.Decides (frameOf l r side)) ∧ ∀ i p, pairs[i]? = some p →
      es.all (Expr.holdsAt out · i) = (rowOf side p).all fun j => es.all (Expr.holdsAt (frameOf l r side) · j) := by
  cases hes : es with
  | nil =>
    refine ⟨nofun, fun i p _ => ?_⟩
    cases rowOf side p <;> rfl
  | cons first rest =>
    rw [← hes]
    have keeps : s.kind.preserves side := (go first (hes ▸ List.mem_cons_self)).1
    have total : ∀ p ∈ pairs, (rowOf side p).isSome := by
      rw [made]
      exact rowOf_nestedLoop keeps
    have within : Within l.height r.height pairs := made ▸ within_nestedLoop _ _ _ _
    have hrows := filterMap_of_isSome total
    have masks := fun e he => plain_mask hl hr h short height within hrows (go e he).2
    refine ⟨fun e he => ?_, fun i p hp => ?_⟩
    · obtain ⟨m, hm⟩ := decides e he
      obtain ⟨m', hm', -⟩ := (masks e he).follows_back m hm
      exact ⟨m', hm'⟩
    · obtain ⟨j, hj⟩ := Option.isSome_iff_exists.1 (total p (List.mem_of_getElem? hp))
      have row : (pairs.filterMap (rowOf side))[i]? = some j := by
        have := congrArg (·[i]?) hrows
        simp only [List.getElem?_map, hp, Option.map_some, hj] at this
        simpa using this
      rw [hj, Option.all_some, Bool.eq_iff_iff, List.all_eq_true, List.all_eq_true]
      refine forall₂_congr fun e he => ?_
      obtain ⟨m, hm⟩ := decides e he
      obtain ⟨m', hm', same⟩ := (masks e he).follows_back m hm
      rw [Expr.holdsAt_of_mask hm, Expr.holdsAt_of_mask hm', same.holds row]

theorem preserves_left (kind : JoinKind) : kind.preserves .left → kind.keepsRight = false := by
  cases kind <;> decide

theorem preserves_right (kind : JoinKind) : kind.preserves .right → kind.keepsLeft = false := by
  cases kind <;> decide

/-- Conditions on both sides of a join keep the same rows before it as after it. -/
theorem narrow (merge : host.autoSortMerge = false) (hl : l.Sane) (hr : r.Sane)
    (h : joined host l r s = .ok out) (wide : s.layout l.names r.names ≠ []) {left right : List Expr}
    (goLeft : GoTo s.kind (s.layout l.names r.names) .left left)
    (goRight : GoTo s.kind (s.layout l.names r.names) .right right)
    (decides : ∀ e ∈ left ++ right, e.Decides out) :
    ∃ l' r' out', l.filterBy left = .ok l' ∧ r.filterBy right = .ok r' ∧ joined host l' r' s = .ok out' ∧
      Frame.Selects ((List.range out.height).filter fun i =>
        left.all (Expr.holdsAt out · i) && right.all (Expr.holdsAt out · i)) out out' := by
  have sane := joined_sane hl hr h
  obtain ⟨valid, k, hk, hout⟩ := joined_eq_ok.1 h
  rw [rowPairs_eq_nestedLoop merge hl.toRectangular hr.toRectangular valid hk] at hout
  have within := within_nestedLoop s.kind k.agree l.height r.height
  have holds := assemble_holds hl.toRectangular within hout
  have height := height_assemble hl.toRectangular within hout wide
  obtain ⟨decidesLeft, decidesRight⟩ := List.forall_mem_append.1 decides
  obtain ⟨onLeft, sameLeft⟩ := goLeft.holds hl hr holds sane.short height rfl decidesLeft
  obtain ⟨onRight, sameRight⟩ := goRight.holds hl hr holds sane.short height rfl decidesRight
  have below {n : Nat} {p : Nat → Bool} : ∀ i ∈ (List.range n).filter p, i < n := fun i hi =>
    List.mem_range.1 (List.mem_filter.1 hi).1
  have fewer {n : Nat} {p : Nat → Bool} : ((List.range n).filter p).length ≤ n :=
    Nat.le_trans (List.length_filter_le ..) (Nat.le_of_eq List.length_range)
  obtain ⟨l', hl', selectsLeft⟩ := Frame.filterBy_selects hl (Frame.selects_range hl.toRectangular)
    (fun i => List.mem_range.1) (Nat.le_of_eq List.length_range) onLeft
  obtain ⟨r', hr', selectsRight⟩ := Frame.filterBy_selects hr (Frame.selects_range hr.toRectangular)
    (fun i => List.mem_range.1) (Nat.le_of_eq List.length_range) onRight
  have pairs : (nestedLoop s.kind k.agree
      ((List.range l.height).filter fun i => left.all (Expr.holdsAt l · i))
      ((List.range r.height).filter fun j => right.all (Expr.holdsAt r · j))).map some =
        ((List.range out.height).filter fun i =>
          left.all (Expr.holdsAt out · i) && right.all (Expr.holdsAt out · i)).map fun i =>
            (nestedLoop s.kind k.agree (List.range l.height) (List.range r.height))[i]? := by
    rw [nestedLoop_filter_left, nestedLoop_filter_right, List.filter_filter, height]
    · refine Frame.map_filter_getElem? _ _ _ fun i p hp => ?_
      rw [sameLeft i p hp, sameRight i p hp]
      rfl
    · cases hright : right with
      | nil => exact .inr fun _ _ => rfl
      | cons e es => exact .inl (preserves_right _ (goRight e (hright ▸ List.mem_cons_self)).1)
    · cases hleft : left with
      | nil => exact .inr fun _ _ => rfl
      | cons e es => exact .inl (preserves_left _ (goLeft e (hleft ▸ List.mem_cons_self)).1)
  obtain ⟨out', hout', selects⟩ := select_joined merge hl hr (selectsLeft.sane hl fewer)
    (selectsRight.sane hr fewer) selectsLeft selectsRight hk h wide fewer pairs
  exact ⟨l', r', out', hl', hr', hout', selects⟩

end Join

end Columnar
