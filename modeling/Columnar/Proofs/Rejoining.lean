import Columnar.Proofs.Joining
import Columnar.Proofs.Operators

namespace Columnar.Join

def rowPairs (host : Host) (s : JoinSpec) (k : Keys) (m n : Nat) : List RowPair :=
  match k.strategy s.kind host.autoSortMerge with
  | .cross => crossPairs m n
  | .sortMerge => mergePairs k true
  | .hash => hashPairs host k s.kind

theorem run_eq (host : Host) (l r : Frame) (s : JoinSpec) :
    run host l r s = (do
      s.validate
      let k ← keys l r s
      let out ← assemble l r s (rowPairs host s k l.height r.height)
      pure (k.strategy s.kind host.autoSortMerge, out)) := rfl

def joined (host : Host) (l r : Frame) (s : JoinSpec) : Except Error Frame := (·.2) <$> run host l r s

theorem joined_eq_ok {host : Host} {l r out : Frame} {s : JoinSpec} :
    joined host l r s = .ok out ↔ s.validate = .ok () ∧ ∃ k, keys l r s = .ok k ∧
      assemble l r s (rowPairs host s k l.height r.height) = .ok out := by
  simp only [joined, run_eq, map_eq_ok, bind_eq_ok, pure_eq_ok]
  constructor
  · rintro ⟨_, ⟨_, hv, k, hk, _, ho, rfl⟩, rfl⟩
    exact ⟨hv, k, hk, ho⟩
  · rintro ⟨hv, k, hk, ho⟩
    exact ⟨_, ⟨(), hv, k, hk, out, ho, rfl⟩, rfl⟩

section

variable {R S : Column → Column → Prop}

theorem comparable_follows {a a' b b' : Column} (ha : R a a') (hb : S b b')
    (dtypes : a.dtype = a'.dtype ∧ b.dtype = b'.dtype)
    (casts : R (a.cast .float64) (a'.cast .float64) ∧ S (b.cast .float64) (b'.cast .float64)) :
    Follows (fun p q => R p.1 q.1 ∧ S p.2 q.2) (comparable a b) (comparable a' b') := by
  unfold comparable
  rw [← dtypes.1, ← dtypes.2]
  split
  · exact .ok ⟨ha, hb⟩
  · split
    · exact .ok casts
    · exact .error

theorem keys_follows {l l' r r' : Frame} {s : JoinSpec}
    (h : ∀ a b, (a, b) ∈ s.leftOn.zip s.rightOn → Follows (fun p q => R p.1 q.1 ∧ S p.2 q.2)
      (do comparable (← l.column a) (← r.column b)) (do comparable (← l'.column a) (← r'.column b))) :
    Follows (fun k k' => List.Forall₂ R k.left k'.left ∧ List.Forall₂ S k.right k'.right)
      (keys l r s) (keys l' r' s) := by
  unfold keys
  refine Follows.bind (.mapM (List.forall₂_same.2 fun (a, b) hab => h a b hab)) fun ps qs h => .ok ⟨?_, ?_⟩
  · rw [List.forall₂_map_left_iff, List.forall₂_map_right_iff]
    exact h.imp fun _ _ h => h.1
  · rw [List.forall₂_map_left_iff, List.forall₂_map_right_iff]
    exact h.imp fun _ _ h => h.2

end

structure Keys.Alike (k k' : Keys) : Prop where
  left : List.Forall₂ Column.Alike k.left k'.left
  right : List.Forall₂ Column.Alike k.right k'.right

theorem keys_alike {l l' r r' : Frame} {s : JoinSpec} (hl : l.Offers s.leftOn l')
    (hr : r.Offers s.rightOn r') : Follows Keys.Alike (keys l r s) (keys l' r' s) := by
  refine (keys_follows fun a b hab => ?_).mono fun _ _ _ _ h => ⟨h.1, h.2⟩
  refine (hl.column (List.of_mem_zip hab).1).bind fun _ _ ha => ?_
  refine (hr.column (List.of_mem_zip hab).2).bind fun _ _ hb => ?_
  exact comparable_follows ha hb ⟨ha.dtype, hb.dtype⟩ ⟨ha.cast _, hb.cast _⟩

theorem orderKeys_congr {as as' bs bs' : List Column} (ha : List.Forall₂ Column.Alike as as')
    (hb : List.Forall₂ Column.Alike bs bs') (i j : Nat) :
    orderKeys as i bs j = orderKeys as' i bs' j := by
  induction ha generalizing bs bs' with
  | nil => rfl
  | cons ha _ ih =>
    cases hb with
    | nil => rfl
    | cons hb hbs => rw [orderKeys, orderKeys, ha.orderRows hb, ih hbs]

theorem anyNull_congr {as as' : List Column} (h : List.Forall₂ Column.Alike as as') (i : Nat) :
    anyNull as i = anyNull as' i := by
  induction h with
  | nil => rfl
  | cons h _ ih =>
    simp only [anyNull] at ih
    rw [anyNull, anyNull, List.any_cons, List.any_cons, h.isNull, ih]

theorem agree_congr {as as' bs bs' : List Column} (ha : List.Forall₂ Column.Alike as as')
    (hb : List.Forall₂ Column.Alike bs bs') (i j : Nat) :
    Keys.agree ⟨as, bs⟩ i j = Keys.agree ⟨as', bs'⟩ i j := by
  simp only [Keys.agree]
  induction ha generalizing bs bs' with
  | nil => rfl
  | cons ha _ ih =>
    cases hb with
    | nil => rfl
    | cons hb hbs =>
      rw [List.zip_cons_cons, List.zip_cons_cons, List.all_cons, List.all_cons, ha.joinEq hb, ih hbs]

namespace Keys.Alike

variable {k k' : Keys} (h : k.Alike k')

include h

theorem agree : k.agree = k'.agree := funext fun i => funext fun j => agree_congr h.left h.right i j

theorem sorted : k.sorted = k'.sorted := by
  obtain ⟨kl, kr⟩ := k
  obtain ⟨kl', kr'⟩ := k'
  obtain ⟨left, right⟩ := h
  unfold Keys.sorted
  cases left with
  | nil => rfl
  | cons ha has =>
    cases has with
    | cons => rfl
    | nil =>
      cases right with
      | nil => rfl
      | cons hb hbs =>
        cases hbs with
        | cons => rfl
        | nil => simp only [ha.isSorted, hb.isSorted]

theorem strategy (kind : JoinKind) (auto : Bool) : k.strategy kind auto = k'.strategy kind auto := by
  rw [Keys.strategy, Keys.strategy, h.sorted]

theorem mergePairs : mergePairs k true = Join.mergePairs k' true := by
  have rows {as as' : List Column} (h : List.Forall₂ Column.Alike as as') :
      sortedRows as true = sortedRows as' true := by
    simp only [sortedRows, ↓reduceIte, Frame.heightOf_alike h, anyNull_congr h]
  simp only [Join.mergePairs, rows h.left, rows h.right, orderKeys_congr h.left h.right,
    orderKeys_congr h.left h.left, orderKeys_congr h.right h.right]

theorem rowPairs (host : Host) {s : JoinSpec} {m n : Nat} (hk : s.kind ≠ .cross → k.Paired m n)
    (hk' : s.kind ≠ .cross → k'.Paired m n) : rowPairs host s k m n = Join.rowPairs host s k' m n := by
  rw [Join.rowPairs, Join.rowPairs, ← h.strategy]
  cases hs : k.strategy s.kind host.autoSortMerge with
  | cross => rfl
  | sortMerge => exact h.mergePairs
  | hash =>
    have kind : s.kind ≠ .cross := fun hc => by
      simp [Keys.strategy, hc] at hs
    simp only [hashPairs_eq_nestedLoop host (hk kind), hashPairs_eq_nestedLoop host (hk' kind), h.agree]

end Keys.Alike

theorem outputColumn_alike {l l' r r' : Frame} {names names' : List String} (hl : l.Offers names l')
    (hr : r.Offers names' r') (pairs : List RowPair) {c : JoinColumn}
    (source : c.source ∈ match c.side with | .left => names | .right => names')
    (fallback : ∀ key ∈ c.fallback, key ∈ names') :
    Follows (fun a b : Column => a.name = b.name ∧ a.Alike b) (outputColumn l r pairs c)
      (outputColumn l' r' pairs c) := by
  obtain ⟨side, src, name, fb⟩ := c
  unfold outputColumn
  have renamed (a b : Column) (h : a.Alike b) : Follows (ε := Error)
      (fun a b : Column => a.name = b.name ∧ a.Alike b) (pure (a.rename name)) (pure (b.rename name)) :=
    .ok ⟨rfl, h.rename _ _⟩
  cases side with
  | right => exact ((hr.column source).map fun _ _ h => h.take _).bind renamed
  | left =>
    cases fb with
    | none => exact ((hl.column source).map fun _ _ h => h.take _).bind renamed
    | some key =>
      refine (hl.column source).bind fun a a' ha => (hr.column (fallback key rfl)).bind fun b b' hb => ?_
      refine renamed _ _ ?_
      rw [← hl.height]
      exact (ha.stackOnto (.cons hb .nil)).take _

theorem outputColumn_shape {l r : Frame} {pairs : List RowPair} {c : JoinColumn} {out : Column}
    (h : outputColumn l r pairs c = .ok out) : out.name = c.name ∧ out.height = pairs.length := by
  obtain ⟨side, source, name, fallback⟩ := c
  unfold outputColumn at h
  cases side with
  | right =>
    simp only [bind_eq_ok, map_eq_ok, pure_eq_ok] at h
    obtain ⟨_, ⟨a, -, rfl⟩, rfl⟩ := h
    exact ⟨rfl, by simp [Column.height_take]⟩
  | left =>
    cases fallback with
    | none =>
      simp only [bind_eq_ok, map_eq_ok, pure_eq_ok] at h
      obtain ⟨_, ⟨a, -, rfl⟩, rfl⟩ := h
      exact ⟨rfl, by simp [Column.height_take]⟩
    | some key =>
      simp only [bind_eq_ok, pure_eq_ok] at h
      obtain ⟨a, -, b, -, _, rfl, rfl⟩ := h
      exact ⟨rfl, by simp [Column.height_take]⟩

variable {l l' r r' : Frame} {s : JoinSpec}

def Laid (l r : Frame) (pairs : List RowPair) (c : JoinColumn) (out : Column) : Prop :=
  outputColumn l r pairs c = .ok out

theorem assemble_eq_ok {pairs : List RowPair} {out : Frame} :
    assemble l r s pairs = .ok out ↔ ∃ columns, Frame.ofColumns columns = .ok out ∧
      List.Forall₂ (Laid l r pairs) (s.layout l.names r.names) columns := by
  rw [assemble, bind_eq_ok]
  simp only [mapM_eq_ok]
  exact ⟨fun ⟨cs, h, h'⟩ => ⟨cs, h', h⟩, fun ⟨cs, h, h'⟩ => ⟨cs, h', h⟩⟩

theorem Laid.names {pairs : List RowPair} {layout : List JoinColumn} {columns : List Column}
    (h : List.Forall₂ (Laid l r pairs) layout columns) :
    columns.map (·.name) = layout.map (·.name) :=
  (map_eq_map h fun _ _ hc => (outputColumn_shape hc).1.symm).symm

theorem Laid.heights {pairs : List RowPair} {layout : List JoinColumn} {columns : List Column}
    (h : List.Forall₂ (Laid l r pairs) layout columns) : ∀ c ∈ columns, c.height = pairs.length :=
  fun c hc => by
    obtain ⟨_, _, hc⟩ := exists_left h c hc
    exact (outputColumn_shape hc).2

theorem names_joined {host : Host} {out : Frame} (h : joined host l r s = .ok out) :
    out.names = (s.layout l.names r.names).map (·.name) := by
  obtain ⟨-, k, -, h⟩ := joined_eq_ok.1 h
  obtain ⟨columns, hout, laid⟩ := assemble_eq_ok.1 h
  obtain ⟨rfl, -⟩ := Frame.ofColumns_eq_ok.1 hout
  exact Laid.names laid

theorem rowPairs_alike (host : Host) (hl : l.Rectangular) (hr : r.Rectangular) (hl' : l'.Rectangular)
    (hr' : r'.Rectangular) (heights : l.height = l'.height ∧ r.height = r'.height)
    (valid : s.validate = .ok ()) {k k' : Keys} (hk : keys l r s = .ok k) (hk' : keys l' r' s = .ok k')
    (h : k.Alike k') :
    rowPairs host s k l.height r.height = rowPairs host s k' l'.height r'.height := by
  rw [← heights.1, ← heights.2]
  refine h.rowPairs host (fun kind => paired hl hr hk (validate_eq_ok valid kind)) fun kind => ?_
  rw [heights.1, heights.2]
  exact paired hl' hr' hk' (validate_eq_ok valid kind)

theorem joined_built (host : Host) (hl : l.Sane) (hr : r.Sane) (hl' : l'.Sane) (hr' : r'.Sane)
    (hll : l.Alike l') (hrr : r.Alike r') :
    Follows Frame.Built (joined host l r s) (joined host l' r' s) := by
  intro out hout
  obtain ⟨valid, k, hk, hout⟩ := joined_eq_ok.1 hout
  obtain ⟨k', hk', alike⟩ := keys_alike (hll.offers _) (hrr.offers _) k hk
  have pairs := rowPairs_alike host hl.toRectangular hr.toRectangular hl'.toRectangular hr'.toRectangular
    ⟨hll.height, hrr.height⟩ valid hk hk' alike
  have named := (keys_eq_ok hk).1
  have assembled : Follows Frame.Built (assemble l r s (rowPairs host s k l.height r.height))
      (assemble l' r' s (rowPairs host s k' l'.height r'.height)) := by
    rw [assemble, assemble, ← pairs, ← hll.names, ← hrr.names]
    refine Follows.bind (.mapM (List.forall₂_same.2 fun c hc => ?_)) fun _ _ => Frame.ofColumns_built
    have sourced := sourced_layout named c hc
    refine outputColumn_alike (hll.offers l.names) (hrr.offers r.names) _ ?_ ?_
    · cases hs : c.side with
      | left => rw [Sourced, hs] at sourced; exact sourced.1
      | right => rw [Sourced, hs] at sourced; exact sourced
    · intro key hkey
      cases hs : c.side with
      | left => rw [Sourced, hs] at sourced; exact sourced.2 key hkey
      | right =>
        rw [(JoinColumn.mem_rightColumns (JoinColumn.mem_rightColumns_of_side hc hs)).2.2.2] at hkey
        cases hkey
  obtain ⟨out', hout', built⟩ := assembled out hout
  exact ⟨out', joined_eq_ok.2 ⟨valid, k', hk', hout'⟩, built⟩

theorem joined_sane {host : Host} (hl : l.Sane) (hr : r.Sane) {out : Frame}
    (h : joined host l r s = .ok out) : out.Sane := by
  obtain ⟨_, _, built⟩ := joined_built host hl hr hl hr (.refl hl) (.refl hr) out h
  exact built.sane

end Columnar.Join
