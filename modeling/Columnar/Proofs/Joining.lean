import Columnar.Proofs.Framing
import Columnar.Proofs.Naming
import Columnar.Proofs.NestedLoop
import Columnar.Proofs.Stacking

namespace Columnar.Join

def typeOf (l r : Frame) (c : JoinColumn) : Option DType :=
  match c.side, c.fallback with
  | .left, none => (l.column? c.source).map (·.dtype)
  | .left, some key => do pure ((← l.column? c.source).dtype.common (← r.column? key).dtype)
  | .right, _ => (r.column? c.source).map (·.dtype)

/-- What a joined column says for a pair of rows: the row of its side, or of the right key for a shared key
without a left row. -/
def valueAt (l r : Frame) (c : JoinColumn) (p : RowPair) : Option Value :=
  match c.side, c.fallback, p with
  | .left, none, (i, _) => do (← l.column? c.source).reads (← i)
  | .left, some key, (some i, _) => do
    let a ← l.column? c.source
    (a.cast (a.dtype.common (← r.column? key).dtype)).reads i
  | .left, some key, (none, j) => do
    let b ← r.column? key
    (b.cast ((← l.column? c.source).dtype.common b.dtype)).reads (← j)
  | .right, _, (_, j) => do (← r.column? c.source).reads (← j)

structure Holds (l r : Frame) (pairs : List RowPair) (c : JoinColumn) (out : Column) : Prop where
  name : out.name = c.name
  dtype : some out.dtype = typeOf l r c
  height : out.height = pairs.length
  reads : ∀ i, out.reads i = pairs[i]?.bind (valueAt l r c)

def Within (m n : Nat) (pairs : List RowPair) : Prop :=
  ∀ p ∈ pairs, (∀ i ∈ p.1, i < m) ∧ ∀ j ∈ p.2, j < n

theorem reads_take_map (c : Column) (pairs : List RowPair) (f : RowPair → Option Nat) (i : Nat) :
    (c.take (pairs.map f).toArray).reads i = pairs[i]?.bind fun p => (f p).bind c.reads := by
  rw [Column.reads_take, List.getElem?_toArray, List.getElem?_map]
  cases pairs[i]? <;> rfl

theorem outputColumn_holds {l r : Frame} (hl : l.Rectangular) {pairs : List RowPair}
    (within : Within l.height r.height pairs) {c : JoinColumn} {out : Column}
    (h : outputColumn l r pairs c = .ok out) : Holds l r pairs c out := by
  obtain ⟨side, source, name, fallback⟩ := c
  unfold outputColumn at h
  cases side with
  | right =>
    simp only [bind_eq_ok, map_eq_ok, pure_eq_ok, Frame.column_eq_ok] at h
    obtain ⟨_, ⟨a, ha, rfl⟩, rfl⟩ := h
    refine ⟨rfl, by simp [typeOf, ha], by simp [Column.height_take], fun i => ?_⟩
    rw [Column.reads_rename, reads_take_map]
    exact congrArg _ (funext fun p => by simp [valueAt, ha])
  | left =>
    cases fallback with
    | none =>
      simp only [bind_eq_ok, map_eq_ok, pure_eq_ok, Frame.column_eq_ok] at h
      obtain ⟨_, ⟨a, ha, rfl⟩, rfl⟩ := h
      refine ⟨rfl, by simp [typeOf, ha], by simp [Column.height_take], fun i => ?_⟩
      rw [Column.reads_rename, reads_take_map]
      exact congrArg _ (funext fun p => by simp [valueAt, ha])
    | some key =>
      simp only [bind_eq_ok, pure_eq_ok, Frame.column_eq_ok] at h
      obtain ⟨a, ha, b, hb, _, rfl, rfl⟩ := h
      refine ⟨rfl, ?_, by simp [Column.height_take], fun i => ?_⟩
      · simp [typeOf, ha, hb, (Column.stackOnto_spec a [b]).1, Column.commonType]
      · rw [Column.reads_rename, reads_take_map]
        cases hp : pairs[i]? with
        | none => rfl
        | some p =>
          obtain ⟨left, right⟩ := p
          rw [Option.bind_some, Option.bind_some]
          cases left with
          | some i =>
            have hi : i < a.height := by
              rw [hl.height ha]
              exact (within _ (List.mem_of_getElem? hp)).1 i rfl
            simp [valueAt, ha, hb, Column.reads_stackOnto_upper a b hi]
          | none =>
            cases right with
            | none => simp [valueAt, ha, hb]
            | some j => simp [valueAt, ha, hb, ← hl.height ha, Column.reads_stackOnto_lower]

def Sourced (l r : Frame) (c : JoinColumn) : Prop :=
  match c.side with
  | .left => c.source ∈ l.names ∧ ∀ key ∈ c.fallback, key ∈ r.names
  | .right => c.source ∈ r.names

theorem outputColumn_ok {l r : Frame} (pairs : List RowPair) {c : JoinColumn} (h : Sourced l r c) :
    ∃ out, outputColumn l r pairs c = .ok out := by
  obtain ⟨side, source, name, fallback⟩ := c
  unfold outputColumn
  cases side with
  | right =>
    obtain ⟨a, ha⟩ := Frame.mem_names.1 h
    exact ⟨_, by simp only [Frame.column_eq_ok.2 ha]; rfl⟩
  | left =>
    obtain ⟨a, ha⟩ := Frame.mem_names.1 h.1
    cases fallback with
    | none => exact ⟨_, by simp only [Frame.column_eq_ok.2 ha]; rfl⟩
    | some key =>
      obtain ⟨b, hb⟩ := Frame.mem_names.1 (h.2 key rfl)
      exact ⟨_, by simp only [Frame.column_eq_ok.2 ha, Frame.column_eq_ok.2 hb]; rfl⟩

theorem sourced_layout {l r : Frame} {s : JoinSpec}
    (keys : ∀ a b, (a, b) ∈ s.leftOn.zip s.rightOn → a ∈ l.names ∧ b ∈ r.names) :
    ∀ c ∈ s.layout l.names r.names, Sourced l r c := by
  intro c hc
  rcases List.mem_append.1 hc with hc | hc
  · obtain ⟨side, source, -, fallback⟩ := JoinColumn.mem_leftColumns hc
    rw [Sourced, side]
    refine ⟨source, fun key hkey => ?_⟩
    exact (keys key key (JoinColumn.mem_sharedKeys.1 (fallback key hkey).2.1)).2
  · obtain ⟨side, source, -, -⟩ := JoinColumn.mem_rightColumns hc
    rw [Sourced, side]
    exact source

theorem Holds.names {l r : Frame} {pairs : List RowPair} {layout : List JoinColumn}
    {columns : List Column} (h : List.Forall₂ (Holds l r pairs) layout columns) :
    columns.map (·.name) = layout.map (·.name) := (map_eq_map h fun _ _ hc => hc.name.symm).symm

theorem Holds.heights {l r : Frame} {pairs : List RowPair} {layout : List JoinColumn}
    {columns : List Column} (h : List.Forall₂ (Holds l r pairs) layout columns) :
    ∀ c ∈ columns, c.height = pairs.length := by
  induction h with
  | nil => nofun
  | cons hc _ ih => exact List.forall_mem_cons.2 ⟨hc.height, ih⟩

theorem assemble_holds {l r : Frame} (hl : l.Rectangular) {pairs : List RowPair}
    (within : Within l.height r.height pairs) {s : JoinSpec} {out : Frame}
    (h : assemble l r s pairs = .ok out) :
    List.Forall₂ (Holds l r pairs) (s.layout l.names r.names) out.columns := by
  obtain ⟨columns, hcolumns, h⟩ := bind_eq_ok.1 h
  obtain ⟨rfl, -⟩ := Frame.ofColumns_eq_ok.1 h
  exact (mapM_eq_ok.1 hcolumns).imp fun c out hc => outputColumn_holds hl within hc

theorem assemble_ok {l r : Frame} (hl : l.Rectangular) {pairs : List RowPair}
    (within : Within l.height r.height pairs) {s : JoinSpec}
    (keys : ∀ a b, (a, b) ∈ s.leftOn.zip s.rightOn → a ∈ l.names ∧ b ∈ r.names)
    (limit : pairs.length ≤ Frame.maxRows) : ∃ out, assemble l r s pairs = .ok out := by
  obtain ⟨columns, hcolumns⟩ := mapM_ok fun c hc => outputColumn_ok pairs (sourced_layout keys c hc)
  have holds := (mapM_eq_ok.1 hcolumns).imp fun c out hc => outputColumn_holds hl within hc
  have names : (columns.map (·.name)).Nodup :=
    Holds.names holds ▸ JoinColumn.names_layout_nodup hl.names r.names s.leftOn s.rightOn s.kind s.suffix
  obtain ⟨out, hout, -⟩ := Frame.ofColumns_ok names (Holds.heights holds) fun _ => limit
  exact ⟨out, bind_eq_ok.2 ⟨columns, hcolumns, hout⟩⟩

theorem capped_assemble {l r : Frame} {s : JoinSpec} {pairs : List RowPair} {out : Frame}
    (h : assemble l r s pairs = .ok out) : out.Capped := by
  obtain ⟨_, _, h⟩ := bind_eq_ok.1 h
  exact Frame.capped_ofColumns h

theorem height_assemble {l r : Frame} (hl : l.Rectangular) {pairs : List RowPair}
    (within : Within l.height r.height pairs) {s : JoinSpec} {out : Frame}
    (h : assemble l r s pairs = .ok out) (nonempty : s.layout l.names r.names ≠ []) :
    out.height = pairs.length := by
  have holds := assemble_holds hl within h
  have wide : out.columns ≠ [] := fun none => by
    rw [none, List.forall₂_nil_right_iff] at holds
    exact nonempty holds
  exact ((capped_assemble h).heights _ (List.head_mem wide)).symm.trans
    (Holds.heights holds _ (List.head_mem wide))

theorem keys_eq_ok {l r : Frame} {s : JoinSpec} {k : Keys} (h : keys l r s = .ok k) :
    (∀ a b, (a, b) ∈ s.leftOn.zip s.rightOn → a ∈ l.names ∧ b ∈ r.names) ∧
      ∃ pairs : List (Column × Column), k = ⟨pairs.map (·.1), pairs.map (·.2)⟩ ∧
        List.Forall₂ (fun (n : String × String) p => ∃ a b, l.column? n.1 = some a ∧
          r.column? n.2 = some b ∧ comparable a b = .ok p) (s.leftOn.zip s.rightOn) pairs := by
  obtain ⟨pairs, hpairs, hk⟩ := bind_eq_ok.1 h
  have found := mapM_eq_ok.1 hpairs
  simp only [bind_eq_ok, Frame.column_eq_ok] at found
  refine ⟨fun a b hab => ?_, pairs, (pure_eq_ok.1 hk).symm, found.imp ?_⟩
  · obtain ⟨-, -, c, hc, d, hd, -⟩ := exists_right found (a, b) hab
    exact ⟨Frame.mem_names.2 ⟨c, hc⟩, Frame.mem_names.2 ⟨d, hd⟩⟩
  · rintro n p ⟨a, ha, b, hb, hp⟩
    exact ⟨a, b, ha, hb, hp⟩

theorem paired {l r : Frame} (hl : l.Rectangular) (hr : r.Rectangular) {s : JoinSpec} {k : Keys}
    (h : keys l r s = .ok k) (nonempty : s.leftOn.zip s.rightOn ≠ []) : k.Paired l.height r.height := by
  obtain ⟨-, pairs, rfl, found⟩ := keys_eq_ok h
  have each : ∀ p ∈ pairs, sameSpace p.1.dtype p.2.dtype ∧ p.1.height = l.height ∧
      p.2.height = r.height := by
    intro p hp
    obtain ⟨_, _, a, b, ha, hb, hab⟩ := exists_left found p hp
    obtain ⟨space, left, right⟩ := comparable_eq_ok hab
    exact ⟨space, left.trans (hl.height ha), right.trans (hr.height hb)⟩
  refine ⟨?_, ?_, ?_, ?_⟩
  · rw [List.forall₂_map_left_iff, List.forall₂_map_right_iff, List.forall₂_same]
    exact fun p hp => (each p hp).1
  · exact List.forall_mem_map.2 fun p hp => (each p hp).2.1
  · exact List.forall_mem_map.2 fun p hp => (each p hp).2.2
  · intro none
    rw [List.map_eq_nil_iff] at none
    rw [none, List.forall₂_nil_right_iff] at found
    exact nonempty found

theorem validate_eq_ok {s : JoinSpec} (h : s.validate = .ok ()) (hk : s.kind ≠ .cross) :
    s.leftOn.zip s.rightOn ≠ [] := by
  unfold JoinSpec.validate at h
  rw [if_neg hk] at h
  split at h
  · cases h
  next nonempty =>
    split at h
    · cases h
    next same =>
      intro none
      rw [List.zip_eq_nil_iff] at none
      rcases none with none | none
      · simp [none] at nonempty
      · rw [none, List.length_nil, Decidable.not_not, List.length_eq_zero_iff] at same
        simp [same] at nonempty

theorem within_nestedLoop (kind : JoinKind) (agree : Nat → Nat → Bool) (m n : Nat) :
    Within m n (nestedLoop kind agree (List.range m) (List.range n)) := fun p hp => by
  obtain ⟨left, right⟩ := mem_nestedLoop hp
  exact ⟨fun i hi => List.mem_range.1 (left i hi), fun j hj => List.mem_range.1 (right j hj)⟩

theorem Keys.agree_iff (k : Keys) (i j : Nat) :
    k.agree i j ↔ ∀ p ∈ k.left.zip k.right, ∃ v w, p.1.held? i = some v ∧ p.2.held? j = some w ∧
      v.isMissing = false ∧ w.isMissing = false ∧ v.same w := by
  rw [Keys.agree, List.all_eq_true]
  refine forall₂_congr fun p _ => ?_
  simp only [Column.joinEq, Column.value?]
  cases p.1.held? i with
  | none => simp
  | some v =>
    cases p.2.held? j with
    | none => simp
    | some w =>
      cases hv : v.isMissing <;> cases hw : w.isMissing <;> simp [hv, hw, Option.filter]

/-- A join by hash gives the rows of the nested loop in their order, whatever the hash functions and
however the work is spread. Rows go together if in all keys both hold values that are no missing numbers
and equal. -/
theorem run_hash_eq_nestedLoop (host : Host) {l r : Frame} {s : JoinSpec} {k : Keys}
    (hl : l.Rectangular) (hr : r.Rectangular) (merge : host.autoSortMerge = false)
    (kind : s.kind ≠ .cross) (valid : s.validate = .ok ()) (found : keys l r s = .ok k)
    (limit : (nestedLoop s.kind k.agree (List.range l.height) (List.range r.height)).length ≤
      Frame.maxRows) :
    ∃ out, run host l r s = .ok (.hash, out) ∧
      out.height = (nestedLoop s.kind k.agree (List.range l.height) (List.range r.height)).length ∧
      List.Forall₂ (Holds l r (nestedLoop s.kind k.agree (List.range l.height) (List.range r.height)))
        (s.layout l.names r.names) out.columns ∧
      ∀ i j, k.agree i j ↔ ∀ p ∈ k.left.zip k.right, ∃ v w, p.1.held? i = some v ∧
        p.2.held? j = some w ∧ v.isMissing = false ∧ w.isMissing = false ∧ v.same w := by
  have keyed := validate_eq_ok valid kind
  have within := within_nestedLoop s.kind k.agree l.height r.height
  have named := (keys_eq_ok found).1
  have pairs := hashPairs_eq_nestedLoop host (paired hl hr found keyed) s.kind
  obtain ⟨out, hout⟩ := assemble_ok hl within named limit
  have holds := assemble_holds hl within hout
  refine ⟨out, ?_, ?_, holds, k.agree_iff⟩
  · have strategy : k.strategy s.kind host.autoSortMerge = .hash := by simp [Keys.strategy, kind, merge]
    simp [run, valid, found, strategy, pairs, hout, bind, Except.bind, pure, Except.pure]
  · refine height_assemble hl within hout fun none => ?_
    obtain ⟨⟨a, b⟩, hab⟩ := List.exists_mem_of_ne_nil _ keyed
    have left := (List.append_eq_nil_iff.1 none).1
    rw [JoinColumn.leftColumns, List.map_eq_nil_iff] at left
    exact List.not_mem_nil (left ▸ (named a b hab).1)

end Join

def Host.fourCores : Host := ⟨.standard, ⟨⟨.standard, 4, fun _ => 0⟩, by decide⟩, true⟩

def Host.hashing : Host := { fourCores with autoSortMerge := false }

namespace Join

theorem run_hash_outer :
    ∃ out, run Host.hashing
        ⟨[⟨"k", .int32 #[some 1, none]⟩], 2⟩ ⟨[⟨"k", .int32 #[none, some 1, some 5]⟩], 3⟩
        ⟨.outer, ["k"], ["k"], ""⟩ = .ok (.hash, out) ∧ out.height = 4 := by
  obtain ⟨out, hout, height, -⟩ := run_hash_eq_nestedLoop Host.hashing
    (l := ⟨[⟨"k", .int32 #[some 1, none]⟩], 2⟩) (r := ⟨[⟨"k", .int32 #[none, some 1, some 5]⟩], 3⟩)
    (s := ⟨.outer, ["k"], ["k"], ""⟩)
    (k := ⟨[⟨"k", .int32 #[some 1, none]⟩], [⟨"k", .int32 #[none, some 1, some 5]⟩]⟩)
    ⟨by decide, by simp [Column.height, Cells.height], by decide⟩
    ⟨by decide, by simp [Column.height, Cells.height], by decide⟩ rfl (by decide) rfl rfl (by decide)
  exact ⟨out, hout, height.trans (by decide)⟩

end Columnar.Join
