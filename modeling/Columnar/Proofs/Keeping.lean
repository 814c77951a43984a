import Columnar.Proofs.Chains
import Columnar.Proofs.Rejoining

namespace Columnar

namespace JoinColumn

variable {required : List String} {suffix : String} {layout : List JoinColumn}

theorem mem_neededColumns {c : JoinColumn} : c ∈ neededColumns required suffix layout ↔
    ∃ i, (c, i) ∈ layout.zipIdx ∧ (required.contains c.name || namingRelevant suffix layout i c) := by
  simp [neededColumns]

theorem needed_of_required {c : JoinColumn} (hc : c ∈ layout) (h : c.name ∈ required) :
    c ∈ neededColumns required suffix layout := by
  obtain ⟨i, hi⟩ := List.mem_iff_getElem?.1 hc
  exact mem_neededColumns.2 ⟨i, List.mk_mem_zipIdx_iff_getElem?.2 hi, by simp [h]⟩

theorem needed_of_linked {c d : JoinColumn} (hc : c ∈ layout) (hd : d ∈ layout) (ne : c ≠ d)
    (h : linked suffix c.source d.source) : c ∈ neededColumns required suffix layout := by
  obtain ⟨i, hi⟩ := List.mem_iff_getElem?.1 hc
  obtain ⟨j, hj⟩ := List.mem_iff_getElem?.1 hd
  have apart : i ≠ j := by
    rintro rfl
    rw [hi] at hj
    exact ne (Option.some.inj hj)
  refine mem_neededColumns.2 ⟨i, List.mk_mem_zipIdx_iff_getElem?.2 hi, ?_⟩
  rw [Bool.or_eq_true]
  refine .inr (List.any_eq_true.2 ⟨(d, j), List.mk_mem_zipIdx_iff_getElem?.2 hj, ?_⟩)
  rw [Bool.and_eq_true]
  exact ⟨by simpa using apart, h⟩

theorem exists_rightColumns {shared : List String} {suffix x : String} {taken right : List String}
    (hx : x ∈ right) (hs : x ∉ shared) :
    ∃ c ∈ rightColumns shared suffix taken right, c.source = x ∧ c.side = .right := by
  have source : x ∈ (rightColumns shared suffix taken right).map (·.source) :=
    sources_rightColumns shared suffix taken right ▸ List.mem_filter.2 ⟨hx, by simpa using hs⟩
  obtain ⟨c, hc, rfl⟩ := List.mem_map.1 source
  exact ⟨c, hc, rfl, (mem_rightColumns hc).1⟩

end JoinColumn

namespace JoinSpec

/-- The columns of a chain of names are left as they are: none is new on the left, and those on the right are
in their order. -/
structure ChainKept (suffix : String) (left right left' right' : List String) (x : String) : Prop where
  left : ∀ n ∈ left', JoinColumn.linked suffix n x → n ∈ left
  right : (right'.filter (JoinColumn.linked suffix · x)).Sublist right

/-- What is to be left of the columns of both sides for the required columns of a join: not none of them
unless there were none, and for each right column the columns of its chain, unless its name comes out the
same all the same. -/
structure Keeps (s : JoinSpec) (required left right left' right' : List String) : Prop where
  columns : s.layout left' right' = [] ↔ s.layout left right = []
  names : ∀ c ∈ s.layout left right, c.side = .right → c.name ∈ required →
    ChainKept (JoinColumn.effectiveSuffix s.suffix) left right left' right' c.source ∨
      c ∈ s.layout left' right'

variable {s : JoinSpec} {left right left' right' required : List String}

theorem Keeps.of_sublist (sublist : left'.Sublist left ∧ right'.Sublist right)
    (columns : s.layout left' right' = [] ↔ s.layout left right = []) :
    s.Keeps required left right left' right' where
  columns := columns
  names _ _ _ _ := .inl ⟨fun _ hn _ => sublist.1.mem hn, List.filter_sublist.trans sublist.2⟩

theorem exists_layout_left {x : String} (hx : x ∈ left) : ∃ c ∈ s.layout left right, c.source = x ∧ c.side = .left :=
  ⟨_, List.mem_append_left _ (List.mem_map_of_mem hx), rfl, rfl⟩

theorem exists_layout_right {x : String} (hx : x ∈ right) (hs : x ∉ JoinColumn.sharedKeys s.leftOn s.rightOn) :
    ∃ c ∈ s.layout left right, c.source = x ∧ c.side = .right := by
  obtain ⟨c, hc, source⟩ := @JoinColumn.exists_rightColumns _ (JoinColumn.effectiveSuffix s.suffix) _ left _ hx hs
  exact ⟨c, List.mem_append_right _ hc, source⟩

def needs (s : JoinSpec) (left right required : List String) : List String × List String :=
  JoinColumn.sideRequirements required (s.layout left right) s.leftOn s.rightOn s.suffix

structure Pruned (s : JoinSpec) (required left right left' right' : List String) : Prop where
  keepsLeft : ∀ n ∈ (s.needs left right required).1, n ∈ left → n ∈ left'
  keepsRight : ∀ n ∈ (s.needs left right required).2, n ∈ right → n ∈ right'

theorem mem_needs_left {c : JoinColumn} (h : c ∈ JoinColumn.neededColumns required
    (JoinColumn.effectiveSuffix s.suffix) (s.layout left right)) (side : c.side = .left) :
    c.source ∈ (s.needs left right required).1 :=
  List.mem_append_right _ (List.mem_map_of_mem (List.mem_filter.2 ⟨h, by simpa using side⟩))

theorem mem_needs_right {c : JoinColumn} (h : c ∈ JoinColumn.neededColumns required
    (JoinColumn.effectiveSuffix s.suffix) (s.layout left right)) (side : c.side = .right) :
    c.source ∈ (s.needs left right required).2 :=
  List.mem_append_left _
    (List.mem_append_right _ (List.mem_map_of_mem (List.mem_filter.2 ⟨h, by simpa using side⟩)))

theorem mem_needs_fallback {c : JoinColumn} (h : c ∈ JoinColumn.neededColumns required
    (JoinColumn.effectiveSuffix s.suffix) (s.layout left right)) {key : String} (hk : c.fallback = some key) :
    key ∈ (s.needs left right required).2 :=
  List.mem_append_right _ (List.mem_filterMap.2 ⟨c, h, hk⟩)

variable (h : s.Pruned required left right left' right')

include h

theorem Pruned.chain_kept {c : JoinColumn} (hc : c ∈ s.layout left right) (side : c.side = .right)
    (kept : c.source ∈ right') :
    (∀ x ∈ left, JoinColumn.linked (JoinColumn.effectiveSuffix s.suffix) x c.source → x ∈ left') ∧
      ∀ x ∈ right, x ∉ JoinColumn.sharedKeys s.leftOn s.rightOn →
        JoinColumn.linked (JoinColumn.effectiveSuffix s.suffix) x c.source → x ∈ right' := by
  refine ⟨fun x hx link => h.keepsLeft x ?_ hx, fun x hx unshared link => ?_⟩
  · obtain ⟨d, hd, rfl, sideD⟩ := @exists_layout_left s left right x hx
    refine mem_needs_left (JoinColumn.needed_of_linked hd hc ?_ link) sideD
    rintro rfl
    rw [sideD] at side
    cases side
  · by_cases same : x = c.source
    · exact same ▸ kept
    · obtain ⟨d, hd, rfl, sideD⟩ := @exists_layout_right s left right x hx unshared
      refine h.keepsRight _ (mem_needs_right (JoinColumn.needed_of_linked hd hc ?_ link) sideD) hx
      rintro rfl
      exact same rfl

theorem Pruned.mem_layout_right (nodup : right.Nodup) {c : JoinColumn} (hc : c ∈ s.layout left right)
    (side : c.side = .right) (need : c.name ∈ required)
    (chain : ChainKept (JoinColumn.effectiveSuffix s.suffix) left right left' right' c.source) :
    c ∈ s.layout left' right' := by
  have nonempty := JoinColumn.effectiveSuffix_ne_empty s.suffix
  have hr := JoinColumn.mem_rightColumns_of_side hc side
  have kept : c.source ∈ right' :=
    h.keepsRight _ (mem_needs_right (JoinColumn.needed_of_required hc need) side) (JoinColumn.mem_rightColumns hr).2.1
  obtain ⟨keptLeft, keptRight⟩ := h.chain_kept hc side kept
  have same : ∀ n, JoinColumn.Chained (JoinColumn.effectiveSuffix s.suffix) n c.source →
      (n ∈ left ↔ n ∈ left') := fun n hn =>
    have link := (JoinColumn.linked_iff nonempty).2 hn
    ⟨fun hn' => keptLeft n hn' link, fun hn' => chain.left n hn' link⟩
  have part : (right'.filter fun x =>
        !(JoinColumn.sharedKeys s.leftOn s.rightOn).contains x &&
          JoinColumn.linked (JoinColumn.effectiveSuffix s.suffix) x c.source) =
      right.filter fun x => !(JoinColumn.sharedKeys s.leftOn s.rightOn).contains x &&
        JoinColumn.linked (JoinColumn.effectiveSuffix s.suffix) x c.source := by
    refine JoinColumn.filter_eq_of_sublist nodup ?_ fun x hx hp => ?_
    · rw [← List.filter_filter]
      exact List.filter_sublist.trans chain.right
    · rw [Bool.and_eq_true] at hp
      exact keptRight x hx (by simpa using hp.1) hp.2
  have mine : c ∈ (JoinColumn.rightColumns (JoinColumn.sharedKeys s.leftOn s.rightOn)
      (JoinColumn.effectiveSuffix s.suffix) left right).filter
        (JoinColumn.linked (JoinColumn.effectiveSuffix s.suffix) ·.source c.source) :=
    List.mem_filter.2 ⟨hr, (JoinColumn.linked_iff nonempty).2 ⟨0, 0, rfl⟩⟩
  rw [JoinColumn.rightColumns_chain nonempty _ same, JoinColumn.rightColumns_unshared, List.filter_filter,
    ← part, ← List.filter_filter, ← JoinColumn.rightColumns_unshared,
    ← JoinColumn.rightColumns_chain nonempty _ fun _ _ => Iff.rfl] at mine
  exact List.mem_append_right _ (List.mem_filter.1 mine).1

theorem Pruned.required_kept (nodup : right.Nodup) (keeps : s.Keeps required left right left' right')
    {c : JoinColumn} (hc : c ∈ s.layout left right) (need : c.name ∈ required) : c ∈ s.layout left' right' := by
  cases side : c.side with
  | right => exact (keeps.names c hc side need).elim (h.mem_layout_right nodup hc side need) fun hc => hc
  | left =>
    have needed := @JoinColumn.needed_of_required _ (JoinColumn.effectiveSuffix s.suffix) _ _ hc need
    obtain ⟨n, hn, rfl⟩ := List.mem_map.1 (JoinColumn.mem_leftColumns_of_side hc side)
    exact List.mem_append_left _ (List.mem_map_of_mem (h.keepsLeft n (mem_needs_left needed rfl) hn))

end JoinSpec

namespace Join

variable {l l' r r' : Frame} {s : JoinSpec} {required : List String}

theorem Laid.height {out : Frame} {pairs : List RowPair} {columns : List Column}
    (hout : Frame.ofColumns columns = .ok out)
    (h : List.Forall₂ (Laid l r pairs) (s.layout l.names r.names) columns) :
    out.columns = columns ∧
      out.height = if s.layout l.names r.names = [] then 0 else pairs.length := by
  obtain ⟨rfl, -⟩ := Frame.ofColumns_eq_ok.1 hout
  refine ⟨rfl, ?_⟩
  cases columns with
  | nil =>
    rw [List.forall₂_nil_right_iff] at h
    rw [if_pos h]
    rfl
  | cons c cs =>
    rw [if_neg fun none => by rw [none] at h; cases h]
    exact Laid.heights h c List.mem_cons_self

theorem Laid.length_le {out : Frame} {pairs : List RowPair} {columns : List Column}
    (hout : Frame.ofColumns columns = .ok out)
    (h : List.Forall₂ (Laid l r pairs) (s.layout l.names r.names) columns)
    (wide : s.layout l.names r.names ≠ []) : pairs.length ≤ Frame.maxRows := by
  obtain ⟨outColumns, outHeight⟩ := Laid.height hout h
  rw [if_neg wide] at outHeight
  rw [← outHeight]
  refine (Frame.rectangular_ofColumns hout).limit fun none => wide ?_
  rwa [← outColumns, none, List.forall₂_nil_right_iff] at h

theorem assemble_pruned_ok (hl' : l'.Rectangular) {k' : Keys} (hk' : keys l' r' s = .ok k')
    {pairs : List RowPair} (limit : s.layout l'.names r'.names ≠ [] → pairs.length ≤ Frame.maxRows) :
    ∃ out', assemble l' r' s pairs = .ok out' := by
  obtain ⟨columns, hcolumns⟩ := mapM_ok fun c hc => outputColumn_ok pairs (sourced_layout (keys_eq_ok hk').1 c hc)
  have laid : List.Forall₂ (Laid l' r' pairs) (s.layout l'.names r'.names) columns := mapM_eq_ok.1 hcolumns
  have names : (columns.map (·.name)).Nodup :=
    Laid.names laid ▸ JoinColumn.names_layout_nodup hl'.names r'.names s.leftOn s.rightOn s.kind s.suffix
  obtain ⟨out', hout', -⟩ := Frame.ofColumns_ok names (Laid.heights laid) fun nonempty => limit fun none => nonempty (by
    rwa [none, List.forall₂_nil_left_iff] at laid)
  exact ⟨out', assemble_eq_ok.2 ⟨columns, hout', laid⟩⟩

theorem Laid.kept (nodup : r.names.Nodup) (left : l.Offers (s.needs l.names r.names required).1 l')
    (right : r.Offers (s.needs l.names r.names required).2 r')
    (keeps : s.Keeps required l.names r.names l'.names r'.names) {pairs : List RowPair} {columns' : List Column}
    (laid' : List.Forall₂ (Laid l' r' pairs) (s.layout l'.names r'.names) columns') {c : JoinColumn}
    (hc : c ∈ s.layout l.names r.names) (need : c.name ∈ required) {d : Column} (hd : Laid l r pairs c d) :
    ∃ d' ∈ columns', d.name = d'.name ∧ d.Alike d' := by
  have pruned : s.Pruned required l.names r.names l'.names r'.names :=
    ⟨fun _ => left.named, fun _ => right.named⟩
  have needed := @JoinColumn.needed_of_required _ (JoinColumn.effectiveSuffix s.suffix) _ _ hc need
  obtain ⟨d', hd', laid⟩ := exists_right laid' c (pruned.required_kept nodup keeps hc need)
  obtain ⟨e, he, same, alike⟩ := outputColumn_alike left right pairs (c := c) (by
    cases side : c.side with
    | left => exact JoinSpec.mem_needs_left needed side
    | right => exact JoinSpec.mem_needs_right needed side)
    (fun key hkey => JoinSpec.mem_needs_fallback needed hkey) d hd
  obtain rfl : e = d' := Except.ok.inj (he.symm.trans laid)
  exact ⟨e, hd', same, alike⟩

theorem joined_offers (host : Host) (hl : l.Sane) (hr : r.Sane) (hl' : l'.Sane) (hr' : r'.Sane)
    (left : l.Offers (s.needs l.names r.names required).1 l')
    (right : r.Offers (s.needs l.names r.names required).2 r')
    (keeps : s.Keeps required l.names r.names l'.names r'.names) :
    Follows (Frame.Offers required) (joined host l r s) (joined host l' r' s) := by
  intro out h
  obtain ⟨valid, k, hk, hout⟩ := joined_eq_ok.1 h
  have leftKeys : l.Offers s.leftOn l' := left.mono fun n hn => List.mem_append_left _ hn
  have rightKeys : r.Offers s.rightOn r' :=
    right.mono fun n hn => List.mem_append_left _ (List.mem_append_left _ hn)
  obtain ⟨k', hk', alike⟩ := keys_alike leftKeys rightKeys k hk
  have pairs := rowPairs_alike host hl.toRectangular hr.toRectangular hl'.toRectangular hr'.toRectangular
    ⟨left.height, right.height⟩ valid hk hk' alike
  obtain ⟨columns, hcolumns, laid⟩ := assemble_eq_ok.1 hout
  obtain ⟨outColumns, outHeight⟩ := Laid.height hcolumns laid
  obtain ⟨out', hout'⟩ := assemble_pruned_ok hl'.toRectangular hk' fun wide' =>
    Laid.length_le hcolumns laid fun none => wide' (keeps.columns.2 none)
  have joined' : joined host l' r' s = .ok out' := joined_eq_ok.2 ⟨valid, k', hk', pairs ▸ hout'⟩
  obtain ⟨columns', hcolumns', laid'⟩ := assemble_eq_ok.1 hout'
  obtain ⟨outColumns', outHeight'⟩ := Laid.height hcolumns' laid'
  refine ⟨out', joined', ?_, fun n hn d hd => ?_⟩
  · rw [outHeight, outHeight']
    by_cases none : s.layout l.names r.names = []
    · rw [if_pos none, if_pos (keeps.columns.2 none)]
    · rw [if_neg none, if_neg fun h => none (keeps.columns.1 h)]
  · have name := Frame.name_of_column? hd
    obtain ⟨c, hc, hcd⟩ := exists_left laid d (outColumns ▸ Frame.mem_of_column? hd)
    have need : c.name ∈ required := by
      rw [← (outputColumn_shape hcd).1, name]
      exact hn
    obtain ⟨e, he, same, alike⟩ := Laid.kept hr.names left right keeps laid' hc need hcd
    refine ⟨e, ?_, alike⟩
    rw [← name, same]
    exact (joined_sane hl' hr' joined').toRectangular.column? (outColumns' ▸ he)

end Join

end Columnar
