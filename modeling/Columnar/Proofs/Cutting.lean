import Columnar.Proofs.Keeping

namespace Columnar

namespace JoinColumn

/-- Suffixes are taken off until the base is left, or else what does not end in one. -/
inductive Searches (suffix base : List Char) : List Char → Bool → Prop
  | same : Searches suffix base base true
  | ends {name : List Char} (other : name ≠ base) (strip : stripSuffix? suffix name = none) :
    Searches suffix base name false
  | again {name rest : List Char} {found : Bool} (other : name ≠ base) (strip : stripSuffix? suffix name = some rest)
    (more : Searches suffix base rest found) : Searches suffix base name found

theorem searches_chained {suffix : List Char} (h : suffix ≠ []) (base name : List Char) :
    Searches suffix base name (chained suffix base name) := by
  fun_induction chained suffix base name with
  | case1 name same => exact beq_iff_eq.1 same ▸ .same
  | case2 name other strip => exact .ends (fun eq => other (beq_iff_eq.2 eq)) strip
  | case3 name other rest strip shorter ih => exact .again (fun eq => other (beq_iff_eq.2 eq)) strip ih
  | case4 name other rest strip longer =>
    refine absurd ?_ longer
    have pos := List.length_pos_of_ne_nil h
    rw [append_of_stripSuffix? strip, List.length_append]
    omega

theorem inChain_iff {suffix : String} (h : suffix ≠ "") (name base : String) :
    inChain name base suffix ↔ ∃ k, name = suffixed base suffix k := by
  constructor
  · intro hc
    obtain ⟨k, hk⟩ := exists_of_chained hc
    exact ⟨k, String.toList_inj.1 hk⟩
  · rintro ⟨k, rfl⟩
    exact inChain_suffixed h base k

end JoinColumn

namespace JoinSpec

open JoinColumn (effectiveSuffix effectiveSuffix_ne_empty inChain inChain_iff suffixed Searches searches_chained)

variable {s : JoinSpec} {left right required : List String}

def asks (s : JoinSpec) (left right required : List String) (c : JoinColumn) : Bool :=
  match c.side with
  | .left => (s.needs left right required).1.contains c.source
  | .right => (s.needs left right required).2.contains c.source

def cut (s : JoinSpec) (left right required : List String) : List String × List String :=
  (left.filter ((s.needs left right required).1.contains ·), right.filter ((s.needs left right required).2.contains ·))

theorem asks_of_needed {c : JoinColumn}
    (h : c ∈ JoinColumn.neededColumns required (effectiveSuffix s.suffix) (s.layout left right)) :
    s.asks left right required c := by
  unfold asks
  cases side : c.side with
  | left => exact List.contains_iff_mem.2 (mem_needs_left h side)
  | right => exact List.contains_iff_mem.2 (mem_needs_right h side)

theorem apart_of_not_asks {c d : JoinColumn} (hc : c ∈ s.layout left right) (hd : d ∈ s.layout left right)
    (ne : d ≠ c) (out : ¬s.asks left right required d) :
    ¬JoinColumn.Chained (effectiveSuffix s.suffix) d.source c.source := fun link =>
  out (asks_of_needed (JoinColumn.needed_of_linked hd hc ne
    ((JoinColumn.linked_iff (effectiveSuffix_ne_empty s.suffix)).2 link)))

theorem layout_cut (s : JoinSpec) (left right required : List String) :
    s.layout (s.cut left right required).1 (s.cut left right required).2 =
      (s.layout left right).filter (s.asks left right required) := by
  have lefts : JoinColumn.leftColumns (JoinColumn.sharedKeys s.leftOn s.rightOn) s.kind (s.cut left right required).1 =
      (JoinColumn.leftColumns (JoinColumn.sharedKeys s.leftOn s.rightOn) s.kind left).filter
        (s.asks left right required) := by
    rw [JoinColumn.leftColumns, JoinColumn.leftColumns, List.filter_map]
    rfl
  have rights : (JoinColumn.rightColumns (JoinColumn.sharedKeys s.leftOn s.rightOn) (effectiveSuffix s.suffix) left
      right).filter (s.asks left right required) =
        (JoinColumn.rightColumns (JoinColumn.sharedKeys s.leftOn s.rightOn) (effectiveSuffix s.suffix) left
          right).filter ((s.needs left right required).2.contains ·.source) := by
    refine List.filter_congr fun c hc => ?_
    rw [asks, (JoinColumn.mem_rightColumns hc).1]
  rw [layout, layout, JoinColumn.layout, JoinColumn.layout, lefts, List.filter_append, rights]
  refine congrArg _ (JoinColumn.rightColumns_filter (effectiveSuffix_ne_empty s.suffix) ?_ ?_)
  · intro x hx hs _ n link
    rw [cut, List.mem_filter, iff_self_and]
    intro hn
    obtain ⟨c, hc, rfl, sideC⟩ := @exists_layout_right s left right x hx hs
    obtain ⟨d, hd, rfl, sideD⟩ := @exists_layout_left s left right n hn
    by_contra out
    refine apart_of_not_asks hc hd ?_ (by rwa [asks, sideD]) link
    rintro rfl
    rw [sideD] at sideC
    cases sideC
  · intro x hx hs kept y hy hsy out link
    obtain ⟨c, hc, rfl, -⟩ := @exists_layout_right s left right x hx hs
    obtain ⟨d, hd, rfl, sideD⟩ := @exists_layout_right s left right y hy hsy
    refine apart_of_not_asks hc hd ?_ (by rwa [asks, sideD]) link
    rintro rfl
    exact out kept

/-- Sides that are cut to what they are asked for give the required columns under their names, and with them those
that they are asked for besides. The chains that this rests on are found by a search that ends. -/
theorem cut_keeps (s : JoinSpec) (left right required : List String) :
    s.layout (s.cut left right required).1 (s.cut left right required).2 =
        (s.layout left right).filter (s.asks left right required) ∧
      (∀ c ∈ s.layout left right, c.name ∈ required →
        c ∈ s.layout (s.cut left right required).1 (s.cut left right required).2) ∧
      ∀ name base : String,
        Searches (effectiveSuffix s.suffix).toList base.toList name.toList
            (inChain name base (effectiveSuffix s.suffix)) ∧
          (inChain name base (effectiveSuffix s.suffix) ↔ ∃ k, name = suffixed base (effectiveSuffix s.suffix) k) := by
  have nonempty := effectiveSuffix_ne_empty s.suffix
  refine ⟨layout_cut s left right required, fun c hc need => ?_, fun name base => ⟨?_, inChain_iff nonempty name base⟩⟩
  · rw [layout_cut]
    exact List.mem_filter.2 ⟨hc, asks_of_needed (JoinColumn.needed_of_required hc need)⟩
  · exact searches_chained (by simpa using nonempty) base.toList name.toList

def idJoin : JoinSpec := ⟨.inner, ["id"], ["id"], ""⟩

theorem cut_keeps_suffixes :
    idJoin.cut ["id", "v", "v_right", "x"] ["id", "v", "y"] ["v_right_right"] = (["id", "v", "v_right"], ["id", "v"]) ∧
      ⟨.right, "v", "v_right_right", none⟩ ∈ idJoin.layout ["id", "v", "v_right"] ["id", "v"] := by
  have cut : idJoin.cut ["id", "v", "v_right", "x"] ["id", "v", "y"] ["v_right_right"] =
      (["id", "v", "v_right"], ["id", "v"]) := by
    decide +kernel
  obtain ⟨-, kept, -⟩ := cut_keeps idJoin ["id", "v", "v_right", "x"] ["id", "v", "y"] ["v_right_right"]
  rw [cut] at kept
  exact ⟨cut, kept _ (by decide +kernel) (by decide)⟩

end JoinSpec

end Columnar
