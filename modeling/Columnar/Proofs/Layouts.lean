import Columnar.Proofs.Chains

namespace Columnar.JoinColumn

/-- The suffix is added for as long as the name is taken, and this ends at the second name. -/
inductive Settles (taken : List String) (suffix : String) : String → String → Prop
  | free {name : String} (h : name ∉ taken) : Settles taken suffix name name
  | again {name out : String} (h : name ∈ taken) (rest : Settles taken suffix (name ++ suffix) out) :
    Settles taken suffix name out

theorem suffixed_append (name suffix : String) (n : Nat) :
    suffixed (name ++ suffix) suffix n = suffixed name suffix (n + 1) := by
  rw [Nat.add_comm, ← suffixed_add]
  rfl

theorem settles_of_least {taken : List String} {suffix name : String} {n : Nat}
    (free : suffixed name suffix n ∉ taken) (least : ∀ k < n, suffixed name suffix k ∈ taken) :
    Settles taken suffix name (suffixed name suffix n) := by
  induction n generalizing name with
  | zero => exact .free free
  | succ n ih =>
    rw [← suffixed_append] at free ⊢
    exact .again (least 0 n.succ_pos) (ih free fun k hk => suffixed_append name suffix k ▸ least (k + 1) (by omega))

/-- A source with the least number of suffixes that makes it no used name. -/
def LeastFree (used : List String) (suffix source name : String) : Prop :=
  ∃ n, name = suffixed source suffix n ∧ name ∉ used ∧ ∀ k < n, suffixed source suffix k ∈ used

theorem LeastFree.settles {used : List String} {suffix source name : String} (h : LeastFree used suffix source name) :
    Settles used suffix source name := by
  obtain ⟨n, rfl, free, least⟩ := h
  exact settles_of_least free least

theorem freshName_leastFree {suffix : String} (h : suffix ≠ "") (taken : List String) (name : String) :
    LeastFree taken suffix name (freshName taken suffix name) := by
  obtain ⟨n, hn, free, least⟩ := freshName_spec h taken name
  exact ⟨n, hn, hn ▸ free, least⟩

theorem LeastFree.congr {used used' : List String} {suffix source name : String} (h : LeastFree used suffix source name)
    (same : ∀ x, x ∈ used ↔ x ∈ used') : LeastFree used' suffix source name := by
  obtain ⟨n, hn, free, least⟩ := h
  exact ⟨n, hn, fun taken => free ((same _).2 taken), fun k hk => (same _).1 (least k hk)⟩

variable {shared taken right : List String} {suffix : String}

theorem name_rightColumns {i : Nat} {c : JoinColumn} (h : (rightColumns shared suffix taken right)[i]? = some c) :
    c.name = freshName ((((rightColumns shared suffix taken right).take i).map (·.name)).reverse ++ taken) suffix
      c.source := by
  induction right generalizing taken i with
  | nil => cases h
  | cons d ds ih =>
    by_cases hs : d ∈ shared
    · rw [rightColumns_cons_shared hs] at h ⊢
      exact ih h
    · rw [rightColumns_cons hs] at h ⊢
      cases i with
      | zero =>
        cases h
        rfl
      | succ i =>
        rw [ih h]
        simp

theorem leastFree_rightColumns (h : suffix ≠ "") {i : Nat} {c : JoinColumn}
    (hc : (rightColumns shared suffix taken right)[i]? = some c) :
    LeastFree (taken ++ ((rightColumns shared suffix taken right).take i).map (·.name)) suffix c.source c.name := by
  have least := freshName_leastFree h
    ((((rightColumns shared suffix taken right).take i).map (·.name)).reverse ++ taken) c.source
  rw [← name_rightColumns hc] at least
  exact least.congr fun x => by rw [List.mem_append, List.mem_append, List.mem_reverse, or_comm]

/-- The layout of a join: the left columns in order under their own names, the shared keys of a right or outer join
with the right key to stand in; then the right columns that are no shared keys, in order, each under the name at
which adding the suffix for as long as the name is taken ends. No two columns have one name. -/
theorem layout_spec {left right : List String} (hl : left.Nodup) (hr : right.Nodup) (leftOn rightOn : List String)
    (kind : JoinKind) (suffix : String) :
    ∃ rights : List JoinColumn,
      layout left right leftOn rightOn kind suffix =
        (left.map fun c => ⟨.left, c, c,
          if (kind = .right ∨ kind = .outer) ∧ (c, c) ∈ leftOn.zip rightOn then some c else none⟩) ++ rights ∧
      ((layout left right leftOn rightOn kind suffix).map (·.name)).Nodup ∧
      rights.map (·.source) = right.filter (fun c => (c, c) ∉ leftOn.zip rightOn) ∧
      (rights.map (·.source)).Nodup ∧
      ∀ i c, rights[i]? = some c →
        c.side = .right ∧ c.fallback = none ∧
        LeastFree (left ++ (rights.take i).map (·.name)) (effectiveSuffix suffix) c.source c.name ∧
        Settles (left ++ (rights.take i).map (·.name)) (effectiveSuffix suffix) c.source c.name := by
  have hs := effectiveSuffix_ne_empty suffix
  have sources : (rightColumns (sharedKeys leftOn rightOn) (effectiveSuffix suffix) left right).map (·.source) =
      right.filter (fun c => (c, c) ∉ leftOn.zip rightOn) := by
    rw [sources_rightColumns]
    refine List.filter_congr fun c _ => ?_
    simp [mem_sharedKeys]
  refine ⟨_, congrArg (· ++ _) (List.map_congr_left fun c _ => ?_), names_layout_nodup hl .., sources, ?_, ?_⟩
  · have coalesced : (kind.keepsRight && (sharedKeys leftOn rightOn).contains c) ↔
        (kind = .right ∨ kind = .outer) ∧ (c, c) ∈ leftOn.zip rightOn := by
      rw [Bool.and_eq_true, List.contains_iff_mem, mem_sharedKeys]
      exact and_congr_left fun _ => by cases kind <;> simp [JoinKind.keepsRight]
    rw [if_congr coalesced rfl rfl]
  · exact sources ▸ hr.filter _
  · intro i c hc
    obtain ⟨side, -, -, fallback⟩ := mem_rightColumns (List.mem_of_getElem? hc)
    have least := leastFree_rightColumns hs hc
    exact ⟨side, fallback, least, least.settles⟩

theorem layout_spec_chain :
    ∃ rights : List JoinColumn,
      layout ["k", "v", "v_right"] ["k", "v", "v_right"] ["k"] ["k"] .outer "" =
        [⟨.left, "k", "k", some "k"⟩, ⟨.left, "v", "v", none⟩,
          ⟨.left, "v_right", "v_right", none⟩] ++ rights ∧
      rights.map (·.name) = ["v_right_right", "v_right_right_right"] ∧
      ∀ i c, rights[i]? = some c →
        Settles (["k", "v", "v_right"] ++ (rights.take i).map (·.name)) "_right" c.source c.name := by
  obtain ⟨rights, columns, -, -, -, named⟩ :=
    @layout_spec ["k", "v", "v_right"] ["k", "v", "v_right"] (by decide) (by decide) ["k"] ["k"] .outer ""
  have laid : layout ["k", "v", "v_right"] ["k", "v", "v_right"] ["k"] ["k"] .outer "" =
      [⟨.left, "k", "k", some "k"⟩, ⟨.left, "v", "v", none⟩, ⟨.left, "v_right", "v_right", none⟩,
        ⟨.right, "v", "v_right_right", none⟩, ⟨.right, "v_right", "v_right_right_right", none⟩] := by
    decide +kernel
  refine ⟨rights, columns, ?_, fun i c hc => (named i c hc).2.2.2⟩
  rw [laid] at columns
  exact congrArg (fun cs => (cs.drop 3).map (·.name)) columns.symm

end Columnar.JoinColumn
