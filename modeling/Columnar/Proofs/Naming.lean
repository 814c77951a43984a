import Columnar.Join.Layout
import Mathlib.Data.List.Nodup
import Mathlib.Data.List.Perm.Subperm

namespace Columnar

theorem exists_fresh {f : Nat → α} (hf : Function.Injective f) (taken : List α) (start : Nat) :
    ∃ x ∈ (List.range' start (taken.length + 1)).map f, x ∉ taken := by
  by_contra hall
  have subset : (List.range' start (taken.length + 1)).map f ⊆ taken := fun x hx => by
    by_contra h
    exact hall ⟨x, hx, h⟩
  have nodup : ((List.range' start (taken.length + 1)).map f).Nodup :=
    List.Nodup.map hf (List.nodup_range' 1)
  have := (List.subperm_of_subset nodup subset).length_le
  simp only [List.length_map, List.length_range'] at this
  omega

namespace JoinColumn

theorem effectiveSuffix_ne_empty (suffix : String) : effectiveSuffix suffix ≠ "" := by
  unfold effectiveSuffix
  split
  · decide
  next h => simpa using h

theorem length_suffixed (name suffix : String) (n : Nat) :
    (suffixed name suffix n).length = name.length + n * suffix.length := by
  induction n with
  | zero => simp [suffixed]
  | succ n ih => rw [suffixed, String.length_append, ih, Nat.add_one_mul, Nat.add_assoc]

theorem suffixed_injective {name suffix : String} (h : suffix ≠ "") :
    Function.Injective (suffixed name suffix) := by
  intro m n he
  have length := congrArg String.length he
  rw [length_suffixed, length_suffixed] at length
  have pos : 0 < suffix.length := Nat.pos_of_ne_zero fun h0 => h (String.length_eq_zero_iff.1 h0)
  exact Nat.eq_of_mul_eq_mul_right pos (Nat.add_left_cancel length)

theorem freshName_not_mem {suffix : String} (h : suffix ≠ "") (taken : List String) (name : String) :
    freshName taken suffix name ∉ taken := by
  obtain ⟨x, hx, fresh⟩ := exists_fresh (@suffixed_injective name suffix h) taken 0
  rw [← List.range_eq_range'] at hx
  obtain ⟨y, hy⟩ := Option.isSome_iff_exists.1
    (List.find?_isSome.2 ⟨x, hx, by simpa using fresh⟩ :
      (((List.range (taken.length + 1)).map (suffixed name suffix)).find? (!taken.contains ·)).isSome)
  rw [freshName, hy, Option.getD_some]
  simpa using List.find?_some hy

section

variable {shared : List String} {suffix c : String}

theorem rightColumns_cons_shared (hs : c ∈ shared) (taken cs : List String) :
    rightColumns shared suffix taken (c :: cs) = rightColumns shared suffix taken cs :=
  if_pos (by simpa using hs)

theorem rightColumns_cons (hs : c ∉ shared) (taken cs : List String) :
    rightColumns shared suffix taken (c :: cs) =
      ⟨.right, c, freshName taken suffix c, none⟩ ::
        rightColumns shared suffix (freshName taken suffix c :: taken) cs :=
  if_neg (by simpa using hs)

end

theorem sources_rightColumns (shared : List String) (suffix : String) (taken right : List String) :
    (rightColumns shared suffix taken right).map (·.source) = right.filter (!shared.contains ·) := by
  induction right generalizing taken with
  | nil => rfl
  | cons c cs ih =>
    by_cases hs : c ∈ shared
    · rw [rightColumns_cons_shared hs, List.filter_cons_of_neg (by simpa using hs), ih]
    · rw [rightColumns_cons hs, List.filter_cons_of_pos (by simpa using hs), List.map_cons, ih]

theorem rightColumns_fresh (shared : List String) {suffix : String} (h : suffix ≠ "")
    (taken right : List String) :
    ((rightColumns shared suffix taken right).map (·.name)).Nodup ∧
      ∀ c ∈ rightColumns shared suffix taken right, c.name ∉ taken := by
  induction right generalizing taken with
  | nil => simp [rightColumns]
  | cons c cs ih =>
    by_cases hs : c ∈ shared
    · rw [rightColumns_cons_shared hs]
      exact ih taken
    · rw [rightColumns_cons hs]
      obtain ⟨nodup, fresh⟩ := ih (freshName taken suffix c :: taken)
      simp only [List.mem_cons, not_or] at fresh
      rw [List.map_cons, List.nodup_cons, List.forall_mem_cons]
      refine ⟨⟨fun hmem => ?_, nodup⟩, freshName_not_mem h taken c, fun d hd => (fresh d hd).2⟩
      obtain ⟨d, hd, name⟩ := List.mem_map.1 hmem
      exact (fresh d hd).1 name

theorem names_leftColumns (shared : List String) (kind : JoinKind) (left : List String) :
    (leftColumns shared kind left).map (·.name) = left := by
  simp [leftColumns, Function.comp_def]

theorem names_layout_nodup {left : List String} (h : left.Nodup) (right leftOn rightOn : List String)
    (kind : JoinKind) (suffix : String) :
    ((layout left right leftOn rightOn kind suffix).map (·.name)).Nodup := by
  obtain ⟨nodup, fresh⟩ := rightColumns_fresh (sharedKeys leftOn rightOn)
    (effectiveSuffix_ne_empty suffix) left right
  rw [layout, List.map_append, names_leftColumns, List.nodup_append]
  refine ⟨h, nodup, fun a ha b hb hab => ?_⟩
  obtain ⟨c, hc, rfl⟩ := List.mem_map.1 hb
  exact fresh c hc (hab ▸ ha)

theorem mem_sharedKeys {leftOn rightOn : List String} {key : String} :
    key ∈ sharedKeys leftOn rightOn ↔ (key, key) ∈ leftOn.zip rightOn := by
  simp only [sharedKeys, List.mem_filterMap, Prod.exists]
  constructor
  · rintro ⟨a, b, hab, h⟩
    split at h
    next heq =>
      cases h
      exact heq ▸ hab
    · cases h
  · exact fun h => ⟨key, key, h, if_pos rfl⟩

theorem mem_rightColumns {shared : List String} {suffix : String} {taken right : List String}
    {c : JoinColumn} (h : c ∈ rightColumns shared suffix taken right) :
    c.side = .right ∧ c.source ∈ right ∧ c.source ∉ shared ∧ c.fallback = none := by
  induction right generalizing taken with
  | nil => cases h
  | cons d ds ih =>
    by_cases hs : d ∈ shared
    · rw [rightColumns_cons_shared hs] at h
      obtain ⟨side, source, rest⟩ := ih h
      exact ⟨side, List.mem_cons_of_mem d source, rest⟩
    · rw [rightColumns_cons hs] at h
      rcases List.mem_cons.1 h with rfl | h
      · exact ⟨rfl, List.mem_cons_self, hs, rfl⟩
      · obtain ⟨side, source, rest⟩ := ih h
        exact ⟨side, List.mem_cons_of_mem d source, rest⟩

theorem mem_leftColumns {shared : List String} {kind : JoinKind} {left : List String} {c : JoinColumn}
    (h : c ∈ leftColumns shared kind left) :
    c.side = .left ∧ c.source ∈ left ∧ c.name = c.source ∧
      ∀ key, c.fallback = some key → key = c.source ∧ key ∈ shared ∧ kind.keepsRight := by
  obtain ⟨name, hname, rfl⟩ := List.mem_map.1 h
  refine ⟨rfl, hname, rfl, fun key hkey => ?_⟩
  dsimp only at hkey
  split at hkey
  next hk =>
    cases hkey
    rw [Bool.and_eq_true] at hk
    exact ⟨rfl, by simpa using hk.2, hk.1⟩
  · cases hkey

section

variable {left right leftOn rightOn : List String} {kind : JoinKind} {suffix : String} {c : JoinColumn}
  (h : c ∈ layout left right leftOn rightOn kind suffix)

include h

theorem mem_leftColumns_of_side (side : c.side = .left) : c ∈ leftColumns (sharedKeys leftOn rightOn) kind left := by
  rcases List.mem_append.1 h with hc | hc
  · exact hc
  · rw [(mem_rightColumns hc).1] at side
    cases side

theorem mem_rightColumns_of_side (side : c.side = .right) :
    c ∈ rightColumns (sharedKeys leftOn rightOn) (effectiveSuffix suffix) left right := by
  rcases List.mem_append.1 h with hc | hc
  · rw [(mem_leftColumns hc).1] at side
    cases side
  · exact hc

end

end JoinColumn

end Columnar
