import Columnar.Pass.Pruning
import Columnar.Proofs.Naming

namespace Columnar.JoinColumn

theorem freshName_spec {suffix : String} (h : suffix ≠ "") (taken : List String) (name : String) :
    ∃ k, freshName taken suffix name = suffixed name suffix k ∧ suffixed name suffix k ∉ taken ∧
      ∀ j < k, suffixed name suffix j ∈ taken := by
  obtain ⟨x, hx, fresh⟩ := exists_fresh (@suffixed_injective name suffix h) taken 0
  rw [← List.range_eq_range'] at hx
  obtain ⟨i, hi, rfl⟩ := List.mem_map.1 hx
  obtain ⟨k, hk⟩ := Option.isSome_iff_exists.1
    (List.find?_isSome.2 ⟨i, hi, by simpa using fresh⟩ :
      ((List.range (taken.length + 1)).find? fun k => !taken.contains (suffixed name suffix k)).isSome)
  refine ⟨k, ?_, ?_⟩
  · rw [freshName, List.find?_map]
    change (Option.map _ ((List.range (taken.length + 1)).find? fun k =>
      !taken.contains (suffixed name suffix k))).getD name = _
    rw [hk]
    rfl
  · obtain ⟨free, -, least⟩ := List.find?_range_eq_some.1 hk
    exact ⟨by simpa using free, fun j hj => by simpa using least j hj⟩

theorem freshName_congr {suffix : String} (h : suffix ≠ "") {taken taken' : List String} {name : String}
    (same : ∀ k, suffixed name suffix k ∈ taken ↔ suffixed name suffix k ∈ taken') :
    freshName taken suffix name = freshName taken' suffix name := by
  obtain ⟨k, hk, free, least⟩ := freshName_spec h taken name
  obtain ⟨k', hk', free', least'⟩ := freshName_spec h taken' name
  rw [hk, hk']
  rcases Nat.lt_trichotomy k k' with hlt | rfl | hlt
  · exact absurd ((same k).2 (least' k hlt)) free
  · rfl
  · exact absurd ((same k').1 (least k' hlt)) free'

/-- Two names that are one with suffixes added to both. -/
def Chained (suffix a b : String) : Prop := ∃ m n, suffixed a suffix m = suffixed b suffix n

theorem suffixed_add (name suffix : String) (m n : Nat) :
    suffixed (suffixed name suffix m) suffix n = suffixed name suffix (m + n) := by
  induction n with
  | zero => rfl
  | succ n ih => rw [suffixed, ih, Nat.add_succ, suffixed]

namespace Chained

variable {suffix a b c : String}

theorem symm (h : Chained suffix a b) : Chained suffix b a := by
  obtain ⟨m, n, h⟩ := h
  exact ⟨n, m, h.symm⟩

theorem trans (h : Chained suffix a b) (h' : Chained suffix b c) : Chained suffix a c := by
  obtain ⟨m, n, h⟩ := h
  obtain ⟨p, q, h'⟩ := h'
  refine ⟨m + p, q + n, ?_⟩
  rw [← suffixed_add, h, suffixed_add, Nat.add_comm n p, ← suffixed_add, h', suffixed_add]

theorem suffixed_right (suffix a : String) (n : Nat) : Chained suffix a (suffixed a suffix n) :=
  ⟨n, 0, rfl⟩

theorem exists_suffixed (h : Chained suffix a b) :
    (∃ k, a = suffixed b suffix k) ∨ ∃ k, b = suffixed a suffix k := by
  obtain ⟨m, n, h⟩ := h
  have cancel (x y : String) (h : x ++ suffix = y ++ suffix) : x = y := String.append_left_inj _ |>.1 h
  induction m generalizing n with
  | zero => exact .inl ⟨n, h⟩
  | succ m ih =>
    cases n with
    | zero => exact .inr ⟨m + 1, h.symm⟩
    | succ n => exact ih n (cancel _ _ h)

end Chained

theorem stripSuffix?_append (suffix rest : List Char) : stripSuffix? suffix (rest ++ suffix) = some rest := by
  have : suffix.isSuffixOf (rest ++ suffix) := List.isSuffixOf_iff_suffix.2 (List.suffix_append ..)
  simp [stripSuffix?, this]

theorem append_of_stripSuffix? {suffix name rest : List Char} (h : stripSuffix? suffix name = some rest) :
    name = rest ++ suffix := by
  unfold stripSuffix? at h
  split at h
  next ends =>
    obtain ⟨front, rfl⟩ := List.isSuffixOf_iff_suffix.1 ends
    cases h
    simp
  · cases h

theorem inChain_suffixed {suffix : String} (h : suffix ≠ "") (base : String) (k : Nat) :
    inChain (suffixed base suffix k) base suffix := by
  induction k with
  | zero => simp [inChain, suffixed, chained]
  | succ k ih =>
    rw [inChain, suffixed, String.toList_append, chained]
    split
    · rfl
    · rw [stripSuffix?_append]
      have pos : suffix.toList.length ≠ 0 := by simpa using h
      have shorter : (suffixed base suffix k).toList.length <
          ((suffixed base suffix k).toList ++ suffix.toList).length := by
        rw [List.length_append]
        omega
      simp only [shorter, ↓reduceDIte]
      exact ih

theorem exists_of_chained {suffix base : String} {name : List Char}
    (h : chained suffix.toList base.toList name) : ∃ k, name = (suffixed base suffix k).toList := by
  induction name using chained.induct suffix.toList base.toList with
  | case1 name same => exact ⟨0, by simpa [suffixed] using same⟩
  | case2 name other none =>
    rw [chained, if_neg other, none] at h
    cases h
  | case3 name other rest strip shorter ih =>
    rw [chained, if_neg other, strip] at h
    simp only [shorter, ↓reduceDIte] at h
    obtain ⟨k, hk⟩ := ih h
    exact ⟨k + 1, by rw [append_of_stripSuffix? strip, hk, suffixed, String.toList_append]⟩
  | case4 name other rest strip longer =>
    rw [chained, if_neg other, strip] at h
    simp only [longer, ↓reduceDIte] at h
    cases h

def linked (suffix a b : String) : Bool := inChain a b suffix || inChain b a suffix

theorem linked_iff {suffix a b : String} (h : suffix ≠ "") : linked suffix a b ↔ Chained suffix a b := by
  rw [linked, Bool.or_eq_true]
  constructor
  · rintro (hab | hba)
    · obtain ⟨k, hk⟩ := exists_of_chained hab
      rw [String.toList_inj.1 hk]
      exact (Chained.suffixed_right suffix b k).symm
    · obtain ⟨k, hk⟩ := exists_of_chained hba
      rw [String.toList_inj.1 hk]
      exact Chained.suffixed_right suffix a k
  · intro hab
    rcases hab.exists_suffixed with ⟨k, rfl⟩ | ⟨k, rfl⟩
    · exact .inl (inChain_suffixed h b k)
    · exact .inr (inChain_suffixed h a k)

variable {suffix : String} {shared : List String}

theorem rightColumns_filter (h : suffix ≠ "") {p : String → Bool} {taken taken' right : List String}
    (same : ∀ c ∈ right, c ∉ shared → p c → ∀ n, Chained suffix n c → (n ∈ taken ↔ n ∈ taken'))
    (apart : ∀ c ∈ right, c ∉ shared → p c → ∀ d ∈ right, d ∉ shared → ¬p d → ¬Chained suffix d c) :
    rightColumns shared suffix taken' (right.filter p) =
      (rightColumns shared suffix taken right).filter (p ·.source) := by
  induction right generalizing taken taken' with
  | nil => rfl
  | cons c cs ih =>
    have apart' : ∀ c ∈ cs, c ∉ shared → p c → ∀ d ∈ cs, d ∉ shared → ¬p d → ¬Chained suffix d c :=
      fun x hx sx px d hd => apart x (List.mem_cons_of_mem _ hx) sx px d (List.mem_cons_of_mem _ hd)
    by_cases hs : c ∈ shared
    · rw [rightColumns_cons_shared hs, ← ih (fun x hx => same x (List.mem_cons_of_mem _ hx)) apart', List.filter_cons]
      split
      · exact rightColumns_cons_shared hs ..
      · rfl
    · rw [rightColumns_cons hs]
      by_cases hc : p c
      · have mine : freshName taken suffix c = freshName taken' suffix c :=
          freshName_congr h fun k => same c List.mem_cons_self hs hc _ (Chained.suffixed_right suffix c k).symm
        rw [List.filter_cons_of_pos hc, List.filter_cons_of_pos (by simpa using hc), rightColumns_cons hs, ← mine]
        refine congrArg _ (ih (fun x hx sx px n hn => ?_) apart')
        rw [List.mem_cons, List.mem_cons, same x (List.mem_cons_of_mem _ hx) sx px n hn]
      · rw [List.filter_cons_of_neg hc, List.filter_cons_of_neg (by simpa using hc)]
        refine ih (fun x hx sx px n hn => ?_) apart'
        have hx := List.mem_cons_of_mem c hx
        rw [List.mem_cons, ← same x hx sx px n hn]
        -- The name of a column that is left out is in no chain of one that stays.
        refine ⟨fun hn' => hn'.resolve_left ?_, .inr⟩
        rintro rfl
        obtain ⟨k, hk, -, -⟩ := freshName_spec h taken c
        rw [hk] at hn
        exact apart x hx sx px c List.mem_cons_self hs hc ((Chained.suffixed_right suffix c k).trans hn)

/-- The columns of a chain get the names that they would get without the others. -/
theorem rightColumns_chain (h : suffix ≠ "") (x : String) {taken taken' : List String}
    (same : ∀ n, Chained suffix n x → (n ∈ taken ↔ n ∈ taken')) (right : List String) :
    (rightColumns shared suffix taken right).filter (linked suffix ·.source x) =
      rightColumns shared suffix taken' (right.filter (linked suffix · x)) := by
  have chain {c : String} (hc : linked suffix c x) : Chained suffix c x := (linked_iff h).1 hc
  refine (rightColumns_filter h (fun c _ _ hc n hn => same n (hn.trans (chain hc))) ?_).symm
  exact fun c _ _ hc d _ _ hd link => hd ((linked_iff h).2 (link.trans (chain hc)))

theorem rightColumns_unshared (taken right : List String) :
    rightColumns shared suffix taken right =
      rightColumns shared suffix taken (right.filter (!shared.contains ·)) := by
  induction right generalizing taken with
  | nil => rfl
  | cons c cs ih =>
    by_cases hs : c ∈ shared
    · rw [rightColumns_cons_shared hs, List.filter_cons_of_neg (by simpa using hs), ih]
    · rw [rightColumns_cons hs, List.filter_cons_of_pos (by simpa using hs), rightColumns_cons hs, ← ih]

theorem filter_eq_of_sublist {p : String → Bool} {xs ys : List String} (nodup : xs.Nodup)
    (order : (ys.filter p).Sublist xs) (all : ∀ x ∈ xs, p x → x ∈ ys) : ys.filter p = xs.filter p := by
  have sub : (ys.filter p).Sublist (xs.filter p) := by
    simpa [List.filter_filter] using order.filter p
  refine sub.eq_of_length_le (List.Nodup.subperm (nodup.filter p) fun x hx => ?_).length_le
  obtain ⟨hx, hp⟩ := List.mem_filter.1 hx
  exact List.mem_filter.2 ⟨all x hx hp, hp⟩

end Columnar.JoinColumn
