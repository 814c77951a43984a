import Columnar.Frame
import Columnar.Proofs.Groups
import Columnar.Proofs.Tokens
import Mathlib.Algebra.BigOperators.Group.Finset.Basic
import Mathlib.Algebra.Order.Ring.Nat

namespace Columnar.Grouping

/-- The rows so far, each with the number of the only group that has its key. -/
structure Seen (key : Nat → κ) (s : Array Nat × Array Nat) (n : Nat) : Prop where
  height : s.1.size = n
  ascending : s.2.toList.Pairwise (· < ·)
  below : ∀ row ∈ s.2, row < n
  distinct : ∀ g g' row row' : Nat, s.2[g]? = some row → s.2[g']? = some row' → key row = key row' → g = g'
  assigned : ∀ i < n, ∃ g row : Nat, s.1[i]? = some g ∧ s.2[g]? = some row ∧ row ≤ i ∧ key row = key i

section

variable {key : Nat → κ} {same : Nat → Nat → Bool} {ids firsts : Array Nat} {n g row : Nat}

theorem Seen.again (h : Seen key (ids, firsts) n) (found : firsts[g]? = some row) (eq : key row = key n) :
    Seen key (ids.push g, firsts) (n + 1) where
  height := by simp [h.height]
  ascending := h.ascending
  below r hr := Nat.lt_succ_of_lt (h.below r hr)
  distinct := h.distinct
  assigned i hi := by
    rw [Array.getElem?_push, h.height]
    by_cases hin : i = n
    · subst hin
      exact ⟨g, row, by simp, found, Nat.le_of_lt (h.below row (Array.mem_of_getElem? found)), eq⟩
    · rw [if_neg hin]
      exact h.assigned i (by omega)

theorem Seen.fresh (h : Seen key (ids, firsts) n) (new : ∀ row ∈ firsts, key row ≠ key n) :
    Seen key (ids.push firsts.size, firsts.push n) (n + 1) where
  height := by simp [h.height]
  ascending := by
    rw [Array.toList_push, List.pairwise_append]
    refine ⟨h.ascending, List.pairwise_singleton _ n, fun a ha b hb => ?_⟩
    rw [List.mem_singleton.1 hb]
    exact h.below a (Array.mem_def.2 ha)
  below r hr := by
    rcases Array.mem_push.1 hr with hr | rfl
    · exact Nat.lt_succ_of_lt (h.below r hr)
    · exact Nat.lt_succ_self r
  distinct a b r r' ha hb eq := by
    rw [Array.getElem?_push] at ha hb
    split at ha
    next hsa =>
      cases ha
      split at hb
      next hsb => rw [hsa, hsb]
      next => exact absurd eq.symm (new r' (Array.mem_of_getElem? hb))
    next =>
      split at hb
      next =>
        cases hb
        exact absurd eq (new r (Array.mem_of_getElem? ha))
      next => exact h.distinct a b r r' ha hb eq
  assigned i hi := by
    rw [Array.getElem?_push, h.height]
    by_cases hin : i = n
    · subst hin
      exact ⟨firsts.size, i, by simp, by simp, Nat.le_refl i, rfl⟩
    · rw [if_neg hin]
      obtain ⟨g, row, hg, hrow, le, eq⟩ := h.assigned i (by omega)
      refine ⟨g, row, hg, ?_, le, eq⟩
      have hgs : g ≠ firsts.size := fun he => by simp [he] at hrow
      rw [Array.getElem?_push, if_neg hgs, hrow]

theorem Seen.place {s : Array Nat × Array Nat} (h : Seen key s n) (decides : ∀ i < n, same i n ↔ key i = key n) :
    Seen key (place same s n) (n + 1) := by
  obtain ⟨ids, firsts⟩ := s
  unfold Grouping.place
  cases hfind : (numbered firsts).find? fun p => same p.2 n with
  | some p =>
    have first := mem_numbered.1 (List.mem_of_find?_eq_some hfind)
    have eq : same p.2 n := List.find?_some (p := fun p : Nat × Nat => same p.2 n) hfind
    exact h.again first ((decides p.2 (h.below _ (Array.mem_of_getElem? first))).1 eq)
  | none =>
    refine h.fresh fun row hrow eq => ?_
    obtain ⟨g, hg⟩ := Array.mem_iff_getElem?.1 hrow
    exact List.find?_eq_none.1 hfind (g, row) (mem_numbered.2 hg) ((decides row (h.below row hrow)).2 eq)

theorem seen_placed_of (decides : ∀ j < n, ∀ i < j, same i j ↔ key i = key j) : Seen key (placed same n) n := by
  induction n with
  | zero => exact ⟨rfl, .nil, nofun, nofun, nofun⟩
  | succ n ih =>
    rw [placed_succ]
    exact (ih fun j hj => decides j (Nat.lt_succ_of_lt hj)).place (decides n (Nat.lt_succ_self n))

theorem seen_placed (decides : ∀ i j, same i j ↔ key i = key j) (n : Nat) : Seen key (placed same n) n :=
  seen_placed_of fun j _ i _ => decides i j

namespace Seen

variable (h : Seen key (ids, firsts) n)

include h

theorem lt_size (hg : g ∈ ids) : g < firsts.size := by
  obtain ⟨i, hi⟩ := Array.mem_iff_getElem?.1 hg
  have hin : i < n := by
    obtain ⟨lt, -⟩ := Array.getElem?_eq_some_iff.1 hi
    exact h.height ▸ lt
  obtain ⟨g', row, hg', hrow, -⟩ := h.assigned i hin
  obtain rfl : g = g' := Option.some.inj (hi.symm.trans hg')
  exact (Array.getElem?_eq_some_iff.1 hrow).1

theorem size_firsts_le : firsts.size ≤ n := by
  have below : firsts.toList ⊆ List.range n := fun row hrow => List.mem_range.2 (h.below row (Array.mem_def.2 hrow))
  have distinct : firsts.toList.Nodup := h.ascending.imp Nat.ne_of_lt
  simpa using (distinct.subperm below).length_le

theorem ids_eq_iff {i j : Nat} (hi : i < n) (hj : j < n) : ids[i]? = ids[j]? ↔ key i = key j := by
  obtain ⟨g, row, hg, hrow, -, eq⟩ := h.assigned i hi
  obtain ⟨g', row', hg', hrow', -, eq'⟩ := h.assigned j hj
  change ids[i]? = some g at hg
  change ids[j]? = some g' at hg'
  rw [hg, hg', Option.some.injEq, ← eq, ← eq']
  constructor
  · rintro rfl
    exact congrArg key (Option.some.inj (hrow.symm.trans hrow'))
  · exact h.distinct g g' row row' hrow hrow'

theorem ids_of_firsts (hrow : firsts[g]? = some row) : ids[row]? = some g := by
  obtain ⟨g', row', hg', hrow', -, eq⟩ := h.assigned row (h.below row (Array.mem_of_getElem? hrow))
  rw [h.distinct g g' row row' hrow hrow' eq.symm]
  exact hg'

theorem ids_before (hrow : firsts[g]? = some row) {i : Nat} (hi : i < row) : ids[i]? ≠ some g := by
  intro hg
  have hin : i < n := Nat.lt_trans hi (h.below row (Array.mem_of_getElem? hrow))
  obtain ⟨g', row', hg', hrow', le, -⟩ := h.assigned i hin
  obtain rfl : g = g' := Option.some.inj (hg.symm.trans hg')
  obtain rfl : row = row' := Option.some.inj (hrow.symm.trans hrow')
  omega

theorem firsts_lt {lower : Nat} (hrow : firsts[g]? = some row) (hl : lower < g) :
    ∃ row' < row, firsts[lower]? = some row' := by
  obtain ⟨hg, eq⟩ := Array.getElem?_eq_some_iff.1 hrow
  have hl' : lower < firsts.size := Nat.lt_trans hl hg
  refine ⟨firsts[lower], ?_, Array.getElem?_eq_getElem hl'⟩
  have lt := List.pairwise_iff_getElem.1 h.ascending lower g (by simpa using hl') (by simpa using hg) hl
  simpa [← eq] using lt

end Seen

end

theorem getElem?_accumulate (f : β → α → β) (values : Array α) (ids : Array Nat) (slots : Array β) (g : Nat) :
    (accumulate f values ids slots)[g]? =
      slots[g]?.map (((values.zip ids).toList.filter (·.2 = g)).foldl fun b p => f b p.1) := by
  rw [accumulate, ← Array.foldl_toList]
  generalize (values.zip ids).toList = pairs
  induction pairs generalizing slots with
  | nil => simp
  | cons p pairs ih =>
    rw [List.foldl_cons, ih, Array.getElem?_modify, List.filter_cons]
    by_cases h : p.2 = g
    · simp [h, Function.comp_def]
    · simp [h]

theorem counts_eq (ids : Array Nat) (size : Nat) :
    (accumulate (fun n _ => n + 1) ids ids (.replicate size 0)).toList =
      (List.range size).map (ids.toList.count ·) := by
  refine List.ext_getElem? fun g => ?_
  have pairs : ((ids.zip ids).toList.filter (·.2 = g)).length = ids.toList.count g := by
    have second : (ids.zip ids).toList.map (·.2) = ids.toList := by
      rw [Array.toList_zip, List.map_snd_zip (Nat.le_refl _)]
    rw [← second, List.count, List.countP_map, ← List.countP_eq_length_filter]
    exact List.countP_congr fun p _ => by simp
  rw [Array.getElem?_toList, getElem?_accumulate, Array.getElem?_replicate, List.getElem?_map]
  by_cases hg : g < size
  · rw [if_pos hg, List.getElem?_range hg, Option.map_some, List.foldl_const (· + 1), pairs,
      add_right_iterate]
    simp
  · rw [if_neg hg, List.getElem?_eq_none (by simpa using hg)]
    rfl

theorem sum_counts {ids : List Nat} {size : Nat} (below : ∀ id ∈ ids, id < size) :
    ((List.range size).map (ids.count ·)).sum = ids.length := by
  have h := Multiset.sum_count_eq_card (s := Finset.range size) (m := (ids : Multiset Nat))
    fun id hid => Finset.mem_range.2 (below id hid)
  simp only [Multiset.coe_count, Multiset.coe_card] at h
  exact h

/-- What the groups of some rows by keys have to be. Their numbers are words of 32 bits, which is enough for as many
rows as there may be. -/
structure Partitions (g : Grouping) (keys : List Column) (n : Nat) : Prop where
  height : g.ids.size = n
  below : ∀ id ∈ g.ids, id < g.size
  classes : ∀ i < n, ∀ j < n, g.ids[i]? = g.ids[j]? ↔ ∀ k ∈ keys, k.groupEq i k j
  firsts : g.firstRows.size = g.size
  ascending : g.firstRows.toList.Pairwise (· < ·)
  first : ∀ id row : Nat, g.firstRows[id]? = some row → g.ids[row]? = some id ∧ ∀ i < row, g.ids[i]? ≠ some id
  dense : ∀ id row : Nat, g.firstRows[id]? = some row → ∀ lower < id, ∃ i < row, g.ids[i]? = some lower
  counts : ∀ id < g.size, g.counts[id]? = some (g.ids.toList.count id)
  total : g.counts.toList.sum = n
  narrow : n ≤ Frame.maxRows → ∀ k, k ∈ g.ids ∨ k ∈ g.firstRows ∨ k ∈ g.counts → k < UInt32.size

theorem Seen.partitions {key : Nat → κ} {keys : List Column} {n : Nat} {ids firsts : Array Nat}
    (h : Seen key (ids, firsts) n) (decides : ∀ i j, (∀ k ∈ keys, k.groupEq i k j) ↔ key i = key j) :
    (counted ids firsts).Partitions keys n := by
  have countOf : (counted ids firsts).counts.toList = (List.range firsts.size).map (ids.toList.count ·) :=
    counts_eq ids firsts.size
  have size : (counted ids firsts).size = firsts.size := by
    rw [Grouping.size, ← Array.length_toList, countOf, List.length_map, List.length_range]
  have below : ∀ id ∈ ids, id < firsts.size := fun id hid => h.lt_size hid
  exact {
    height := h.height
    below := size ▸ below
    classes := fun i hi j hj => (h.ids_eq_iff hi hj).trans (decides i j).symm
    firsts := size.symm
    ascending := h.ascending
    first := fun id row hrow => ⟨h.ids_of_firsts hrow, fun i hi => h.ids_before hrow hi⟩
    dense := fun id row hrow lower hl => by
      obtain ⟨row', lt, hrow'⟩ := h.firsts_lt hrow hl
      exact ⟨row', lt, h.ids_of_firsts hrow'⟩
    counts := fun id hid => by
      rw [← Array.getElem?_toList, countOf, List.getElem?_map, List.getElem?_range (size ▸ hid)]
      rfl
    total := by
      rw [countOf, sum_counts fun id hid => below id (Array.mem_def.2 hid), Array.length_toList]
      exact h.height
    narrow := fun short k hk => by
      refine Frame.lt_size_of_le_maxRows short ?_
      rcases hk with hid | hrow | hcount
      · exact Nat.le_trans (below k hid).le h.size_firsts_le
      · exact (h.below k hrow).le
      · obtain ⟨id, -, rfl⟩ := List.mem_map.1 (countOf ▸ Array.mem_def.1 hcount)
        exact Nat.le_trans List.count_le_length h.height.le }

theorem groupEq_iff_tokens (keys : List Column) (i j : Nat) :
    (∀ k ∈ keys, k.groupEq i k j) ↔ keys.map (·.token? i) = keys.map (·.token? j) := by
  rw [List.map_inj_left]
  exact forall₂_congr fun k _ => k.groupEq_iff_token? i j

/-- Rows are grouped by the values of their keys alone, whatever the hash functions and however the work is
spread. -/
theorem ofKeys_partitions {keys : List Column} {n : Nat} (nonempty : keys ≠ []) (heights : ∀ k ∈ keys, k.height = n)
    (sound : ∀ k ∈ keys, k.Sound) (host : Host) :
    (ofKeys host keys).Partitions keys n ∧ ∀ other : Host, ofKeys other keys = ofKeys host keys := by
  have height : Column.heightOf keys = n := by
    obtain ⟨k, ks, rfl⟩ := List.exists_cons_of_ne_nil nonempty
    exact heights k List.mem_cons_self
  have seen := @seen_placed _ (fun i => keys.map (·.token? i)) (sameKeys keys)
    (fun i j => List.all_eq_true.trans (groupEq_iff_tokens keys i j)) (Column.heightOf keys)
  constructor
  · rw [ofKeys_eq host heights sound, ← height]
    exact seen.partitions (groupEq_iff_tokens keys)
  · intro other
    rw [ofKeys_eq host heights sound, ofKeys_eq other heights sound]

def mixedKeys : List Column :=
  [⟨"x", .float64 #[some Double.zero, some Double.nan, none, some Double.negativeZero, some Double.zero]⟩,
    ⟨"label", .categorical ⟨#["a", "b"], #[some 0, none, none, some 0, some 1]⟩⟩]

theorem ofKeys_mixedKeys :
    let g := ofKeys ⟨⟨fun _ => Hasher.nullHash, fun _ => Hasher.nullHash⟩, ⟨⟨.eager 1 3, 4, id⟩, by decide⟩, true⟩ mixedKeys
    g.Partitions mixedKeys 5 ∧ g.ids[0]? = g.ids[3]? ∧ g.ids[1]? = g.ids[2]? ∧ g.ids[0]? ≠ g.ids[4]? := by
  have sound : ∀ k ∈ mixedKeys, k.Sound := by
    refine List.forall_mem_cons.2 ⟨nofun, List.forall_mem_singleton.2 ?_⟩
    rintro _ ⟨⟩
    change ["a", "b"].Nodup
    decide
  obtain ⟨h, -⟩ := @ofKeys_partitions mixedKeys 5 (by decide) (by decide) sound
    ⟨⟨fun _ => Hasher.nullHash, fun _ => Hasher.nullHash⟩, ⟨⟨.eager 1 3, 4, id⟩, by decide⟩, true⟩
  refine ⟨h, (h.classes 0 (by decide) 3 (by decide)).2 ?_, (h.classes 1 (by decide) 2 (by decide)).2 ?_, ?_⟩
  · decide
  · decide
  · rw [ne_eq, h.classes 0 (by decide) 4 (by decide)]
    decide

end Columnar.Grouping
