import Columnar.Parallel.Pool
import Mathlib.Data.List.Nodup

namespace Columnar

theorem mergeSort_of_perm {key : α → Nat} {xs ys : List α} (hp : xs.Perm ys)
    (hs : ys.Pairwise (key · < key ·)) : xs.mergeSort (key · ≤ key ·) = ys := by
  have sorted : (xs.mergeSort (key · ≤ key ·)).Pairwise (key · ≤ key ·) := by
    have h := @List.pairwise_mergeSort α (fun a b => decide (key a ≤ key b))
      (fun a b c hab hbc => by simp only [decide_eq_true_eq] at *; omega)
      (fun a b => by simp only [Bool.or_eq_true, decide_eq_true_eq]; omega) xs
    simpa using h
  have keys : (ys.map key).Nodup :=
    List.pairwise_map.2 (hs.imp fun h => Nat.ne_of_lt h)
  have hp' : (xs.mergeSort (key · ≤ key ·)).Perm ys := (List.mergeSort_perm xs _).trans hp
  refine @List.Perm.eq_of_pairwise α (fun a b => key a ≤ key b) _ _ ?_ sorted (hs.imp Nat.le_of_lt) hp'
  intro a b ha hb hab hba
  exact List.inj_on_of_nodup_map keys (hp'.mem_iff.1 ha) hb (Nat.le_antisymm hab hba)

namespace Morsel

def rows (m : Morsel) : List Nat := List.range' m.start (m.stop - m.start)

theorem tiles_starts_ascend (total size : Nat) :
    (tiles total size).Pairwise (·.start < ·.start) := by
  refine List.pairwise_map.2 (List.pairwise_lt_range.imp ?_)
  intro a b hab
  exact Nat.mul_lt_mul_of_pos_right hab (by omega)

theorem tiles_perm_claims (p : Pool) (workers : Nat) (parts : List Morsel) :
    (p.claims workers parts).Perm parts := by
  have h := (List.mergeSort_perm parts.zipIdx fun a b =>
    p.claimant a.2 % Pool.crew workers parts.length ≤ p.claimant b.2 % Pool.crew workers parts.length)
  simpa [Pool.claims] using h.map (·.1)

theorem flatMap_rows_prefix (total size k : Nat) :
    ((List.range k).map fun i => (⟨i * size, min (i * size + size) total⟩ : Morsel)).flatMap rows =
      List.range (min (k * size) total) := by
  induction k with
  | zero => simp
  | succ k ih =>
    rw [List.range_succ, List.map_append, List.flatMap_append, ih, List.map_singleton,
      List.flatMap_singleton]
    simp only [rows, List.range_eq_range', Nat.add_one_mul]
    by_cases h : k * size ≤ total
    · rw [Nat.min_eq_left h]
      have := List.range'_append_1 (s := 0) (m := k * size) (n := min (k * size + size) total - k * size)
      simp only [Nat.zero_add] at this
      rw [this]
      congr 1
      omega
    · have hs : min (k * size + size) total - k * size = 0 := by omega
      rw [hs, List.range'_zero, List.append_nil]
      congr 1
      omega

theorem flatMap_rows_tiles (total size : Nat) : (tiles total size).flatMap rows = List.range total := by
  have h := flatMap_rows_prefix total (max size 1) (MorselCursor.ofTotal total size).count
  rw [tiles, h]
  congr 1
  have hpos : 0 < max size 1 := by omega
  have hdiv := Nat.div_add_mod (total + max size 1 - 1) (max size 1)
  have hmod := Nat.mod_lt (total + max size 1 - 1) hpos
  have covered : total ≤ (total + max size 1 - 1) / max size 1 * max size 1 := by
    rw [Nat.mul_comm]
    omega
  exact Nat.min_eq_right covered

theorem tiles_one (n : Nat) : (tiles n 1).map (·.start) = List.range n := by
  simp [tiles, MorselCursor.count, MorselCursor.ofTotal, Function.comp_def]

end Morsel

namespace Pool

theorem fanOut_eq_map (p : Pool) (workers total size : Nat) (body : Morsel → α) :
    p.fanOut workers total size body = (Morsel.tiles total size).map body := by
  have hp := (Morsel.tiles_perm_claims p workers (Morsel.tiles total size)).map
    fun m => (m.start, body m)
  have hs : ((Morsel.tiles total size).map fun m => (m.start, body m)).Pairwise (·.1 < ·.1) :=
    List.pairwise_map.2 (Morsel.tiles_starts_ascend total size)
  rw [fanOut, mergeSort_of_perm hp hs, List.map_map]
  rfl

theorem forRows_eq_map (p : Pool) (total : Nat) (body : Morsel → α) :
    p.forRows total body = (p.coverage total).map body := by
  unfold forRows coverage
  split
  · rw [fanOut_eq_map]
  · rfl

/-- The parts of a loop hold each row once and in order. -/
theorem flatMap_rows_coverage (p : Pool) (total : Nat) :
    (p.coverage total).flatMap Morsel.rows = List.range total := by
  unfold coverage
  split
  · exact Morsel.flatMap_rows_tiles ..
  · simp [Morsel.rows, List.range_eq_range']

theorem tasks_eq_map (p : Pool) (n : Nat) (f : Nat → α) : p.tasks n f = (List.range n).map f := by
  simp only [tasks]
  split
  · rw [fanOut_eq_map, ← Morsel.tiles_one n, List.map_map]
    rfl
  · rfl

theorem columns_eq_mapM (p : Pool) (n rows : Nat) (build : Nat → Except Error Column) :
    p.columns n rows build = (List.range n).mapM build := by
  unfold columns
  split
  · rfl
  · rw [tasks_eq_map, List.mapM_map]
    rfl

end Pool

end Columnar
