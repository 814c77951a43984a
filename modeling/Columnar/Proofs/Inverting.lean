import Columnar.Frame
import Columnar.Proofs.Index
import Columnar.Proofs.Partition

namespace Columnar.HashIndex

variable (hashes : Array UInt64) (keep : Nat → Bool) (count : Nat)

def stored (row : Nat) : Bool := keep row && hashes[row]?.isSome

theorem size_scatter (m : Morsel) : (scatter hashes keep count m).size = count := by
  have run (rows : List Nat) (lists : Array (Array Nat)) :
      (rows.foldl (scatterRow hashes keep count) lists).size = lists.size := by
    induction rows generalizing lists with
    | nil => rfl
    | cons row rows ih =>
      rw [List.foldl_cons, ih, scatterRow]
      split
      · split
        · exact Array.size_modify
        · rfl
      · rfl
  exact (run _ _).trans Array.size_replicate

variable {count}

theorem sum_scatter (hc : 0 < count) (m : Morsel) :
    ((scatter hashes keep count m).toList.map (·.size)).sum = (m.rows.filter (stored hashes keep)).length := by
  let owners := (m.rows.filter (stored hashes keep)).map fun row => partitionOf count (hashes[row]?.getD 0)
  have below : ∀ part ∈ owners, part < count := fun part h => by
    obtain ⟨row, -, rfl⟩ := List.mem_map.1 h
    exact Nat.mod_lt _ hc
  have sizes : (scatter hashes keep count m).toList.map (·.size) = (List.range count).map (owners.count ·) := by
    refine List.ext_getElem (by simp [size_scatter]) fun part h _ => ?_
    have hp : part < count := by simpa [size_scatter] using h
    have list := congrArg List.length (listed_scatter hashes keep count part m hp)
    have owned : owners.count part = (m.rows.filter (belongs hashes keep count part)).length := by
      rw [List.count, List.countP_map, List.countP_filter, List.countP_eq_length_filter]
      congr 2
      funext row
      cases hh : hashes[row]? <;> simp [belongs, stored, hh, Bool.and_comm]
    rw [List.getElem_map, List.getElem_map, List.getElem_range, owned, ← list]
    simp [listed, size_scatter, hp]
  rw [sizes, Grouping.sum_counts below, List.length_map]

omit hashes keep in
theorem foldl_add_eq (f : α → Nat) (xs : List α) (n : Nat) :
    xs.foldl (fun n x => n + f x) n = n + (xs.map f).sum := by
  induction xs generalizing n with
  | nil => rfl
  | cons x xs ih => rw [List.foldl_cons, ih, List.map_cons, List.sum_cons, Nat.add_assoc]

theorem rows_split (pool : Pool) (hc : 0 < count) :
    (split pool hashes count keep).rows = (List.range hashes.size).countP keep := by
  obtain ⟨ms, hms, hrows⟩ := chunks_eq_map pool hashes.size count (scatter hashes keep count)
  have chunk (chunk : Array (Array Nat)) (n : Nat) :
      chunk.foldl (fun n rows => n + rows.size) n = n + (chunk.toList.map (·.size)).sum := by
    rw [← Array.foldl_toList, foldl_add_eq]
  calc (split pool hashes count keep).rows
    _ = (ms.map fun m => (m.rows.filter (stored hashes keep)).length).sum := by
      simp only [split, hms, chunk, foldl_add_eq, List.map_map, Function.comp_def, sum_scatter hashes keep hc,
        Nat.zero_add]
    _ = ((List.range hashes.size).filter (stored hashes keep)).length := by
      rw [← List.length_flatMap, ← List.filter_flatMap, hrows]
    _ = (List.range hashes.size).countP keep := by
      rw [List.countP_eq_length_filter]
      congr 1
      refine List.filter_congr fun row hrow => ?_
      simp [stored, List.mem_range.1 hrow]

theorem size_split (pool : Pool) (n : Nat) : (split pool hashes n keep).partitions.size = n := by
  simp [split, Pool.tasks_eq_map]

theorem mem_partition {pool : Pool} {part row : Nat} {map : Std.HashMap UInt64 (Array Nat)} {h : UInt64}
    {rows : Array Nat} (hmap : (split pool hashes count keep).partitions[part]? = some map)
    (hrows : map[h]? = some rows) (hrow : row ∈ rows) :
    keep row ∧ hashes[row]? = some h ∧ partitionOf count h = part := by
  obtain ⟨ms, hms, -⟩ := chunks_eq_map pool hashes.size count (scatter hashes keep count)
  have hpart : part < count := by
    rw [← size_split hashes keep pool count]
    exact (Array.getElem?_eq_some_iff.1 hmap).1
  simp only [split, Pool.tasks_eq_map, hms, List.getElem?_toArray, List.getElem?_map,
    List.getElem?_range hpart, Option.map_some, Option.some.injEq] at hmap
  have filled := getD_foldl_insert hashes h ((ms.map (scatter hashes keep count)).flatMap (listed · part)) {}
  rw [← foldl_chunks, hmap, Std.HashMap.getD_eq_getD_getElem?, hrows, Option.getD_some, Std.HashMap.getD_empty,
    List.nil_append] at filled
  obtain ⟨listed, held⟩ := List.mem_filter.1 (filled ▸ Array.mem_def.1 hrow)
  simp only [List.flatMap_map, List.mem_flatMap, listed_scatter _ _ _ _ _ hpart] at listed
  obtain ⟨m, -, belongs⟩ := listed
  have own := (List.mem_filter.1 belongs).2
  rw [beq_iff_eq] at held
  simp only [HashIndex.belongs, held, Option.any_some, Bool.and_eq_true, beq_iff_eq] at own
  exact ⟨own.1, held, own.2⟩

/-- What an index of the kept rows of some hashes has to be. Rows and partitions are numbered by words: the rows by
words of 32 bits, which is enough for as many rows as there may be. -/
structure Inverts (index : HashIndex) (hashes : Array UInt64) (keep : Nat → Bool) (wanted : Nat) : Prop where
  lookup : ∀ h row, row ∈ index.lookup h ↔ keep row ∧ hashes[row]? = some h
  ascending : ∀ h, (index.lookup h).toList.Pairwise (· < ·)
  narrow : hashes.size ≤ Frame.maxRows → ∀ h, ∀ row ∈ index.lookup h, row < UInt32.size
  rows : index.rows = (List.range hashes.size).countP keep
  power : ∃ k, index.partitions.size = 2 ^ k
  enough : wanted ≤ index.partitions.size
  words : index.partitions.size < UInt64.size
  owner : ∀ (part : Nat) map (h : UInt64) rows, index.partitions[part]? = some map → map[h]? = some rows →
    ∀ row ∈ rows, keep row ∧ hashes[row]? = some h ∧ part = h.toNat &&& (index.partitions.size - 1)

theorem mem_lookup_split {pool : Pool} (hc : 0 < count) {h : UInt64} {row : Nat} :
    row ∈ (split pool hashes count keep).lookup h ↔ keep row ∧ hashes[row]? = some h := by
  rw [Array.mem_def, lookup_split _ _ _ hc, List.mem_filter, List.mem_range, answers, Bool.and_eq_true,
    beq_iff_eq, and_iff_right_iff_imp]
  exact fun found => (Array.getElem?_eq_some_iff.1 found.2).1

/-- However many partitions are asked for, as long as their number does not overflow, and however the work is spread,
there is an index and it is the inverse of its hashes. -/
theorem withPartitions_inverts (pool : Pool) {wanted : UInt64} (fits : nextPower wanted.toNat < UInt64.size) :
    ∃ index, withPartitions? pool hashes wanted keep = some index ∧ index.Inverts hashes keep wanted.toNat := by
  obtain ⟨index, hindex⟩ := Option.isSome_iff_exists.1 (isSome_withPartitions?_iff.2 (nextPower_lt_iff.1 fits))
  obtain rfl := withPartitions?_eq_some hindex
  have hc := nextPower_pos (max wanted.toNat 1)
  obtain ⟨k, hk⟩ := exists_nextPower_eq (max wanted.toNat 1)
  rw [Nat.one_shiftLeft] at hk
  have size := size_split hashes keep pool (nextPower (max wanted.toNat 1))
  refine ⟨_, hindex, {
    lookup := fun h row => mem_lookup_split hashes keep hc
    ascending := fun h => ?ascending
    narrow := fun short h row hrow => ?narrow
    rows := rows_split hashes keep pool hc
    power := ⟨k, size.trans hk⟩
    enough := ?enough
    words := ?words
    owner := fun part map h rows hmap hrows row hrow => ?owner }⟩
  case ascending =>
    rw [lookup_split _ _ _ hc]
    exact List.pairwise_lt_range.filter _
  case narrow =>
    have held := (mem_lookup_split hashes keep hc).1 hrow
    have below := (Array.getElem?_eq_some_iff.1 held.2).1
    exact Frame.lt_size_of_le_maxRows short below.le
  case enough =>
    rw [size]
    exact Nat.le_trans (Nat.le_max_left ..) (le_nextPower _)
  case words =>
    have one : 1 ≤ 2 ^ 63 := by decide
    rw [size]
    exact nextPower_lt_iff.2 (Nat.max_le.2 ⟨nextPower_lt_iff.1 fits, one⟩)
  case owner =>
    obtain ⟨kept, held, own⟩ := mem_partition hashes keep hmap hrows hrow
    rw [size, hk, Nat.and_two_pow_sub_one_eq_mod, ← hk]
    exact ⟨kept, held, own.symm⟩

theorem withPartitions_inverts_seven :
    nextPower (7 : UInt64).toNat < UInt64.size ∧ ∃ index,
      withPartitions? ⟨.eager 2 3, 4, id⟩ #[5, 9, 5, 13, 5] 7 (· != 2) = some index ∧ index.partitions.size = 8 ∧
        0 ∈ index.lookup 5 ∧ 2 ∉ index.lookup 5 ∧ 4 ∈ index.lookup 5 ∧ 3 ∉ index.lookup 5 := by
  have fits : nextPower (7 : UInt64).toNat < UInt64.size := by decide
  obtain ⟨index, hindex, inverts⟩ :=
    withPartitions_inverts #[5, 9, 5, 13, 5] (· != 2) ⟨.eager 2 3, 4, id⟩ fits
  refine ⟨fits, index, hindex, ?_, ?_⟩
  · rw [withPartitions?_eq_some hindex, size_split]
    decide
  · simp only [inverts.lookup]
    decide

end Columnar.HashIndex
