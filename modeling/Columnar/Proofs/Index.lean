import Columnar.HashIndex
import Columnar.Proofs.Spreading

namespace Columnar.HashIndex

def belongs (hashes : Array UInt64) (keep : Nat → Bool) (count part row : Nat) : Bool :=
  keep row && hashes[row]?.any (partitionOf count · == part)

def answers (hashes : Array UInt64) (keep : Nat → Bool) (h : UInt64) (row : Nat) : Bool :=
  keep row && hashes[row]? == some h

def listed (lists : Array (Array Nat)) (part : Nat) : List Nat := (lists[part]?.getD #[]).toList

theorem listed_modify (lists : Array (Array Nat)) (target part row : Nat) (h : part < lists.size) :
    listed (lists.modify target (·.push row)) part =
      listed lists part ++ if target = part then [row] else [] := by
  simp only [listed, Array.getElem?_modify]
  split
  · simp [h]
  · simp

theorem listed_foldl_scatter (hashes : Array UInt64) (keep : Nat → Bool) (count part : Nat)
    (rows : List Nat) (lists : Array (Array Nat)) (h : part < lists.size) :
    listed (rows.foldl (scatterRow hashes keep count) lists) part =
      listed lists part ++ rows.filter (belongs hashes keep count part) := by
  induction rows generalizing lists with
  | nil => simp
  | cons row rows ih =>
    have size : (scatterRow hashes keep count lists row).size = lists.size := by
      unfold scatterRow
      split
      · split <;> simp
      · rfl
    rw [List.foldl_cons, ih _ (size ▸ h), List.filter_cons]
    cases hh : hashes[row]? with
    | none => simp [scatterRow, belongs, hh]
    | some x =>
      by_cases hk : keep row
      · by_cases hp : partitionOf count x = part <;>
          simp [scatterRow, belongs, hh, hk, hp, listed_modify _ _ _ _ h]
      · simp [scatterRow, belongs, hh, hk]

theorem listed_scatter (hashes : Array UInt64) (keep : Nat → Bool) (count part : Nat) (m : Morsel)
    (h : part < count) :
    listed (scatter hashes keep count m) part = m.rows.filter (belongs hashes keep count part) := by
  have := listed_foldl_scatter hashes keep count part m.rows (.replicate count #[]) (by simpa using h)
  simpa [scatter, Morsel.rows, listed, h] using this

theorem getD_foldl_insert (hashes : Array UInt64) (h : UInt64) (rows : List Nat)
    (map : Std.HashMap UInt64 (Array Nat)) :
    ((rows.foldl (insert hashes) map).getD h #[]).toList =
      (map.getD h #[]).toList ++ rows.filter (hashes[·]? == some h) := by
  induction rows generalizing map with
  | nil => simp
  | cons row rows ih =>
    rw [List.foldl_cons, ih, List.filter_cons]
    cases hh : hashes[row]? with
    | none => simp [insert, hh]
    | some x =>
      by_cases hx : x = h
      · subst hx
        simp [insert, hh, Std.HashMap.getD_eq_getD_getElem?]
      · simp [insert, hh, Std.HashMap.getD_alter, hx]

theorem foldl_chunks (hashes : Array UInt64) (chunks : List (Array (Array Nat))) (part : Nat) :
    fill hashes chunks part = (chunks.flatMap (listed · part)).foldl (insert hashes) {} := by
  rw [List.foldl_flatMap]
  simp [fill, listed]

theorem getD_fill (hashes : Array UInt64) (keep : Nat → Bool) (count : Nat) (ms : List Morsel)
    (h : UInt64) (hc : 0 < count) :
    ((fill hashes (ms.map (scatter hashes keep count)) (partitionOf count h)).getD h #[]).toList =
      (ms.flatMap Morsel.rows).filter (answers hashes keep h) := by
  have hp : partitionOf count h < count := Nat.mod_lt _ hc
  rw [foldl_chunks, getD_foldl_insert, List.flatMap_map, List.filter_flatMap, List.filter_flatMap]
  simp only [listed_scatter _ _ _ _ _ hp, List.filter_filter]
  simp only [Std.HashMap.getD_empty, List.nil_append]
  congr 1
  funext m
  congr 1
  funext row
  cases hh : hashes[row]? with
  | none => simp [answers, belongs, hh]
  | some x =>
    by_cases hx : x = h
    · subst hx
      simp [answers, belongs, hh]
    · simp [answers, belongs, hh, beq_false_of_ne hx]

theorem chunks_eq_map (pool : Pool) (n count : Nat) (body : Morsel → α) :
    ∃ ms : List Morsel, (if 1 < count then pool.forRows n body else [body ⟨0, n⟩]) = ms.map body ∧
      ms.flatMap Morsel.rows = List.range n := by
  split
  · exact ⟨_, pool.forRows_eq_map n body, pool.flatMap_rows_coverage n⟩
  · exact ⟨[⟨0, n⟩], rfl, by simp [Morsel.rows, List.range_eq_range']⟩

theorem lookup_split (pool : Pool) (hashes : Array UInt64) (keep : Nat → Bool) {count : Nat} (hc : 0 < count)
    (h : UInt64) :
    ((split pool hashes count keep).lookup h).toList = (List.range hashes.size).filter (answers hashes keep h) := by
  obtain ⟨ms, hms, hrows⟩ := chunks_eq_map pool hashes.size count (scatter hashes keep count)
  have hp : partitionOf count h < count := Nat.mod_lt _ hc
  simp only [split, lookup, Pool.tasks_eq_map, hms]
  rw [← hrows, ← getD_fill hashes keep _ ms h hc]
  simp [hp]

theorem withPartitions?_eq_some {pool : Pool} {hashes : Array UInt64} {wanted : UInt64} {keep : Nat → Bool}
    {index : HashIndex} (h : withPartitions? pool hashes wanted keep = some index) :
    index = split pool hashes (nextPower (max wanted.toNat 1)) keep := by
  obtain ⟨power, hpower, rfl⟩ := Option.map_eq_some_iff.1 h
  rw [nextPower?_eq_some_iff.1 hpower, toNat_max]
  rfl

theorem exists_build_eq (pool : PricedPool) (hashes : Array UInt64) (keep : Nat → Bool) :
    ∃ count, 0 < count ∧ build pool hashes keep = split pool.toPool hashes count keep := by
  obtain ⟨pays, -, h⟩ := Option.bind_eq_some_iff.1 (Option.some_get (isSome_build? pool hashes keep)).symm
  exact ⟨_, nextPower_pos _, withPartitions?_eq_some h⟩

theorem lookup_build (pool : PricedPool) (hashes : Array UInt64) (keep : Nat → Bool) (h : UInt64) :
    ((build pool hashes keep).lookup h).toList =
      (List.range hashes.size).filter (answers hashes keep h) := by
  obtain ⟨count, hc, hbuild⟩ := exists_build_eq pool hashes keep
  rw [hbuild, lookup_split pool.toPool hashes keep hc]

/-- Probing goes through the rows in order, however it is spread. -/
theorem collect_eq_flatMap (pool : PricedPool) (index : HashIndex) (hashes : Array UInt64) (height : Nat)
    (matching : Nat → Array Nat → List Nat) (hempty : ∀ row, matching row #[] = []) :
    index.collect pool hashes height matching =
      (List.range height).flatMap fun row =>
        (matching row ((hashes[row]?.map index.lookup).getD #[])).map (row, ·) := by
  have probe (row : Nat) (candidates : Array Nat) :
      (if candidates.isEmpty then [] else (matching row candidates).map (row, ·)) =
        (matching row candidates).map (row, ·) := by
    split
    · next h => rw [Array.isEmpty_iff.1 h, hempty, List.map_nil]
    · rfl
  simp only [collect, probe]
  split
  · rw [pool.forRows_eq_map, ← List.flatMap_def, ← pool.flatMap_rows_coverage, List.flatMap_assoc]
    rfl
  · simp [List.range_eq_range']

end Columnar.HashIndex
