import Columnar.Proofs.Claiming
import Mathlib.Algebra.Order.Ring.Nat

/-!
Work that is spread over workers is put together again as one worker would have done it. The parts of a loop
follow each other from the first row to the last one, and sorting by first rows restores their order after every
schedule of claims. Results are therefore in the order of rows or tasks, of several failures the first one counts,
and a reduction that may be done in pieces gives what it gives in one piece.
-/

universe u

namespace Columnar

namespace Morsel

inductive Consecutive : Nat → List Morsel → Nat → Prop
  | nil (a : Nat) : Consecutive a [] a
  | cons {a b c : Nat} {ms : List Morsel} (le : a ≤ b) (rest : Consecutive b ms c) :
    Consecutive a (⟨a, b⟩ :: ms) c

namespace Consecutive

variable {a b c : Nat} {ms : List Morsel}

theorem le (h : Consecutive a ms c) : a ≤ c := by
  induction h with
  | nil => exact Nat.le_refl _
  | cons le _ ih => exact Nat.le_trans le ih

theorem concat (h : Consecutive a ms b) (le : b ≤ c) : Consecutive a (ms ++ [⟨b, c⟩]) c := by
  induction h with
  | nil => exact .cons le (.nil c)
  | cons le' _ ih => exact .cons le' (ih le)

theorem flatMap_rows (h : Consecutive a ms c) : ms.flatMap rows = List.range' a (c - a) := by
  induction h with
  | nil => simp
  | @cons a b c ms le rest ih =>
    have fits := rest.le
    have behind := List.range'_append_1 (s := a) (m := b - a) (n := c - b)
    rw [Nat.add_sub_cancel' le] at behind
    rw [List.flatMap_cons, ih, rows, behind]
    congr 1
    omega

end Consecutive

theorem consecutive_take_tiles (total size k : Nat) :
    Consecutive 0 ((tiles total size).take k) (min (k * max size 1) total) := by
  induction k with
  | zero => simpa using Consecutive.nil 0
  | succ k ih =>
    rw [List.take_add_one, getElem?_tiles, Nat.add_one_mul]
    by_cases more : k * max size 1 < total
    · rw [Nat.min_eq_left (Nat.le_of_lt more)] at ih
      rw [if_pos more, Option.toList_some]
      exact ih.concat (by omega)
    · have done : min (k * max size 1 + max size 1) total = min (k * max size 1) total := by omega
      rw [if_neg more, Option.toList_none, List.append_nil, done]
      exact ih

theorem consecutive_tiles (total size : Nat) : Consecutive 0 (tiles total size) total := by
  have all := consecutive_take_tiles total size (MorselCursor.ofTotal total size).count
  have last : total ≤ (MorselCursor.ofTotal total size).count * max size 1 :=
    Nat.not_lt.1 (mt MorselCursor.lt_count.2 (Nat.lt_irrefl _))
  rwa [List.take_of_length_le (Nat.le_of_eq (length_tiles ..)), Nat.min_eq_right last] at all

def inOrder (body : Morsel → α) (parts : List Morsel) : List α :=
  ((parts.map fun m => (m.start, body m)).mergeSort fun a b => a.1 ≤ b.1).map (·.2)

/-- Sorting restores the order of the tiles. -/
theorem inOrder_of_perm {parts : List Morsel} {total size : Nat} (h : parts.Perm (tiles total size))
    (body : Morsel → α) : inOrder body parts = (tiles total size).map body := by
  have ascending : ((tiles total size).map fun m => (m.start, body m)).Pairwise (·.1 < ·.1) :=
    List.pairwise_map.2 (tiles_starts_ascend total size)
  rw [inOrder, mergeSort_of_perm (h.map fun m => (m.start, body m)) ascending, List.map_map]
  rfl

end Morsel

/-- Results for ranges that may be put together range by range. -/
structure Additive (start : α) (combine : α → α → α) (body : Morsel → α) (total : Nat) : Prop where
  assoc : ∀ x y z, combine (combine x y) z = combine x (combine y z)
  start_combine : ∀ x, combine start x = x
  combine_start : ∀ x, combine x start = x
  none : ∀ a ≤ total, body ⟨a, a⟩ = start
  append : ∀ a b c, a ≤ b → b ≤ c → c ≤ total → body ⟨a, c⟩ = combine (body ⟨a, b⟩) (body ⟨b, c⟩)

namespace Morsel

theorem Consecutive.foldl {start : α} {combine : α → α → α} {body : Morsel → α} {total a c : Nat}
    {ms : List Morsel} (h : Consecutive a ms c) (parts : Additive start combine body total) (within : c ≤ total)
    (x : α) : (ms.map body).foldl combine x = combine x (body ⟨a, c⟩) := by
  induction h generalizing x with
  | nil a => rw [List.map_nil, List.foldl_nil, parts.none a within, parts.combine_start]
  | @cons a b c ms le rest ih =>
    calc ((⟨a, b⟩ :: ms).map body).foldl combine x
      _ = (ms.map body).foldl combine (combine x (body ⟨a, b⟩)) := rfl
      _ = combine (combine x (body ⟨a, b⟩)) (body ⟨b, c⟩) := ih within _
      _ = combine x (body ⟨a, c⟩) := by rw [parts.assoc, ← parts.append a b c le rest.le within]

end Morsel

namespace Claiming

variable {c : Claiming} {s : State}

theorem perm_tiles {schedule : List Action} (h : c.run schedule = some s) (ended : ∃ w, (w, none) ∈ s.answers)
    {parts : List Morsel} (returned : parts.Perm s.ranges) :
    parts.Perm (Morsel.tiles c.total.toNat c.size.toNat) := by
  obtain ⟨w, hw⟩ := ended
  rwa [← ((consistent_initial c).run h).ranges_of_ended hw]

end Claiming

namespace Pool

variable (p : Pool)

theorem consecutive_coverage (total : Nat) : Morsel.Consecutive 0 (p.coverage total) total := by
  unfold coverage
  split
  · exact Morsel.consecutive_tiles ..
  · exact .cons (Nat.zero_le total) (.nil total)

theorem mapRows_eq_map (n : Nat) (f : Nat → α) : p.mapRows n f = (List.range n).map f := by
  have rows (m : Morsel) : (List.range' m.start (m.stop - m.start)).map f = m.rows.map f := rfl
  simp only [mapRows, rows]
  rw [p.forRows_eq_map, ← List.flatMap_def, ← List.map_flatMap, p.flatMap_rows_coverage]

theorem reduce_eq {start : α} {combine : α → α → α} {body : Morsel → α} {total : Nat}
    (parts : Additive start combine body total) :
    p.reduce total start body combine = [body ⟨0, total⟩].foldl combine start := by
  rw [reduce, p.forRows_eq_map, (p.consecutive_coverage total).foldl parts (Nat.le_refl total)]
  rfl

/-- A loop fails as the first of its steps does that fails. -/
theorem mapM_range_eq_error {build : Nat → Except ε β} {n : Nat} {e : ε} :
    (List.range n).mapM build = .error e ↔
      ∃ i < n, build i = .error e ∧ ∀ j < i, ∃ y, build j = .ok y := by
  induction n generalizing build with
  | zero => exact ⟨nofun, fun ⟨i, hi, _⟩ => absurd hi (Nat.not_lt_zero i)⟩
  | succ n ih =>
    rw [List.range_succ_eq_map, List.mapM_cons, List.mapM_map]
    cases first : build 0 with
    | error e' =>
      constructor
      · rintro ⟨⟩
        exact ⟨0, Nat.succ_pos n, first, nofun⟩
      · rintro ⟨i, -, hi, before⟩
        cases i with
        | zero =>
          cases first.symm.trans hi
          rfl
        | succ i =>
          obtain ⟨y, hy⟩ := before 0 (Nat.succ_pos i)
          cases first.symm.trans hy
    | ok y =>
      have rest : (do let ys ← (List.range n).mapM (build ∘ Nat.succ); pure (y :: ys)) = Except.error e ↔
          (List.range n).mapM (build ∘ Nat.succ) = .error e := by
        cases (List.range n).mapM (build ∘ Nat.succ) <;> simp [bind, Except.bind, pure, Except.pure]
      refine rest.trans (ih.trans ⟨?_, ?_⟩)
      · rintro ⟨i, hi, he, before⟩
        refine ⟨i + 1, Nat.succ_lt_succ hi, he, fun j hj => ?_⟩
        cases j with
        | zero => exact ⟨y, first⟩
        | succ j => exact before j (Nat.lt_of_succ_lt_succ hj)
      · rintro ⟨i, hi, he, before⟩
        cases i with
        | zero => cases first.symm.trans he
        | succ i =>
          exact ⟨i, Nat.lt_of_succ_lt_succ hi, he, fun j hj => before (j + 1) (Nat.succ_lt_succ hj)⟩

/-- What the loops of a pool have to give. -/
structure Reassembles (p : Pool) : Prop where
  rows {α : Type u} (total : Nat) (body : Morsel → α) :
    ∃ parts, Morsel.Consecutive 0 parts total ∧ p.forRows total body = parts.map body
  schedules {α : Type u} (workers : Nat) (c : Claiming) (schedule : List Claiming.Action)
    (s : Claiming.State) (parts : List Morsel) (body : Morsel → α) :
    c.run schedule = some s → (∃ w, (w, none) ∈ s.answers) → parts.Perm s.ranges →
      Morsel.inOrder body parts = p.fanOut workers c.total.toNat c.size.toNat body
  map {α : Type u} (n : Nat) (f : Nat → α) : p.mapRows n f = (List.range n).map f
  tasks {α : Type u} (n : Nat) (f : Nat → α) : p.tasks n f = (List.range n).map f
  columns (n rows : Nat) (build : Nat → Except Error Column) :
    p.columns n rows build = (List.range n).mapM build
  failure (n rows : Nat) (build : Nat → Except Error Column) (e : Error) :
    p.columns n rows build = .error e ↔ ∃ i < n, build i = .error e ∧ ∀ j < i, ∃ c, build j = .ok c
  reduce {α : Type u} (total : Nat) (start : α) (combine : α → α → α) (body : Morsel → α) :
    Additive start combine body total →
      p.reduce total start body combine = [body ⟨0, total⟩].foldl combine start

/-- Whoever claims which part, the loops of a pool give what one worker gives. -/
theorem loops_reassemble (p : Pool) : p.Reassembles where
  rows total body := ⟨_, p.consecutive_coverage total, p.forRows_eq_map total body⟩
  schedules workers c schedule s parts body run ended returned := by
    rw [fanOut_eq_map]
    exact Morsel.inOrder_of_perm (Claiming.perm_tiles run ended returned) body
  map := p.mapRows_eq_map
  tasks := p.tasks_eq_map
  columns := p.columns_eq_mapM
  failure n rows build e := by
    rw [columns_eq_mapM]
    exact mapM_range_eq_error
  reduce total start combine body parts := p.reduce_eq parts

def rowSum (m : Morsel) : Int64 := .ofNat m.rows.sum

theorem additive_rowSum (total : Nat) : Additive 0 (· + ·) rowSum total where
  assoc := Int64.add_assoc
  start_combine := Int64.zero_add
  combine_start := Int64.add_zero
  none a _ := by simp [rowSum, Morsel.rows]
  append a b c ab bc _ := by
    have rows := (Morsel.Consecutive.cons ab (.cons bc (.nil c))).flatMap_rows
    have sum := congrArg List.sum rows
    simp only [List.flatMap_cons, List.flatMap_nil, List.append_nil, List.sum_append] at sum
    rw [rowSum, rowSum, rowSum, ← Int64.ofNat_add, sum, Morsel.rows]

theorem loops_reassemble_contended :
    let p : Pool := ⟨.eager 2 2, 2, (· + 1)⟩
    (∃ s, (⟨3, 2⟩ : Claiming).run Claiming.contended = some s ∧ (0, none) ∈ s.answers ∧
      [⟨2, 3⟩, ⟨0, 2⟩].Perm s.ranges) ∧
    Morsel.inOrder Morsel.rows [⟨2, 3⟩, ⟨0, 2⟩] = p.fanOut 2 3 2 Morsel.rows ∧
    Additive 0 (· + ·) rowSum 5 ∧ p.reduce 5 0 rowSum (· + ·) = 10 := by
  intro p
  have run : ∃ s, (⟨3, 2⟩ : Claiming).run Claiming.contended = some s ∧ (0, none) ∈ s.answers ∧
      [⟨2, 3⟩, ⟨0, 2⟩].Perm s.ranges := ⟨_, rfl, by decide, by decide⟩
  refine ⟨run, ?_, additive_rowSum 5, ?_⟩
  · obtain ⟨s, run, ended, returned⟩ := run
    exact (loops_reassemble p).schedules 2 ⟨3, 2⟩ _ s _ Morsel.rows run ⟨0, ended⟩ returned
  · rw [(loops_reassemble p).reduce 5 0 _ rowSum (additive_rowSum 5)]
    decide

end Pool

end Columnar
