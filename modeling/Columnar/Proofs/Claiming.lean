import Columnar.Parallel.Claiming
import Columnar.Proofs.Spreading

namespace Columnar

namespace MorselCursor

theorem lt_count {total size k : Nat} : k < (ofTotal total size).count ↔ k * max size 1 < total := by
  have pos : 0 < max size 1 := by omega
  change k + 1 ≤ (total + max size 1 - 1) / max size 1 ↔ _
  rw [Nat.le_div_iff_mul_le pos, Nat.add_one_mul]
  omega

end MorselCursor

namespace Morsel

theorem getElem?_tiles (total size k : Nat) :
    (tiles total size)[k]? =
      if k * max size 1 < total then some ⟨k * max size 1, min (k * max size 1 + max size 1) total⟩
      else none := by
  rw [tiles, List.getElem?_map]
  by_cases more : k * max size 1 < total
  · rw [if_pos more, List.getElem?_range (MorselCursor.lt_count.2 more)]
    rfl
  · rw [if_neg more, List.getElem?_eq_none]
    · rfl
    · simpa using mt MorselCursor.lt_count.1 more

theorem length_tiles (total size : Nat) : (tiles total size).length = (MorselCursor.ofTotal total size).count := by
  simp [tiles]

theorem tile_spec {total size : Nat} {m : Morsel} (h : m ∈ tiles total size) :
    m.start < m.stop ∧ m.stop ≤ m.start + max size 1 := by
  obtain ⟨k, hk⟩ := List.mem_iff_getElem?.1 h
  rw [getElem?_tiles] at hk
  split at hk
  · cases hk
    dsimp only
    omega
  · cases hk

theorem tiles_disjoint (total size : Nat) : (tiles total size).Pairwise (·.stop ≤ ·.start) := by
  refine List.pairwise_map.2 (List.pairwise_lt_range.imp fun {a b} hab => ?_)
  have := Nat.mul_le_mul_right (max size 1) hab
  rw [Nat.succ_mul] at this
  exact Nat.le_trans (Nat.min_le_left _ _) this

theorem flatMap_rows_take_tiles (total size k : Nat) :
    ((tiles total size).take k).flatMap rows = List.range (min (k * max size 1) total) := by
  rw [tiles, ← List.map_take, List.take_range]
  have tiled := flatMap_rows_prefix total (max size 1) (min k (MorselCursor.ofTotal total size).count)
  refine tiled.trans (congrArg List.range ?_)
  by_cases more : k < (MorselCursor.ofTotal total size).count
  · rw [Nat.min_eq_left (Nat.le_of_lt more)]
  · have fewer := Nat.not_lt.1 more
    have last : total ≤ (MorselCursor.ofTotal total size).count * max size 1 :=
      Nat.not_lt.1 (mt MorselCursor.lt_count.2 (Nat.lt_irrefl _))
    have := Nat.mul_le_mul_right (max size 1) fewer
    rw [Nat.min_eq_right fewer]
    omega

end Morsel

namespace MorselCursor

def claims (c : MorselCursor) : Nat → List Morsel × MorselCursor
  | 0 => ([], c)
  | k + 1 =>
    match (c.claims k).2.claim? with
    | some (m, d) => ((c.claims k).1 ++ [m], d)
    | none => c.claims k

theorem claims_ofTotal (total size k : Nat) :
    (ofTotal total size).claims k =
      ((Morsel.tiles total size).take k, { ofTotal total size with next := min (k * max size 1) total }) := by
  induction k with
  | zero => simp [claims, ofTotal]
  | succ k ih =>
    rw [claims, ih, List.take_add_one, Morsel.getElem?_tiles, claim?, Nat.add_one_mul]
    by_cases more : k * max size 1 < total
    · have next : min (k * max size 1) total = k * max size 1 := by omega
      simp only [ofTotal, next, more, ↓reduceIte, Option.toList_some]
    · have next : min (k * max size 1) total = total := by omega
      have next' : min (k * max size 1 + max size 1) total = total := by omega
      simp only [ofTotal, next, next', Nat.lt_irrefl, more, ↓reduceIte, Option.toList_none, List.append_nil]

end MorselCursor

namespace Claiming

variable {c : Claiming} {s s' : State}

theorem toNat_saturatingAdd (a b : UInt64) :
    (saturatingAdd a b).toNat = min (a.toNat + b.toNat) (UInt64.size - 1) := by
  have ha := a.toNat_lt_size
  have hb := b.toNat_lt_size
  have size : UInt64.size = 18446744073709551616 := rfl
  have largest : (0xffffffffffffffff : UInt64).toNat = UInt64.size - 1 := rfl
  have room : ((0xffffffffffffffff : UInt64) - a).toNat = UInt64.size - 1 - a.toNat :=
    UInt64.toNat_sub_of_le _ _ (UInt64.le_iff_toNat_le.2 (Nat.le_sub_one_of_lt ha))
  unfold saturatingAdd
  split
  next fits =>
    rw [UInt64.le_iff_toNat_le, room] at fits
    rw [UInt64.toNat_add, Nat.mod_eq_of_lt (by omega)]
    omega
  next beyond =>
    rw [UInt64.le_iff_toNat_le, room] at beyond
    omega

/-- Cutting the sum off at the largest word changes nothing, because it is cut off at the total anyway. -/
theorem toNat_stop (c : Claiming) (seen : UInt64) :
    (c.stop seen).toNat = min (seen.toNat + max c.size.toNat 1) c.total.toNat := by
  have width : (max c.size 1).toNat = max c.size.toNat 1 := UInt64.toNat_max ..
  have fits := c.total.toNat_lt_size
  rw [stop, UInt64.toNat_min, toNat_saturatingAdd, width]
  omega

theorem step_eq_some {a : Action} (h : c.step s a = some s') :
    (∃ w, ∃ seen ∈ s.shown, s' = s.hold w (some seen)) ∨
      (∃ w seen, s.held w = some seen ∧ c.total ≤ seen ∧ s' = s.answer w none) ∨
      ∃ w, s.cursor < c.total ∧ s' = (s.advance (c.stop s.cursor)).answer w
        (some ⟨s.cursor.toNat, (c.stop s.cursor).toNat⟩) := by
  cases a with
  | load w seen =>
    obtain ⟨⟨-, shown⟩, ⟨⟩⟩ := Option.ite_none_right_eq_some.1 h
    exact .inl ⟨w, seen, shown, rfl⟩
  | leave w =>
    simp only [step] at h
    split at h
    next seen held =>
      obtain ⟨done, ⟨⟩⟩ := Option.ite_none_right_eq_some.1 h
      exact .inr (.inl ⟨w, seen, held, done, rfl⟩)
    · cases h
  | exchange w =>
    simp only [step] at h
    split at h
    next seen held =>
      obtain ⟨⟨more, rfl⟩, ⟨⟩⟩ := Option.ite_none_right_eq_some.1 h
      exact .inr (.inr ⟨w, more, rfl⟩)
    · cases h
  | retry w seen' =>
    simp only [step] at h
    split at h
    next seen held =>
      obtain ⟨⟨-, shown⟩, ⟨⟩⟩ := Option.ite_none_right_eq_some.1 h
      exact .inl ⟨w, seen', shown, rfl⟩
    · cases h

def alone (c : Claiming) (s : State) : MorselCursor :=
  { MorselCursor.ofTotal c.total.toNat c.size.toNat with next := s.cursor.toNat }

/-- What holds after every step. -/
structure Consistent (c : Claiming) (s : State) : Prop where
  claims : (c.alone .initial).claims s.ranges.length = (s.ranges, c.alone s)
  behind : ∀ v ∈ s.earlier, v ≤ s.cursor
  held : ∀ w v, s.held w = some v → v ∈ s.shown
  ended : ∀ w, (w, none) ∈ s.answers → c.total ≤ s.cursor

theorem Consistent.le_cursor (hs : Consistent c s) {v : UInt64} (h : v ∈ s.shown) : v ≤ s.cursor := by
  rcases List.mem_cons.1 h with rfl | h
  · exact UInt64.le_refl _
  · exact hs.behind v h

@[simp] theorem ranges_advance (s : State) (cursor : UInt64) : (s.advance cursor).ranges = s.ranges := rfl

theorem ranges_answer (s : State) (w : Nat) (m : Option Morsel) : (s.answer w m).ranges = s.ranges ++ m.toList := by
  rw [State.ranges, State.answer, List.filterMap_append]
  cases m <;> rfl

theorem consistent_initial (c : Claiming) : Consistent c .initial := ⟨rfl, nofun, nofun, nofun⟩

theorem held_of_hold {w u : Nat} {seen : Option UInt64} {v : UInt64} (h : (s.hold w seen).held u = some v) :
    seen = some v ∨ s.held u = some v := by
  by_cases hu : u = w
  · exact .inl (by simpa only [State.hold, hu, ↓reduceIte] using h)
  · exact .inr (by simpa only [State.hold, hu, ↓reduceIte] using h)

theorem Consistent.hold (hs : Consistent c s) (w : Nat) (seen : Option UInt64)
    (h : ∀ v, seen = some v → v ∈ s.shown) : Consistent c (s.hold w seen) where
  claims := hs.claims
  behind := hs.behind
  held u v hv := (held_of_hold hv).elim (h v) (hs.held u v)
  ended := hs.ended

/-- A worker leaves without rows only when all are handed out, because it has seen no more than the cursor. -/
theorem Consistent.leave (hs : Consistent c s) {w : Nat} {seen : UInt64} (held : s.held w = some seen)
    (done : c.total ≤ seen) : Consistent c (s.answer w none) := by
  have still := hs.hold w none nofun
  have reached := UInt64.le_trans done (hs.le_cursor (hs.held w seen held))
  refine ⟨?_, still.behind, still.held, fun _ _ => reached⟩
  rw [ranges_answer, Option.toList_none, List.append_nil]
  exact hs.claims

theorem Consistent.exchange (hs : Consistent c s) (w : Nat) (more : s.cursor < c.total) :
    Consistent c ((s.advance (c.stop s.cursor)).answer w
      (some ⟨s.cursor.toNat, (c.stop s.cursor).toNat⟩)) := by
  have further : s.cursor ≤ c.stop s.cursor := by
    rw [UInt64.le_iff_toNat_le, toNat_stop]
    rw [UInt64.lt_iff_toNat_lt] at more
    omega
  constructor
  case claims =>
    have claim : (c.alone s).claim? = some (⟨s.cursor.toNat, (c.stop s.cursor).toNat⟩,
        c.alone (s.advance (c.stop s.cursor))) := by
      rw [UInt64.lt_iff_toNat_lt] at more
      simp only [MorselCursor.claim?, alone, MorselCursor.ofTotal, State.advance, more, ↓reduceIte, toNat_stop]
    rw [ranges_answer, ranges_advance, Option.toList_some, List.length_append, List.length_singleton,
      MorselCursor.claims, hs.claims]
    simp only [claim]
    rfl
  case behind =>
    intro v hv
    exact UInt64.le_trans (hs.le_cursor hv) further
  case held =>
    intro u v hv
    rcases held_of_hold (s := s.advance _) hv with seen | before
    · cases seen
    · exact List.mem_cons_of_mem _ (hs.held u v before)
  case ended =>
    intro u hu
    rcases List.mem_append.1 hu with hu | hu
    · exact UInt64.le_trans (hs.ended u hu) further
    · simp at hu

theorem Consistent.step (hs : Consistent c s) {a : Action} (h : c.step s a = some s') : Consistent c s' := by
  obtain ⟨w, seen, shown, rfl⟩ | ⟨w, seen, held, done, rfl⟩ | ⟨w, more, rfl⟩ := step_eq_some h
  · refine hs.hold w (some seen) ?_
    rintro _ ⟨⟩
    exact shown
  · exact hs.leave held done
  · exact hs.exchange w more

theorem Consistent.run {schedule : List Action} (hs : Consistent c s)
    (h : schedule.foldlM c.step s = some s') : Consistent c s' := by
  induction schedule generalizing s with
  | nil =>
    cases h
    exact hs
  | cons a schedule ih =>
    obtain ⟨s₁, h₁, h⟩ := Option.bind_eq_some_iff.1 h
    exact ih (hs.step h₁) h

theorem Consistent.ranges_eq (hs : Consistent c s) :
    s.ranges = (Morsel.tiles c.total.toNat c.size.toNat).take s.ranges.length ∧
      s.cursor.toNat = min (s.ranges.length * max c.size.toNat 1) c.total.toNat := by
  have claims := (MorselCursor.claims_ofTotal c.total.toNat c.size.toNat s.ranges.length).symm.trans hs.claims
  injection claims with ranges cursor
  injection cursor with next
  exact ⟨ranges.symm, next.symm⟩

theorem Consistent.ranges_of_ended (hs : Consistent c s) {w : Nat} (h : (w, none) ∈ s.answers) :
    s.ranges = Morsel.tiles c.total.toNat c.size.toNat := by
  obtain ⟨ranges, cursor⟩ := hs.ranges_eq
  have reached := UInt64.le_iff_toNat_le.1 (hs.ended w h)
  have all : (MorselCursor.ofTotal c.total.toNat c.size.toNat).count ≤ s.ranges.length := by
    refine Nat.not_lt.1 fun fewer => ?_
    have := MorselCursor.lt_count.1 fewer
    omega
  rwa [List.take_of_length_le (by rwa [Morsel.length_tiles])] at ranges

/-- After every schedule of the steps of any workers, the ranges handed out are disjoint, hold a row and no
more than allowed, and together the rows up to the cursor. A worker is told that there are no more only when
the cursor is at the end, and then the ranges are all pieces, each handed out once. -/
theorem run_tiles (c : Claiming) {schedule : List Action} (h : c.run schedule = some s) :
    s.ranges.Pairwise (·.stop ≤ ·.start) ∧
    (∀ m ∈ s.ranges, m.start < m.stop ∧ m.stop ≤ m.start + max c.size.toNat 1) ∧
    s.ranges.flatMap Morsel.rows = List.range s.cursor.toNat ∧
    ((∃ w, (w, none) ∈ s.answers) → s.cursor = c.total ∧
      s.ranges = Morsel.tiles c.total.toNat c.size.toNat ∧
      s.ranges.length = (MorselCursor.ofTotal c.total.toNat c.size.toNat).count ∧ s.ranges.Nodup) := by
  have hs := (consistent_initial c).run h
  obtain ⟨ranges, cursor⟩ := hs.ranges_eq
  refine ⟨?_, ?_, ?_, ?_⟩
  · rw [ranges]
    exact (Morsel.tiles_disjoint ..).sublist (List.take_sublist ..)
  · rw [ranges]
    exact fun m hm => Morsel.tile_spec (List.mem_of_mem_take hm)
  · rw [ranges, Morsel.flatMap_rows_take_tiles, ← cursor]
  · rintro ⟨w, hw⟩
    have reached := UInt64.le_iff_toNat_le.1 (hs.ended w hw)
    have all : (MorselCursor.ofTotal c.total.toNat c.size.toNat).count ≤ s.ranges.length := by
      refine Nat.not_lt.1 fun fewer => ?_
      have := MorselCursor.lt_count.1 fewer
      omega
    have tiles : s.ranges = Morsel.tiles c.total.toNat c.size.toNat := by
      rwa [List.take_of_length_le (by rwa [Morsel.length_tiles])] at ranges
    refine ⟨UInt64.toNat_inj.1 (by omega), tiles, ?_, ?_⟩
    · rw [tiles, Morsel.length_tiles]
    · rw [tiles]
      exact (Morsel.tiles_starts_ascend ..).imp fun h same => by simp [same] at h

/-- Two workers take three rows in pieces of two: both see the cursor at the start, one of them fails for no
reason and then because the other was faster, and reads where the cursor was before. -/
def contended : List Action :=
  [.load 0 0, .load 1 0, .retry 1 0, .exchange 0, .retry 1 0, .load 0 2, .retry 1 2, .exchange 1, .retry 0 2,
    .retry 0 3, .leave 0, .load 1 3, .leave 1]

theorem run_tiles_contended :
    ∃ s, (⟨3, 2⟩ : Claiming).run contended = some s ∧
      s.answers = [(0, some ⟨0, 2⟩), (1, some ⟨2, 3⟩), (0, none), (1, none)] ∧
      s.ranges = Morsel.tiles 3 2 ∧ s.cursor = 3 := by
  refine ⟨_, rfl, by decide, ?_⟩
  obtain ⟨-, -, -, ended⟩ := @run_tiles _ ⟨3, 2⟩ contended rfl
  obtain ⟨cursor, tiles, -⟩ := ended ⟨0, by decide⟩
  exact ⟨tiles, cursor⟩

end Claiming

end Columnar
