import Columnar.Proofs.Partition

namespace Columnar.Grouping

structure FirstSeen (same : Nat → Nat → Bool) (n : Nat) (ids : Array Nat) (groups : Nat) : Prop where
  height : ids.size = n
  below : ∀ g ∈ ids, g < groups
  classes : ∀ i < n, ∀ j < n, ids[i]? = ids[j]? ↔ same i j
  dense : ∀ g < groups, ∃ row < n, ids[row]? = some g ∧ (∀ i < row, ids[i]? ≠ some g) ∧
    ∀ lower < g, ∃ i < row, ids[i]? = some lower

theorem Seen.firstSeen {key : Nat → κ} {same : Nat → Nat → Bool} {ids firsts : Array Nat} {n : Nat}
    (h : Seen key (ids, firsts) n) (decides : ∀ i < n, ∀ j < n, same i j ↔ key i = key j) :
    FirstSeen same n ids firsts.size where
  height := h.height
  below _ hg := h.lt_size hg
  classes i hi j hj := (h.ids_eq_iff hi hj).trans (decides i hi j hj).symm
  dense g hg := by
    have first : firsts[g]? = some firsts[g] := Array.getElem?_eq_getElem hg
    refine ⟨firsts[g], h.below _ (Array.getElem_mem hg), h.ids_of_firsts first, fun i => h.ids_before first, ?_⟩
    intro lower hl
    obtain ⟨row, lt, hrow⟩ := h.firsts_lt first hl
    exact ⟨row, lt, h.ids_of_firsts hrow⟩

def classOf (same : Nat → Nat → Bool) (n row : Nat) : List Bool := (List.range n).map (same row)

theorem classOf_eq_iff {same : Nat → Nat → Bool} {n i j : Nat} (equiv : Equivalence fun i j : Fin n => same i j)
    (hi : i < n) (hj : j < n) : same i j ↔ classOf same n i = classOf same n j := by
  rw [classOf, classOf, List.map_inj_left]
  constructor
  · intro h k hk
    have hk := List.mem_range.1 hk
    exact Bool.eq_iff_iff.2 ⟨@equiv.trans ⟨j, hj⟩ ⟨i, hi⟩ ⟨k, hk⟩ (@equiv.symm ⟨i, hi⟩ ⟨j, hj⟩ h),
      @equiv.trans ⟨i, hi⟩ ⟨j, hj⟩ ⟨k, hk⟩ h⟩
  · -- The second row is in its own class, and so in that of the first one.
    intro h
    rw [h j (List.mem_range.2 hj)]
    exact equiv.refl ⟨j, hj⟩

def endWord : UInt32 := 4294967295

def linkWord : Option Nat → UInt32
  | none => endWord
  | some g => g.toUInt32

/-- The search as a loop over words that checks no bounds: each read has to be within them, and the loop has to end. -/
inductive Walks (same : Nat → Nat → Bool) (firstRows links : Array UInt32) (row : Nat) :
    UInt32 → Assignment.Stop → Prop
  | found {g first : UInt32} (at_ : firstRows[g.toNat]? = some first) (eq : same first.toNat row) :
    Walks same firstRows links row g (.found g.toNat)
  | last {g first : UInt32} (at_ : firstRows[g.toNat]? = some first) (ne : ¬same first.toNat row)
    (link : links[g.toNat]? = some endWord) : Walks same firstRows links row g (.last g.toNat)
  | on {g first next : UInt32} {stop : Assignment.Stop} (at_ : firstRows[g.toNat]? = some first)
    (ne : ¬same first.toNat row) (link : links[g.toNat]? = some next) (more : next ≠ endWord)
    (rest : Walks same firstRows links row next stop) : Walks same firstRows links row g stop

theorem toNat_toUInt32 {g : Nat} (h : g < endWord.toNat) : g.toUInt32.toNat = g :=
  UInt32.toNat_ofNat_of_lt' (Nat.lt_trans h (by decide))

theorem toUInt32_ne_endWord {g : Nat} (h : g < endWord.toNat) : g.toUInt32 ≠ endWord := fun eq => by
  have := toNat_toUInt32 h
  rw [eq] at this
  omega

namespace Assignment

variable {same : Nat → Nat → Bool} {a : Assignment} {row g : Nat}

structure Short (a : Assignment) : Prop where
  groups : a.firstRows.size ≤ endWord.toNat
  rows : ∀ row ∈ a.firstRows, row < endWord.toNat

/-- The search is the loop over words. -/
theorem Linked.walks (linked : a.Linked) (short : a.Short) (h : g < a.firstRows.size) :
    Walks same (a.firstRows.map (·.toUInt32)) (a.links.map linkWord) row g.toUInt32 (a.walk same row g) := by
  have small {g : Nat} (h : g < a.firstRows.size) : g < endWord.toNat := Nat.lt_of_lt_of_le h short.groups
  have read {g first : Nat} (h : g < a.firstRows.size) (at_ : a.firstRows[g]? = some first) :
      (a.firstRows.map (·.toUInt32))[g.toUInt32.toNat]? = some first.toUInt32 ∧ first.toUInt32.toNat = first := by
    rw [toNat_toUInt32 (small h), Array.getElem?_map, at_]
    exact ⟨rfl, toNat_toUInt32 (short.rows first (Array.mem_of_getElem? at_))⟩
  have readLink {g : Nat} {link : Option Nat} (h : g < a.firstRows.size) (at_ : a.links[g]? = some link) :
      (a.links.map linkWord)[g.toUInt32.toNat]? = some (linkWord link) := by
    rw [toNat_toUInt32 (small h), Array.getElem?_map, at_]
    rfl
  -- The walk is led astray by heads and links to no group, of which there are none.
  fun_induction Assignment.walk same a row g with
  | case1 g none => exact absurd h (by simpa using none)
  | case2 g first at_ eq =>
    obtain ⟨at_, toNat⟩ := read h at_
    have found := @Walks.found same _ (a.links.map linkWord) row _ _ at_ (toNat.symm ▸ eq)
    rwa [toNat_toUInt32 (small h)] at found
  | case3 g first _ ne none => exact absurd (linked.size ▸ h) (by simpa using none)
  | case4 g first at_ ne link =>
    obtain ⟨at_, toNat⟩ := read h at_
    have last := @Walks.last same _ (a.links.map linkWord) row _ _ at_ (toNat.symm ▸ ne) (readLink h link)
    rwa [toNat_toUInt32 (small h)] at last
  | case5 g first at_ ne next link up ih =>
    obtain ⟨at_, toNat⟩ := read h at_
    have next := linked.size ▸ up.2
    exact .on at_ (toNat.symm ▸ ne) (readLink h link) (toUInt32_ne_endWord (small next)) (ih next)
  | case6 g first _ ne next link up => exact absurd (linked.next g next link) up

end Assignment

structure Coarse (same : Nat → Nat → Bool) (n : Nat) (hashes : Array UInt64) : Prop where
  size : hashes.size = n
  equal : ∀ i < n, ∀ j < n, same i j → hashes[i]? = hashes[j]?

namespace Coarse

variable {same : Nat → Nat → Bool} {n : Nat} {hashes : Array UInt64}

theorem take (coarse : Coarse same n hashes) {m : Nat} (h : m ≤ n) : Coarse same m (hashes.take m) where
  size := by simpa [coarse.size] using h
  equal i hi j hj eq := by
    have taken {k : Nat} (hk : k < m) : (hashes.take m)[k]? = hashes[k]? := by
      rw [← Array.getElem?_toList]
      simp [hk]
    rw [taken hi, taken hj]
    exact coarse.equal i (Nat.lt_of_lt_of_le hi h) j (Nat.lt_of_lt_of_le hj h) eq

theorem assign_eq (coarse : Coarse same n hashes) :
    (assign hashes same).ids = (placed same n).1 ∧ (assign hashes same).firstRows = (placed same n).2 := by
  obtain ⟨rfl, equal⟩ := coarse
  exact assign_eq_placed equal

theorem short (coarse : Coarse same n hashes) (h : n ≤ endWord.toNat) : (assign hashes same).Short := by
  obtain ⟨-, fewer, below⟩ := placed_spec same n
  rw [← coarse.assign_eq.2] at fewer below
  exact ⟨Nat.le_trans fewer h, fun row hrow => Nat.lt_of_lt_of_le (below row hrow) h⟩

end Coarse

/-- The rows are gone through one after the other, and no search reads what is not there. -/
structure Proceeds (same : Nat → Nat → Bool) (hashes : Array UInt64) : Prop where
  height : ∀ i ≤ hashes.size, (assign (hashes.take i) same).ids.size = i
  step : ∀ (i : Nat) (h : UInt64), hashes[i]? = some h →
    assign (hashes.take (i + 1)) same = (assign (hashes.take i) same).next same h
  search : ∀ (i : Nat) (h : UInt64) (head : Nat), hashes[i]? = some h →
    (assign (hashes.take i) same).heads[h]? = some head →
      Walks same ((assign (hashes.take i) same).firstRows.map (·.toUInt32))
        ((assign (hashes.take i) same).links.map linkWord) i head.toUInt32
        ((assign (hashes.take i) same).walk same i head)

theorem assign_take_succ {hashes : Array UInt64} {i : Nat} {h : UInt64} (hh : hashes[i]? = some h)
    (same : Nat → Nat → Bool) :
    assign (hashes.take (i + 1)) same = (assign (hashes.take i) same).next same h := by
  obtain ⟨hi, rfl⟩ := Array.getElem?_eq_some_iff.1 hh
  rw [assign, assign, ← Array.foldl_toList, ← Array.foldl_toList]
  simp [List.take_add_one, hi]

theorem Coarse.proceeds {same : Nat → Nat → Bool} {n : Nat} {hashes : Array UInt64} (coarse : Coarse same n hashes)
    (short : n < endWord.toNat) : Proceeds same hashes where
  height i hi := by
    rw [(coarse.take (coarse.size ▸ hi)).assign_eq.1]
    exact (placed_spec same i).1
  step i h hh := assign_take_succ hh same
  search i h head hh hhead := by
    have hi : i < n := coarse.size ▸ (Array.getElem?_eq_some_iff.1 hh).1
    have linked := assign_linked (hashes.take i) same
    exact linked.walks ((coarse.take (Nat.le_of_lt hi)).short (by omega)) (linked.head h head hhead)

/-- The groups are the classes of equal rows, whatever the hashes are that the search is narrowed down by. -/
theorem assign_of_equivalence (same : Nat → Nat → Bool) (n : Nat) (equiv : Equivalence fun i j : Fin n => same i j)
    (hashes hashes' : Array UInt64) (coarse : Coarse same n hashes) (coarse' : Coarse same n hashes') :
    (assign hashes same).ids = (assign hashes' same).ids ∧
      (assign hashes same).firstRows = (assign hashes' same).firstRows ∧
      FirstSeen same n (assign hashes same).ids (assign hashes same).firstRows.size ∧
      (n < endWord.toNat → Proceeds same hashes) := by
  have decides : ∀ i < n, ∀ j < n, same i j ↔ classOf same n i = classOf same n j :=
    fun i hi j hj => classOf_eq_iff equiv hi hj
  have seen : Seen (classOf same n) (placed same n) n :=
    seen_placed_of fun j hj i hi => decides i (Nat.lt_trans hi hj) j hj
  refine ⟨coarse.assign_eq.1.trans coarse'.assign_eq.1.symm, coarse.assign_eq.2.trans coarse'.assign_eq.2.symm, ?_,
    coarse.proceeds⟩
  rw [coarse.assign_eq.1, coarse.assign_eq.2]
  exact seen.firstSeen decides

def fewKeys (i j : Nat) : Bool := #[1, 2, 1, 3, 2][i]? == #[1, 2, 1, 3, 2][j]?

theorem equivalence_fewKeys (n : Nat) : Equivalence fun i j : Fin n => fewKeys i j where
  refl _ := beq_self_eq_true _
  symm h := beq_iff_eq.2 (beq_iff_eq.1 h).symm
  trans h h' := beq_iff_eq.2 ((beq_iff_eq.1 h).trans (beq_iff_eq.1 h'))

theorem assign_fewKeys :
    (assign #[7, 7, 7, 7, 7] fewKeys).ids = (assign #[8, 9, 8, 7, 9] fewKeys).ids ∧
      FirstSeen fewKeys 5 (assign #[7, 7, 7, 7, 7] fewKeys).ids (assign #[7, 7, 7, 7, 7] fewKeys).firstRows.size ∧
      Proceeds fewKeys #[7, 7, 7, 7, 7] := by
  obtain ⟨ids, -, seen, proceeds⟩ := assign_of_equivalence fewKeys 5 (equivalence_fewKeys 5) #[7, 7, 7, 7, 7]
    #[8, 9, 8, 7, 9] ⟨rfl, by decide⟩ ⟨rfl, by decide⟩
  exact ⟨ids, seen, proceeds (by decide)⟩

example : (assign #[7, 7, 7, 7, 7] fewKeys).ids = #[0, 1, 0, 2, 1] := by cbv

end Columnar.Grouping
