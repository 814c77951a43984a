import Columnar.Join
import Columnar.Proofs.Hashes
import Columnar.Proofs.Index

namespace Columnar.Join

def pairsOf (kind : JoinKind) (agree : α → β → Bool) (rs : List β) (a : α) :
    List (Option α × Option β) :=
  let partners := rs.filter (agree a)
  if kind.keepsLeft && partners.isEmpty then [(some a, none)]
  else partners.map fun b => (some a, some b)

def alone (agree : α → β → Bool) (ls : List α) (rs : List β) : List (Option α × Option β) :=
  (rs.filter fun b => !ls.any (agree · b)).map fun b => (none, some b)

/-- Each left row in turn with all right rows, then the right rows without a partner if they are kept. -/
def nestedLoop (kind : JoinKind) (agree : α → β → Bool) (ls : List α) (rs : List β) :
    List (Option α × Option β) :=
  ls.flatMap (pairsOf kind agree rs) ++ if kind.keepsRight then alone agree ls rs else []

theorem mem_nestedLoop {kind : JoinKind} {agree : α → β → Bool} {ls : List α} {rs : List β}
    {p : Option α × Option β} (h : p ∈ nestedLoop kind agree ls rs) :
    (∀ a ∈ p.1, a ∈ ls) ∧ ∀ b ∈ p.2, b ∈ rs := by
  rcases List.mem_append.1 h with h | h
  · obtain ⟨a, ha, h⟩ := List.mem_flatMap.1 h
    simp only [pairsOf] at h
    split at h
    · rw [List.mem_singleton.1 h]
      simpa using ha
    · obtain ⟨b, hb, rfl⟩ := List.mem_map.1 h
      simpa using ⟨ha, (List.mem_filter.1 hb).1⟩
  · split at h
    · obtain ⟨b, hb, rfl⟩ := List.mem_map.1 h
      simpa using (List.mem_filter.1 hb).1
    · cases h

theorem crossPairs_eq_nestedLoop (m n : Nat) :
    crossPairs m n = nestedLoop .cross (fun _ _ => true) (List.range m) (List.range n) := by
  have pairs : pairsOf .cross (fun _ _ => true) (List.range n) =
      fun l : Nat => (List.range n).map fun r => (some l, some r) := by
    funext l
    simp [pairsOf, JoinKind.keepsLeft]
  simp [crossPairs, nestedLoop, pairs, JoinKind.keepsRight]

structure Keys.Paired (k : Keys) (m n : Nat) : Prop where
  space : List.Forall₂ (fun a b => sameSpace a.dtype b.dtype) k.left k.right
  left : ∀ a ∈ k.left, a.height = m
  right : ∀ b ∈ k.right, b.height = n
  nonempty : k.left ≠ []

namespace Keys.Paired

variable {k : Keys} {m n : Nat} (hk : k.Paired m n)

include hk

theorem heightOf_left : Column.heightOf k.left = m := Column.heightOf_eq hk.nonempty hk.left

theorem right_ne_nil : k.right ≠ [] := fun h => by
  have space := hk.space
  rw [h, List.forall₂_nil_right_iff] at space
  exact hk.nonempty space

theorem heightOf_right : Column.heightOf k.right = n := Column.heightOf_eq hk.right_ne_nil hk.right

theorem forall₂_of_agree {l r : Nat} (agree : k.agree l r) :
    List.Forall₂ (fun a b => sameSpace a.dtype b.dtype ∧ a.joinEq l b r) k.left k.right := by
  have space := List.forall₂_iff_zip.1 hk.space
  exact List.forall₂_iff_zip.2 ⟨space.1, fun hab => ⟨space.2 hab, List.all_eq_true.1 agree _ hab⟩⟩

theorem hashes_eq_of_agree (h : Hasher) {l r : Nat} (agree : k.agree l r) :
    (hashes h k.left)[l]? = (hashes h k.right)[r]? := by
  refine Hasher.getElem?_keys_congr ?_ (by simpa using hk.nonempty)
  rw [List.forall₂_map_left_iff, List.forall₂_map_right_iff]
  exact (hk.forall₂_of_agree agree).imp fun a b ⟨space, eq⟩ => h.getElem?_rows_of_joinEq space eq

theorem not_anyNull_of_agree {l r : Nat} (agree : k.agree l r) :
    anyNull k.left l = false ∧ anyNull k.right r = false := by
  have held {a b : Column} (h : a.joinEq l b r) : a.isNull l = false ∧ b.isNull r = false := by
    unfold Column.joinEq at h
    split at h
    next hv hw => simp [Column.isNull, hv, hw]
    · cases h
  have all := (hk.forall₂_of_agree agree).imp fun a b h => held h.2
  generalize k.left = as at all
  generalize k.right = bs at all
  simp only [anyNull]
  induction all with
  | nil => simp
  | cons h _ ih => simp [h.1, h.2, ih.1, ih.2]

theorem filter_candidates (host : Host) {l : Nat} (hl : l < m) :
    (if anyNull k.left l then []
      else (((hashes host.hasher k.left)[l]?.map (HashIndex.build host.pool (hashes host.hasher k.right)
        (!anyNull k.right ·)).lookup).getD #[]).toList.filter (k.agree l)) =
      (List.range n).filter (k.agree l) := by
  have sizes : (hashes host.hasher k.left).size = m ∧ (hashes host.hasher k.right).size = n :=
    ⟨(Hasher.size_keys ..).trans hk.heightOf_left, (Hasher.size_keys ..).trans hk.heightOf_right⟩
  obtain ⟨x, hx⟩ : ∃ x, (hashes host.hasher k.left)[l]? = some x :=
    ⟨_, Array.getElem?_eq_getElem (sizes.1.symm ▸ hl)⟩
  split
  next hnull =>
    refine (List.filter_eq_nil_iff.2 fun r _ agree => ?_).symm
    rw [(hk.not_anyNull_of_agree agree).1] at hnull
    cases hnull
  · rw [hx, Option.map_some, Option.getD_some, HashIndex.lookup_build, sizes.2, List.filter_filter]
    refine List.filter_congr fun r _ => ?_
    by_cases agree : k.agree l r
    · have answers : HashIndex.answers (hashes host.hasher k.right) (!anyNull k.right ·) x r := by
        rw [HashIndex.answers, ← hk.hashes_eq_of_agree host.hasher agree, hx,
          (hk.not_anyNull_of_agree agree).2]
        simp
      rw [agree, answers, Bool.and_true]
    · simp [agree]

theorem hashMatches_eq (host : Host) :
    hashMatches host k =
      (List.range m).flatMap fun l => ((List.range n).filter (k.agree l)).map (l, ·) := by
  rw [hashMatches, HashIndex.collect_eq_flatMap _ _ _ _ _ fun l => by simp, hk.heightOf_left]
  refine List.flatMap_congr fun l hl => ?_
  rw [hk.filter_candidates host (List.mem_range.1 hl)]

end Keys.Paired

def besideLeft (l : Nat) (partners : List Nat) : List RowPair :=
  if partners.isEmpty then [(some l, none)] else partners.map fun r => (some l, some r)

theorem LeftWalk.step_eq (pairs : Array RowPair) (l : Nat) (rs : List Nat) {rest : List (Nat × Nat)}
    (fresh : ∀ p ∈ rest, p.1 ≠ l) :
    LeftWalk.step ⟨pairs, rs.map (l, ·) ++ rest⟩ l = ⟨pairs ++ besideLeft l rs, rest⟩ := by
  have here : ∀ p ∈ rs.map (l, ·), (p.1 == l) = true := List.forall_mem_map.2 fun _ _ => beq_self_eq_true l
  have taken : rest.takeWhile (·.1 == l) = [] := by
    cases rest with
    | nil => rfl
    | cons p rest => exact List.takeWhile_cons_of_neg (by simpa using fresh p List.mem_cons_self)
  have left : rest.dropWhile (·.1 == l) = rest := by
    cases rest with
    | nil => rfl
    | cons p rest => exact List.dropWhile_cons_of_neg (by simpa using fresh p List.mem_cons_self)
  rw [LeftWalk.step, List.takeWhile_append_of_pos here, List.dropWhile_append_of_pos here, taken, left,
    List.foldl_push_eq_append]
  cases rs with
  | nil => simp [besideLeft]
  | cons r rs => exact congrArg (LeftWalk.mk · rest) (Array.ext' (by simp [besideLeft]))

/-- The walk meets the matches of each row when it comes to it. -/
theorem LeftWalk.foldl_step (f : Nat → List Nat) (ls : List Nat) (nodup : ls.Nodup) (pairs : Array RowPair) :
    ls.foldl LeftWalk.step ⟨pairs, ls.flatMap fun l => (f l).map (l, ·)⟩ =
      ⟨pairs ++ ls.flatMap fun l => besideLeft l (f l), []⟩ := by
  induction ls generalizing pairs with
  | nil => simp
  | cons l ls ih =>
    obtain ⟨fresh, nodup⟩ := List.nodup_cons.1 nodup
    have later : ∀ p ∈ ls.flatMap fun a => (f a).map (a, ·), p.1 ≠ l := by
      rintro _ hp rfl
      obtain ⟨a, ha, hp⟩ := List.mem_flatMap.1 hp
      obtain ⟨_, _, rfl⟩ := List.mem_map.1 hp
      exact fresh ha
    rw [List.flatMap_cons, List.foldl_cons, step_eq pairs l (f l) later, ih nodup, List.flatMap_cons]
    exact congrArg (LeftWalk.mk · []) (Array.ext' (by simp))

theorem withLeft_eq (f : Nat → List Nat) (m : Nat) :
    withLeft m ((List.range m).flatMap fun l => (f l).map (l, ·)) =
      (List.range m).flatMap fun l => besideLeft l (f l) := by
  rw [withLeft, LeftWalk.foldl_step f _ List.nodup_range]
  simp

theorem getElem?_hit (found : List (Nat × Nat)) (hit : Array Bool) (r : Nat) (hr : r < hit.size) :
    (found.foldl (fun a (_, r) => a.setIfInBounds r true) hit)[r]? =
      some (hit[r] || found.any (·.2 == r)) := by
  induction found generalizing hit with
  | nil => simp [hr]
  | cons p found ih =>
    rw [List.foldl_cons, ih _ (by simpa using hr)]
    by_cases h : p.2 = r
    · simp [h]
    · simp [Array.getElem_setIfInBounds_ne hr h, beq_false_of_ne h]

theorem leftOver_eq (f : Nat → List Nat) (m n : Nat) :
    leftOver n ((List.range m).flatMap fun l => (f l).map (l, ·)) =
      ((List.range n).filter fun r => !(List.range m).any fun l => (f l).contains r).map
        fun r => (none, some r) := by
  rw [leftOver]
  congr 1
  refine List.filter_congr fun r hr => ?_
  have hr' : r < n := List.mem_range.1 hr
  rw [getElem?_hit _ _ r (by simpa using hr'), List.any_flatMap]
  have inner (l : Nat) : ((f l).map (l, ·)).any (·.2 == r) = (f l).contains r := by
    rw [List.any_map, List.contains_eq_any_beq]
    exact congrArg (List.any (f l)) (funext fun x => Bool.beq_comm)
  simp only [inner, Array.getElem_replicate, Bool.false_or, bne]
  cases (List.range m).any fun l => (f l).contains r <;> rfl

theorem hashPairs_eq_nestedLoop (host : Host) {k : Keys} {m n : Nat} (hk : k.Paired m n)
    (kind : JoinKind) :
    hashPairs host k kind = nestedLoop kind k.agree (List.range m) (List.range n) := by
  have pairs : (if kind.keepsLeft then withLeft m (hashMatches host k)
      else (hashMatches host k).map fun (l, r) => (some l, some r)) =
      (List.range m).flatMap (pairsOf kind k.agree (List.range n)) := by
    rw [hk.hashMatches_eq, withLeft_eq, List.map_flatMap, ← apply_ite (List.flatMap · (List.range m))]
    refine List.flatMap_congr fun l _ => ?_
    cases hkeeps : kind.keepsLeft <;> simp [pairsOf, besideLeft, hkeeps, Function.comp_def]
  have rest : leftOver n (hashMatches host k) = alone k.agree (List.range m) (List.range n) := by
    rw [hk.hashMatches_eq, leftOver_eq, alone]
    congr 1
    refine List.filter_congr fun r hr => ?_
    congr 2
    funext l
    simp [List.contains_eq_mem, List.mem_range.1 hr]
  simp only [hashPairs, hk.heightOf_left, hk.heightOf_right, pairs, rest, nestedLoop]
  cases kind.keepsRight <;> simp

end Columnar.Join
