import Columnar.Proofs.Buckets
import Columnar.Proofs.Hashes
import Columnar.Proofs.Outcome
import Columnar.Proofs.Spreading

namespace Columnar

namespace Grouping

def place (same : Nat → Nat → Bool) (s : Array Nat × Array Nat) (row : Nat) : Array Nat × Array Nat :=
  match (numbered s.2).find? fun (_, first) => same first row with
  | some (g, _) => (s.1.push g, s.2)
  | none => (s.1.push s.2.size, s.2.push row)

def placed (same : Nat → Nat → Bool) (n : Nat) : Array Nat × Array Nat :=
  (List.range n).foldl (place same) (#[], #[])

theorem placed_succ (same : Nat → Nat → Bool) (n : Nat) :
    placed same (n + 1) = place same (placed same n) n := by
  rw [placed, List.range_succ, List.foldl_append]
  rfl

theorem placed_spec (same : Nat → Nat → Bool) (n : Nat) :
    (placed same n).1.size = n ∧ (placed same n).2.size ≤ n ∧ ∀ first ∈ (placed same n).2, first < n := by
  induction n with
  | zero => exact ⟨rfl, Nat.le_refl 0, nofun⟩
  | succ n ih =>
    obtain ⟨size, fewer, below⟩ := ih
    rw [placed_succ, place]
    split
    · exact ⟨by simp [size], Nat.le_succ_of_le fewer, fun first hf => Nat.lt_succ_of_lt (below first hf)⟩
    · refine ⟨by simp [size], by simpa using fewer, fun first hf => ?_⟩
      rcases Array.mem_push.1 hf with hf | rfl
      · exact Nat.lt_succ_of_lt (below first hf)
      · exact Nat.lt_succ_self _

theorem find?_bucket {hashes : Array UInt64} {same : Nat → Nat → Bool} {firsts : Array Nat} {n : Nat} {h : UInt64}
    (below : ∀ first ∈ firsts, first < n) (hh : hashes[n]? = some h)
    (coarse : ∀ first < n, same first n → hashes[first]? = hashes[n]?) :
    ((bucket hashes firsts h).find? fun p => same p.2 n) = (numbered firsts).find? fun p => same p.2 n := by
  have all : ∀ p ∈ numbered firsts, p.2 < n := fun p hp => below _ (mem_of_mem_numbered hp)
  rw [bucket, List.find?_filter]
  generalize numbered firsts = groups at all
  induction groups with
  | nil => rfl
  | cons p groups ih =>
    obtain ⟨hp, all⟩ := List.forall_mem_cons.1 all
    rw [List.find?_cons, List.find?_cons, ih all]
    by_cases hsame : same p.2 n
    · simp [hsame, coarse p.2 hp hsame, hh]
    · simp [hsame]

structure Indexed (hashes : Array UInt64) (same : Nat → Nat → Bool) (a : Assignment) (n : Nat) : Prop where
  ids : a.ids = (placed same n).1
  firsts : a.firstRows = (placed same n).2
  linked : a.Linked
  chained : Chained hashes a.firstRows a.heads a.links

theorem Indexed.next {hashes : Array UInt64} {same : Nat → Nat → Bool} {a : Assignment} {n : Nat}
    {h : UInt64} (hs : Indexed hashes same a n) (hh : hashes[n]? = some h)
    (coarse : ∀ first < n, same first n → hashes[first]? = hashes[n]?) :
    Indexed hashes same (a.next same h) (n + 1) := by
  obtain ⟨ids, firsts, linked, chained⟩ := hs
  obtain ⟨size, -, below⟩ := placed_spec same n
  rw [← ids] at size
  rw [← firsts] at below
  have search := find?_bucket below hh coarse
  have place : placed same (n + 1) = match (numbered a.firstRows).find? fun p => same p.2 n with
      | some (g, _) => (a.ids.push g, a.firstRows)
      | none => (a.ids.push a.firstRows.size, a.firstRows.push n) := by
    rw [placed_succ, ids, firsts]
    rfl
  rw [← search] at place
  subst size
  have linked' := linked.next_linked same h
  obtain ⟨head, eq⟩ | ⟨g, f, head, -, stops⟩ := linked.next_cases same h
  · rw [chained.bucket_eq_nil head] at place
    rw [eq] at linked' ⊢
    exact ⟨congrArg (·.1) place.symm, congrArg (·.2) place.symm, linked', chained.first linked.size hh head⟩
  · have stop := @Assignment.Linked.walk_chain same a a.ids.size linked _ _ (head ▸ chained h)
    split at stop
    next p found =>
      rw [found] at place
      obtain ⟨stop', eq⟩ | ⟨stop', -⟩ := stops
      · cases stop.symm.trans stop'
        rw [eq] at linked' ⊢
        exact ⟨congrArg (·.1) place.symm, congrArg (·.2) place.symm, linked', chained⟩
      · cases stop.symm.trans stop'
    next notFound =>
      obtain ⟨p, ends, stop⟩ := stop
      rw [notFound] at place
      obtain ⟨stop', -⟩ | ⟨stop', eq⟩ := stops
      · cases stop.symm.trans stop'
      · cases stop.symm.trans stop'
        rw [eq] at linked' ⊢
        exact ⟨congrArg (·.1) place.symm, congrArg (·.2) place.symm, linked',
          chained.behind linked.size hh head ends⟩

theorem indexed_assign {hashes : Array UInt64} {same : Nat → Nat → Bool}
    (coarse : ∀ i < hashes.size, ∀ j < hashes.size, same i j → hashes[i]? = hashes[j]?) :
    Indexed hashes same (assign hashes same) hashes.size := by
  refine Array.foldl_induction (fun n a => Indexed hashes same a n)
    ⟨rfl, rfl, Assignment.linked_empty, chained_empty hashes⟩ fun n a ih => ?_
  exact ih.next (Array.getElem?_eq_getElem n.isLt) fun first hf hs =>
    coarse first (Nat.lt_trans hf n.isLt) n n.isLt hs

/-- The groups by some hashes are those that are found without hashes. -/
theorem assign_eq_placed {hashes : Array UInt64} {same : Nat → Nat → Bool}
    (coarse : ∀ i < hashes.size, ∀ j < hashes.size, same i j → hashes[i]? = hashes[j]?) :
    (assign hashes same).ids = (placed same hashes.size).1 ∧
      (assign hashes same).firstRows = (placed same hashes.size).2 :=
  ⟨(indexed_assign coarse).ids, (indexed_assign coarse).firsts⟩

theorem keyHashes_eq (host : Host) (keys : List Column) (height : Nat) :
    keyHashes host keys height = Hasher.keys (keys.map (Hasher.rows host.hasher.code)) height := by
  have tasks : host.pool.tasks keys.length (fun i => (keys[i]?.map (Hasher.rows host.hasher.code)).getD #[]) =
      keys.map (Hasher.rows host.hasher.code) := by
    rw [Pool.tasks_eq_map]
    refine List.ext_getElem? fun i => ?_
    rw [List.getElem?_map, List.getElem?_map]
    by_cases hi : i < keys.length
    · rw [List.getElem?_range hi, List.getElem?_eq_getElem hi]
      simp [hi]
    · rw [List.getElem?_eq_none (by simpa using hi), List.getElem?_eq_none (by simpa using hi)]
      rfl
  simp only [keyHashes, tasks, ite_self]

theorem size_keyHashes (host : Host) (keys : List Column) :
    (keyHashes host keys (Column.heightOf keys)).size = Column.heightOf keys := by
  rw [keyHashes_eq]
  cases keys with
  | nil => rfl
  | cons c cs => exact (Hasher.size_foldl_combine _ _).trans (Hasher.size_rows _ c)

theorem keyHashes_coarse (host : Host) {keys : List Column} {n : Nat} (heights : ∀ k ∈ keys, k.height = n)
    (sound : ∀ k ∈ keys, k.Sound) {i j : Nat} (hi : i < n) (hj : j < n) (same : sameKeys keys i j) :
    (keyHashes host keys (Column.heightOf keys))[i]? = (keyHashes host keys (Column.heightOf keys))[j]? := by
  have each : ∀ k ∈ keys, (Hasher.rows host.hasher.code k)[i]? = (Hasher.rows host.hasher.code k)[j]? :=
    fun k hk => host.hasher.getElem?_rows_of_groupEq ((sound k hk).onePlace i j) (heights k hk ▸ hi) (heights k hk ▸ hj)
      (List.all_eq_true.1 same k hk)
  rw [keyHashes_eq]
  cases keys with
  | nil => simp [Hasher.keys, Column.heightOf]
  | cons k ks =>
    have all : List.Forall₂ (fun x y : Array UInt64 => x[i]? = y[j]?)
        ((k :: ks).map (Hasher.rows host.hasher.code)) ((k :: ks).map (Hasher.rows host.hasher.code)) := by
      rw [List.forall₂_map_left_iff, List.forall₂_map_right_iff]
      exact List.forall₂_same.2 each
    exact Hasher.getElem?_keys_congr all (List.cons_ne_nil _ _)

theorem ofKeys_eq (host : Host) {keys : List Column} {n : Nat} (heights : ∀ k ∈ keys, k.height = n)
    (sound : ∀ k ∈ keys, k.Sound) :
    ofKeys host keys = counted (placed (sameKeys keys) (Column.heightOf keys)).1
      (placed (sameKeys keys) (Column.heightOf keys)).2 := by
  have below {i : Nat} (hi : i < (keyHashes host keys (Column.heightOf keys)).size) : keys = [] ∨ i < n := by
    rw [size_keyHashes] at hi
    cases keys with
    | nil => exact .inl rfl
    | cons k ks => exact .inr (heights k List.mem_cons_self ▸ hi)
  obtain ⟨ids, firsts⟩ := @assign_eq_placed (keyHashes host keys (Column.heightOf keys)) (sameKeys keys)
    fun i hi j hj h => by
      rcases below hi with rfl | hi'
      · rw [size_keyHashes] at hi
        exact absurd hi (Nat.not_lt_zero i)
      · rcases below hj with rfl | hj'
        · rw [size_keyHashes] at hj
          exact absurd hj (Nat.not_lt_zero j)
        · exact keyHashes_coarse host heights sound hi' hj' h
  rw [size_keyHashes] at ids firsts
  simp only [ofKeys, ofAssignment, ids, firsts]

theorem firstRows_ofKeys (host : Host) {keys : List Column} {n : Nat} (heights : ∀ k ∈ keys, k.height = n)
    (sound : ∀ k ∈ keys, k.Sound) :
    (ofKeys host keys).firstRows.size ≤ Column.heightOf keys ∧
      ∀ first ∈ (ofKeys host keys).firstRows, first < Column.heightOf keys := by
  rw [ofKeys_eq host heights sound]
  exact (placed_spec (sameKeys keys) (Column.heightOf keys)).2

theorem ofKeys_congr (host : Host) {keys keys' : List Column} (h : List.Forall₂ Column.Alike keys keys')
    {n : Nat} (heights : ∀ k ∈ keys, k.height = n) : ofKeys host keys = ofKeys host keys' := by
  have same : sameKeys keys = sameKeys keys' := by
    funext i j
    clear heights
    simp only [sameKeys]
    induction h with
    | nil => rfl
    | cons hk _ ih => rw [List.all_cons, List.all_cons, hk.groupEq hk, ih]
  have height : Column.heightOf keys = Column.heightOf keys' := by
    cases h with
    | nil => rfl
    | cons hk _ => exact hk.height
  have heights' : ∀ k ∈ keys', k.height = n := fun k hk => by
    obtain ⟨c, hc, hck⟩ := exists_left h k hk
    exact hck.height.symm.trans (heights c hc)
  have sound : ∀ k ∈ keys, k.Sound := fun k hk => by
    obtain ⟨c, _, hck⟩ := exists_right h k hk
    exact hck.sound.1
  have sound' : ∀ k ∈ keys', k.Sound := fun k hk => by
    obtain ⟨c, _, hck⟩ := exists_left h k hk
    exact hck.sound.2
  rw [ofKeys_eq host heights sound, ofKeys_eq host heights' sound', same, height]

end Grouping

end Columnar
