import Columnar.Grouping

namespace Columnar.Grouping

/-- The groups from one on along the links, each with its first row. -/
inductive Chain (firstRows : Array Nat) (links : Array (Option Nat)) : Option Nat → List (Nat × Nat) → Prop
  | nil : Chain firstRows links none []
  | cons {g row : Nat} {next : Option Nat} {groups : List (Nat × Nat)} (first : firstRows[g]? = some row)
    (link : links[g]? = some next) (rest : Chain firstRows links next groups) :
    Chain firstRows links (some g) ((g, row) :: groups)

namespace Chain

variable {firstRows : Array Nat} {links : Array (Option Nat)} {head : Option Nat} {groups : List (Nat × Nat)}

theorem push (chain : Chain firstRows links head groups) (row : Nat) (link : Option Nat) :
    Chain (firstRows.push row) (links.push link) head groups := by
  induction chain with
  | nil => exact .nil
  | cons first link _ ih =>
    have inRows := (Array.getElem?_eq_some_iff.1 first).1
    have inLinks := (Array.getElem?_eq_some_iff.1 link).1
    refine .cons ?_ ?_ ih
    · rwa [Array.getElem?_push, if_neg (Nat.ne_of_lt inRows)]
    · rwa [Array.getElem?_push, if_neg (Nat.ne_of_lt inLinks)]

theorem eq_nil (chain : Chain firstRows links none groups) : groups = [] := by
  cases chain
  rfl

theorem set (chain : Chain firstRows links head groups) {g : Nat} (link : Option Nat)
    (other : ∀ p ∈ groups, p.1 ≠ g) : Chain firstRows (links.setIfInBounds g link) head groups := by
  induction chain with
  | nil => exact .nil
  | cons first at_ _ ih =>
    obtain ⟨ne, other⟩ := List.forall_mem_cons.1 other
    exact .cons first (by rwa [Array.getElem?_setIfInBounds_ne (Ne.symm ne)]) (ih other)

theorem append {g : Nat} (chain : Chain firstRows links (some g) groups) (size : links.size = firstRows.size)
    (distinct : (groups.map (·.1)).Nodup) {last : Nat × Nat} (ends : groups.getLast? = some last) (row : Nat) :
    Chain (firstRows.push row) ((links.setIfInBounds last.1 (some firstRows.size)).push none) (some g)
      (groups ++ [(firstRows.size, row)]) := by
  generalize hs : some g = start at chain
  induction chain generalizing g with
  | nil => cases hs
  | @cons g' first next groups atRow link rest ih =>
    obtain rfl := Option.some.inj hs
    have inRows := (Array.getElem?_eq_some_iff.1 atRow).1
    have atRow' : (firstRows.push row)[g]? = some first := by
      rwa [Array.getElem?_push, if_neg (Nat.ne_of_lt inRows)]
    have link' : ((links.setIfInBounds last.1 (some firstRows.size)).push none)[g]? =
        if last.1 = g then some (some firstRows.size) else links[g]? := by
      rw [Array.getElem?_push, if_neg (by simpa [size] using Nat.ne_of_lt inRows), Array.getElem?_setIfInBounds]
      split
      next eq => rw [if_pos (eq ▸ size ▸ inRows)]
      next => rfl
    cases rest with
    | nil =>
      obtain rfl : (g, first) = last := by simpa using ends
      refine .cons atRow' (link'.trans (if_pos rfl)) (.cons (by simp) ?_ .nil)
      rw [← size, Array.getElem?_push, if_pos (by simp)]
    | @cons next _ _ groups _ _ rest =>
      rw [List.getLast?_cons_cons] at ends
      obtain ⟨apart, distinct⟩ := List.nodup_cons.1 distinct
      have ne : last.1 ≠ g := fun eq => apart (List.mem_map.2 ⟨last, List.mem_of_getLast? ends, eq⟩)
      exact .cons atRow' (link'.trans ((if_neg ne).trans link)) (ih distinct ends rfl)

end Chain

def numbered (firsts : Array Nat) : List (Nat × Nat) := firsts.toList.zipIdx.map fun (first, g) => (g, first)

theorem numbered_push (firsts : Array Nat) (row : Nat) :
    numbered (firsts.push row) = numbered firsts ++ [(firsts.size, row)] := by
  simp [numbered, List.zipIdx_append]

theorem mem_of_mem_numbered {firsts : Array Nat} {p : Nat × Nat} (h : p ∈ numbered firsts) :
    p.2 ∈ firsts := by
  obtain ⟨q, hq, rfl⟩ := List.mem_map.1 h
  exact Array.mem_def.2 (List.fst_mem_of_mem_zipIdx hq)

theorem mem_numbered {firsts : Array Nat} {g row : Nat} : (g, row) ∈ numbered firsts ↔ firsts[g]? = some row := by
  simp only [numbered, List.mem_map, Prod.exists, List.mk_mem_zipIdx_iff_getElem?, Array.getElem?_toList, Prod.mk.injEq]
  exact ⟨fun ⟨_, _, h, hg, hrow⟩ => hg ▸ hrow ▸ h, fun h => ⟨row, g, h, rfl, rfl⟩⟩

def bucket (hashes : Array UInt64) (firsts : Array Nat) (h : UInt64) : List (Nat × Nat) :=
  (numbered firsts).filter fun p => hashes[p.2]? == some h

theorem nodup_bucket (hashes : Array UInt64) (firsts : Array Nat) (h : UInt64) :
    ((bucket hashes firsts h).map (·.1)).Nodup := by
  have numbers : (numbered firsts).map (·.1) = List.range firsts.size := by
    simp [numbered, Function.comp_def, List.range_eq_range']
  exact (List.filter_sublist.map _).nodup (numbers ▸ List.nodup_range)

theorem mem_bucket {hashes : Array UInt64} {firsts : Array Nat} {h : UInt64} {p : Nat × Nat} :
    p ∈ bucket hashes firsts h ↔ firsts[p.1]? = some p.2 ∧ hashes[p.2]? = some h := by
  rw [bucket, List.mem_filter, ← mem_numbered, beq_iff_eq]

theorem bucket_push (hashes : Array UInt64) (firsts : Array Nat) (row : Nat) (h : UInt64) :
    bucket hashes (firsts.push row) h =
      bucket hashes firsts h ++ if hashes[row]? = some h then [(firsts.size, row)] else [] := by
  rw [bucket, numbered_push, List.filter_append]
  by_cases hh : hashes[row]? = some h <;> simp [bucket, hh]

def Chained (hashes : Array UInt64) (firstRows : Array Nat) (heads : Std.HashMap UInt64 Nat)
    (links : Array (Option Nat)) : Prop :=
  ∀ h : UInt64, Chain firstRows links heads[h]? (bucket hashes firstRows h)

theorem chained_empty (hashes : Array UInt64) : Chained hashes #[] {} #[] :=
  fun h => by simpa [bucket, numbered] using .nil

namespace Chained

variable {hashes : Array UInt64} {firstRows : Array Nat} {heads : Std.HashMap UInt64 Nat}
  {links : Array (Option Nat)} {h : UInt64} {row : Nat}

theorem bucket_eq_nil (chained : Chained hashes firstRows heads links) (head : heads[h]? = none) :
    bucket hashes firstRows h = [] := by
  have chain := chained h
  rw [head] at chain
  exact chain.eq_nil

theorem first (chained : Chained hashes firstRows heads links) (size : links.size = firstRows.size)
    (hh : hashes[row]? = some h) (head : heads[h]? = none) :
    Chained hashes (firstRows.push row) (heads.insert h firstRows.size) (links.push none) := by
  intro k
  rw [bucket_push, hh, Std.HashMap.getElem?_insert]
  by_cases hk : h = k
  · subst hk
    simp only [chained.bucket_eq_nil head, beq_self_eq_true, ↓reduceIte]
    exact .cons (by simp) (by simp [← size]) .nil
  · simpa [hk] using (chained k).push row none

theorem behind (chained : Chained hashes firstRows heads links) (size : links.size = firstRows.size)
    (hh : hashes[row]? = some h) {g : Nat} (head : heads[h]? = some g) {last : Nat × Nat}
    (ends : (bucket hashes firstRows h).getLast? = some last) :
    Chained hashes (firstRows.push row) heads ((links.setIfInBounds last.1 (some firstRows.size)).push none) := by
  intro k
  rw [bucket_push, hh]
  by_cases hk : h = k
  · subst hk
    have chain := chained h
    rw [head] at chain ⊢
    simpa using chain.append size (nodup_bucket ..) ends row
  · -- The last group of a hash is in no chain of another hash.
    have other : ∀ p ∈ bucket hashes firstRows k, p.1 ≠ last.1 := fun p hp eq => by
      obtain ⟨firstP, hashP⟩ := mem_bucket.1 hp
      obtain ⟨firstLast, hashLast⟩ := mem_bucket.1 (List.mem_of_getLast? ends)
      rw [eq, firstLast] at firstP
      rw [← Option.some.inj firstP, hashLast] at hashP
      exact hk (Option.some.inj hashP)
    simpa [hk] using ((chained k).set _ other).push row none

end Chained

namespace Assignment

/-- Hashes and groups lead to groups, which a walk upwards along the links never leaves. -/
structure Linked (a : Assignment) : Prop where
  size : a.links.size = a.firstRows.size
  head : ∀ (h : UInt64) (g : Nat), a.heads[h]? = some g → g < a.firstRows.size
  next : ∀ g next : Nat, a.links[g]? = some (some next) → g < next ∧ next < a.links.size

variable {same : Nat → Nat → Bool} {a : Assignment} {row : Nat}

theorem linked_empty : empty.Linked := ⟨rfl, by simp [empty], nofun⟩

theorem Linked.walk (linked : a.Linked) {g : Nat} (h : g < a.firstRows.size) :
    ∃ f < a.firstRows.size, a.walk same row g = .found f ∨ a.walk same row g = .last f := by
  fun_induction Assignment.walk same a row g with
  | case1 g none => exact absurd h (by simpa using none)
  | case2 g first _ eq => exact ⟨g, h, .inl rfl⟩
  | case3 g first _ ne none => exact absurd (linked.size ▸ h) (by simpa using none)
  | case4 g first _ ne _ => exact ⟨g, h, .inr rfl⟩
  | case5 g first _ ne next link up ih => exact ih (linked.size ▸ up.2)
  | case6 g first _ ne next link up => exact absurd (linked.next g next link) up

theorem Linked.next_cases (linked : a.Linked) (same : Nat → Nat → Bool) (h : UInt64) :
    (a.heads[h]? = none ∧ a.next same h = ⟨a.ids.push a.firstRows.size, a.firstRows.push a.ids.size,
        a.heads.insert h a.firstRows.size, a.links.push none⟩) ∨
      ∃ g f, a.heads[h]? = some g ∧ f < a.firstRows.size ∧
        (a.walk same a.ids.size g = .found f ∧ a.next same h = { a with ids := a.ids.push f } ∨
          a.walk same a.ids.size g = .last f ∧ a.next same h = ⟨a.ids.push a.firstRows.size,
            a.firstRows.push a.ids.size, a.heads, (a.links.setIfInBounds f (some a.firstRows.size)).push none⟩) := by
  unfold Assignment.next
  cases head : a.heads[h]? with
  | none => exact .inl ⟨rfl, rfl⟩
  | some g =>
    obtain ⟨f, hf, stop | stop⟩ := @Linked.walk same _ a.ids.size linked _ (linked.head h g head)
    · exact .inr ⟨g, f, rfl, hf, .inl ⟨stop, by simp only [stop]⟩⟩
    · exact .inr ⟨g, f, rfl, hf, .inr ⟨stop, by simp only [stop]⟩⟩

theorem Linked.next_linked (linked : a.Linked) (same : Nat → Nat → Bool) (h : UInt64) : (a.next same h).Linked := by
  obtain ⟨-, eq⟩ | ⟨g, f, -, hf, ⟨-, eq⟩ | ⟨-, eq⟩⟩ := linked.next_cases same h
  · rw [eq]
    refine ⟨by simp [linked.size], fun k g hg => ?_, fun g next hnext => ?_⟩
    · rw [Array.size_push]
      rw [Std.HashMap.getElem?_insert] at hg
      split at hg
      · cases hg
        exact Nat.lt_succ_self _
      · exact Nat.lt_succ_of_lt (linked.head k g hg)
    · rw [Array.getElem?_push] at hnext
      split at hnext
      · cases hnext
      · obtain ⟨up, below⟩ := linked.next g next hnext
        exact ⟨up, by simpa using Nat.lt_succ_of_lt below⟩
  · rw [eq]
    exact ⟨linked.size, linked.head, linked.next⟩
  · rw [eq]
    refine ⟨by simp [linked.size], fun k g hg => ?_, fun g next hnext => ?_⟩
    · simpa using Nat.lt_succ_of_lt (linked.head k g hg)
    · rw [Array.getElem?_push, Array.getElem?_setIfInBounds] at hnext
      split at hnext
      · cases hnext
      · split at hnext
        next eq =>
          subst eq
          rw [if_pos (linked.size ▸ hf)] at hnext
          cases hnext
          exact ⟨hf, by simp [linked.size]⟩
        next =>
          obtain ⟨up, below⟩ := linked.next g next hnext
          exact ⟨up, by simpa using Nat.lt_succ_of_lt below⟩

/-- The search goes along a chain and stops at the first group that has the key, or else at the last one. -/
theorem Linked.walk_chain (linked : a.Linked) {g : Nat} {groups : List (Nat × Nat)}
    (chain : Chain a.firstRows a.links (some g) groups) :
    match groups.find? fun p => same p.2 row with
    | some p => a.walk same row g = .found p.1
    | none => ∃ p, groups.getLast? = some p ∧ a.walk same row g = .last p.1 := by
  generalize hs : some g = start at chain
  induction chain generalizing g with
  | nil => cases hs
  | @cons g' first next groups atRow link rest ih =>
    obtain rfl := Option.some.inj hs
    rw [List.find?_cons, Assignment.walk, atRow]
    dsimp only
    cases eq : same first row with
    | true => rfl
    | false =>
      rw [link]
      cases rest with
      | nil => exact ⟨_, rfl, rfl⟩
      | cons =>
        rw [List.getLast?_cons_cons]
        simpa [linked.next _ _ link] using ih rfl

end Assignment

theorem assign_linked (hashes : Array UInt64) (same : Nat → Nat → Bool) : (assign hashes same).Linked :=
  Array.foldl_induction (fun _ => Assignment.Linked) Assignment.linked_empty fun _ _ linked => linked.next_linked same _

end Columnar.Grouping
