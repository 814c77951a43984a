import Columnar.Proofs.Accumulating
import Mathlib.Order.Nat

namespace Columnar.Grouping

section

variable {keys : List Column} {i j k : Nat}

theorem sameKeys_iff : sameKeys keys i j ↔ keys.map (·.token? i) = keys.map (·.token? j) :=
  List.all_eq_true.trans (groupEq_iff_tokens keys i j)

theorem sameKeys_refl (keys : List Column) (i : Nat) : sameKeys keys i i := sameKeys_iff.2 rfl

theorem sameKeys_symm (h : sameKeys keys i j) : sameKeys keys j i := sameKeys_iff.2 (sameKeys_iff.1 h).symm

theorem sameKeys_trans (h : sameKeys keys i j) (h' : sameKeys keys j k) : sameKeys keys i k :=
  sameKeys_iff.2 ((sameKeys_iff.1 h).trans (sameKeys_iff.1 h'))

theorem sameKeys_append {p : Column} : sameKeys (keys ++ [p]) i j ↔ sameKeys keys i j ∧ p.groupEq i p j := by
  simp [sameKeys]

end

def leading (keys : List Column) (n : Nat) : List Nat :=
  (List.range n).filter fun i => (List.range i).all fun j => !sameKeys keys j i

section

variable {keys : List Column} {n i j : Nat}

theorem mem_leading : i ∈ leading keys n ↔ i < n ∧ ∀ j < i, ¬ sameKeys keys j i := by
  simp [leading]

theorem pairwise_leading (keys : List Column) (n : Nat) : (leading keys n).Pairwise (· < ·) :=
  List.pairwise_lt_range.filter _

theorem exists_leading (keys : List Column) (hi : i < n) : ∃ r ∈ leading keys n, sameKeys keys r i := by
  have found : ∃ r, sameKeys keys r i := ⟨i, sameKeys_refl keys i⟩
  refine ⟨Nat.find found, mem_leading.2 ⟨(Nat.find_le (sameKeys_refl keys i)).trans_lt hi, fun j hj same => ?_⟩,
    Nat.find_spec found⟩
  exact Nat.find_min found hj (sameKeys_trans same (Nat.find_spec found))

end

structure Leads (g : Grouping) (keys : List Column) (n : Nat) : Prop extends g.Numbered n where
  firstRows : g.firstRows = (leading keys n).toArray
  ids : ∀ id r : Nat, (leading keys n)[id]? = some r → ∀ i < n, g.ids[i]? = some id ↔ sameKeys keys r i

namespace Leads

variable {g : Grouping} {keys : List Column} {n id r : Nat} (h : g.Leads keys n)

include h

theorem size_eq : g.size = (leading keys n).length := by
  rw [← h.firsts, h.firstRows, List.size_toArray]

theorem rowsOf_eq (leads : (leading keys n)[id]? = some r) :
    g.rowsOf id = (List.range n).filter (sameKeys keys r) := by
  rw [rowsOf, h.height]
  refine List.filter_congr fun i hi => ?_
  rw [← Bool.coe_iff_coe, decide_eq_true_eq, h.ids id r leads i (List.mem_range.1 hi)]

end Leads

namespace Partitions

variable {g : Grouping} {keys : List Column} {n : Nat} (h : g.Partitions keys n)

include h

theorem ids_eq_iff {i j : Nat} (hi : i < n) (hj : j < n) : g.ids[i]? = g.ids[j]? ↔ sameKeys keys i j :=
  (h.classes i hi j hj).trans List.all_eq_true.symm

theorem mem_firstRows {row : Nat} : row ∈ g.firstRows.toList ↔ row ∈ leading keys n := by
  rw [mem_leading, Array.mem_toList_iff, Array.mem_iff_getElem?]
  constructor
  · rintro ⟨id, hrow⟩
    obtain ⟨at_row, before⟩ := h.first id row hrow
    have lt : row < n := h.height ▸ (Array.getElem?_eq_some_iff.1 at_row).1
    exact ⟨lt, fun j hj eq => before j hj (((h.ids_eq_iff (hj.trans lt) lt).2 eq).trans at_row)⟩
  · rintro ⟨lt, before⟩
    obtain ⟨id, hid⟩ : ∃ id, g.ids[row]? = some id := ⟨_, Array.getElem?_eq_getElem (h.height ▸ lt)⟩
    obtain ⟨first, hfirst⟩ : ∃ first, g.firstRows[id]? = some first :=
      ⟨_, Array.getElem?_eq_getElem (h.firsts ▸ h.below id (Array.mem_of_getElem? hid))⟩
    obtain ⟨at_first, least⟩ := h.first id first hfirst
    have le : first ≤ row := Nat.le_of_not_lt fun gt => least row gt hid
    have ge : ¬ first < row := fun gt => before first gt ((h.ids_eq_iff (gt.trans lt) lt).1 (at_first.trans hid.symm))
    obtain rfl : first = row := by omega
    exact ⟨id, hfirst⟩

theorem leads (numbered : g.Numbered n) : g.Leads keys n := by
  have firstRows : g.firstRows = (leading keys n).toArray := by
    rw [← Array.toList_inj, List.toList_toArray]
    exact h.ascending.eq_of_mem_iff (pairwise_leading keys n) fun _ => h.mem_firstRows
  refine ⟨numbered, firstRows, fun id r leads i hi => ?_⟩
  have at_r : g.ids[r]? = some id := (h.first id r (by rw [firstRows, List.getElem?_toArray, leads])).1
  have lt : r < n := h.height ▸ (Array.getElem?_eq_some_iff.1 at_r).1
  rw [← h.ids_eq_iff lt hi, at_r, eq_comm]

end Partitions

theorem ofKeys_leads (host : Host) {keys : List Column} {n : Nat} (nonempty : keys ≠ [])
    (heights : ∀ k ∈ keys, k.height = n) (sound : ∀ k ∈ keys, k.Sound) : (ofKeys host keys).Leads keys n := by
  have height : Column.heightOf keys = n := Column.heightOf_eq nonempty heights
  have seen := @seen_placed _ (fun i => keys.map (·.token? i)) (sameKeys keys) (fun _ _ => sameKeys_iff) n
  refine Partitions.leads ?_ (height ▸ ofKeys_numbered host keys)
  rw [ofKeys_eq host heights sound, height]
  exact seen.partitions (groupEq_iff_tokens keys)

end Columnar.Grouping
