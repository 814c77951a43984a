import Columnar.Column.Stack
import Columnar.Proofs.Encoding
import Columnar.Proofs.Reading

namespace Columnar

theorem getElem?_filterMap_of_isSome {f : α → Option β} {xs : List α}
    (h : ∀ x ∈ xs, (f x).isSome) (i : Nat) : (xs.filterMap f)[i]? = xs[i]?.bind f := by
  induction xs generalizing i with
  | nil => simp
  | cons x xs ih =>
    obtain ⟨y, hy⟩ := Option.isSome_iff_exists.1 (h x List.mem_cons_self)
    rw [List.filterMap_cons_some hy]
    cases i with
    | zero => simp [hy]
    | succ i => simpa using ih (fun z hz => h z (List.mem_cons_of_mem x hz)) i

theorem mul_add_div_of_lt {q h k : Nat} (hk : k < h) : (q * h + k) / h = q := by
  rw [Nat.mul_comm, Nat.mul_add_div (Nat.zero_lt_of_lt hk), Nat.div_eq_of_lt hk, Nat.add_zero]

theorem getElem?_blocks (f : α → Nat → β) {h : Nat} (pos : 0 < h) (xs : List α) (r : Nat) :
    (xs.flatMap fun x => (List.range h).map (f x))[r]? = xs[r / h]?.map (f · (r % h)) := by
  induction xs generalizing r with
  | nil => rfl
  | cons x xs ih =>
    rw [List.flatMap_cons, List.getElem?_append, List.length_map, List.length_range]
    by_cases lt : r < h
    · rw [if_pos lt, Nat.div_eq_of_lt lt, Nat.mod_eq_of_lt lt]
      simp [lt]
    · obtain ⟨s, rfl⟩ := Nat.exists_eq_add_of_le' (Nat.le_of_not_lt lt)
      rw [if_neg lt, Nat.add_sub_cancel, ih, Nat.add_div_right s pos, Nat.add_mod_right]
      rfl

namespace Mask

def kept (m : Mask) : List Nat := (List.range m.size).filter m.holds

theorem lt_size_of_mem_kept {m : Mask} {i : Nat} (h : i ∈ m.kept) : i < m.size :=
  List.mem_range.1 (List.mem_filter.1 h).1

theorem length_kept_le (m : Mask) : m.kept.length ≤ m.size :=
  Nat.le_trans (List.length_filter_le ..) (Nat.le_of_eq List.length_range)

theorem filterMap_zip (xs : List α) (bs : List (Option Bool)) (h : xs.length = bs.length) :
    ((xs.zip bs).filterMap fun (x, b) => if b = some true then some x else none) =
      ((List.range bs.length).filter fun i => bs[i]?.join == some true).filterMap (xs[·]?) := by
  induction xs generalizing bs with
  | nil => cases bs <;> simp_all
  | cons x xs ih =>
    cases bs with
    | nil => cases h
    | cons b bs =>
      have rest := ih bs (Nat.succ.inj h)
      rw [List.length_cons, List.range_succ_eq_map, List.filter_cons, List.filter_map]
      by_cases hb : b = some true <;>
        simp [hb, rest, List.filterMap_map, Function.comp_def]

theorem toList_keep (m : Mask) (rows : Array α) (h : rows.size = m.size) :
    (m.keep rows).toList = m.kept.filterMap (rows[·]?) := by
  have list := filterMap_zip rows.toList m.toList (by simpa using h)
  simp only [Array.length_toList, Array.getElem?_toList] at list
  simp only [keep, Array.toList_filterMap, Array.toList_zip]
  exact list

theorem isSome_of_mem_kept {m : Mask} {rows : Array α} (h : rows.size = m.size) :
    ∀ i ∈ m.kept, (rows[i]?).isSome := fun i hi => by
  simpa [h] using lt_size_of_mem_kept hi

theorem getElem?_keep (m : Mask) (rows : Array α) (h : rows.size = m.size) (i : Nat) :
    (m.keep rows)[i]? = m.kept[i]?.bind (rows[·]?) := by
  rw [← getElem?_filterMap_of_isSome (isSome_of_mem_kept h), ← toList_keep m rows h,
    Array.getElem?_toList]

theorem size_keep (m : Mask) (rows : Array α) (h : rows.size = m.size) :
    (m.keep rows).size = m.kept.length := by
  rw [← Array.length_toList, toList_keep m rows h, List.length_filterMap_eq_countP]
  exact List.countP_eq_length.2 (isSome_of_mem_kept h)

theorem count_eq (m : Mask) : m.count = m.kept.length := by
  have list (bs : List (Option Bool)) : bs.countP (· == some true) =
      ((List.range bs.length).filter fun i => bs[i]?.join == some true).length := by
    induction bs with
    | nil => rfl
    | cons b bs ih =>
      rw [List.length_cons, List.range_succ_eq_map, List.filter_cons, List.filter_map,
        List.countP_cons, ih]
      by_cases hb : b = some true <;> simp [hb, Function.comp_def]
  have := list m.toList
  simp only [Array.length_toList, Array.getElem?_toList, Array.countP_toList] at this
  exact this

end Mask

namespace Cells

theorem height_rearrange (c : Cells) (n : Nat)
    (move : {α : Type} → Array (Option α) → Array (Option α))
    (h : ∀ {α : Type} (rows : Array (Option α)), rows.size = c.height → (move rows).size = n) :
    (c.rearrange n move).height = n := by
  cases c <;> first | rfl | exact h _ rfl

theorem dtype_rearrange (c : Cells) (n : Nat)
    (move : {α : Type} → Array (Option α) → Array (Option α)) :
    (c.rearrange n move).dtype = c.dtype := by
  cases c <;> rfl

theorem rearrange_rearrange (c : Cells) (m n : Nat) (move then' : {α : Type} → Array (Option α) → Array (Option α)) :
    (c.rearrange m move).rearrange n then' = c.rearrange n fun rows => then' (move rows) := by cases c <;> rfl

theorem held?_rearrange (c : Cells) (n : Nat)
    (move : {α : Type} → Array (Option α) → Array (Option α)) (src : Nat → Option Nat)
    (h : ∀ {α : Type} (rows : Array (Option α)), rows.size = c.height →
      ∀ i, (move rows)[i]?.join = (src i).bind (rows[·]?.join)) (i : Nat) :
    (c.rearrange n move).held? i = (src i).bind c.held? := by
  cases c with
  | null m => cases src i <;> rfl
  | _ =>
    simp only [rearrange, held?, h _ rfl, Option.map_bind]
    rfl

end Cells

namespace Column

theorem height_take (c : Column) (g : Gather) : (c.take g).height = g.size :=
  Cells.height_rearrange c.cells g.size g.pick fun _ _ => Array.size_map

@[simp] theorem dtype_take (c : Column) (g : Gather) : (c.take g).dtype = c.dtype :=
  Cells.dtype_rearrange c.cells g.size g.pick

theorem held?_take (c : Column) (g : Gather) (i : Nat) :
    (c.take g).held? i = g[i]?.join.bind c.held? := by
  refine Cells.held?_rearrange c.cells g.size g.pick (fun i => g[i]?.join) (fun rows _ i => ?_) i
  rw [Gather.pick, Array.getElem?_map]
  cases g[i]? with
  | none => rfl
  | some j => cases j <;> rfl

theorem reads_take (c : Column) (g : Gather) (i : Nat) :
    (c.take g).reads i = g[i]?.join.bind c.reads := by
  rw [reads, held?_take, Option.map_bind]
  rfl

theorem sound_rearrange {c : Column} (h : c.Sound) (name : String) (n : Nat)
    (move : {α : Type} → Array (Option α) → Array (Option α)) :
    (Column.mk name (c.cells.rearrange n move)).Sound := by
  obtain ⟨_, cells⟩ := c
  cases cells with
  | categorical d =>
    rintro _ ⟨⟩
    exact h d rfl
  | _ => nofun

theorem sound_take {c : Column} (h : c.Sound) (g : Gather) : (c.take g).Sound :=
  sound_rearrange h c.name g.size g.pick

theorem Alike.take {c d : Column} (h : c.Alike d) (g : Gather) : (c.take g).Alike (d.take g) :=
  ⟨by rw [dtype_take, dtype_take, h.dtype], by rw [height_take, height_take],
    fun i => by rw [reads_take, reads_take, funext h.reads], sound_take h.sound.1 g, sound_take h.sound.2 g⟩

theorem draws_gather (c : Column) (rows : List Nat) :
    Draws rows c (c.take (rows.map some).toArray) where
  dtype := dtype_take ..
  height := by simp [height_take]
  reads i := by
    rw [reads_take]
    simp only [List.getElem?_toArray, List.getElem?_map]
    cases rows[i]? <;> rfl
  sound h := sound_take h _

theorem draws_slice (c : Column) (offset n : Nat) :
    Draws (List.range' (Min.min offset c.height) (Min.min n (c.height - Min.min offset c.height))) c
      (c.slice offset n) := by
  obtain ⟨first, hfirst⟩ : ∃ k, Min.min offset c.height = k := ⟨_, rfl⟩
  obtain ⟨count, hcount⟩ : ∃ k, Min.min n (c.height - first) = k := ⟨_, rfl⟩
  have fits : first + count ≤ c.cells.height := by
    have : c.height = c.cells.height := rfl
    omega
  have slice : c.slice offset n =
      ⟨c.name, c.cells.rearrange count (·.extract first (first + count))⟩ := by
    simp only [Column.slice, hfirst, hcount]
  rw [hfirst, hcount, slice]
  refine ⟨⟨Cells.dtype_rearrange c.cells count (·.extract first (first + count)), ?_, fun i => ?_⟩,
    fun h => sound_rearrange h c.name count (·.extract first (first + count))⟩
  · rw [List.length_range']
    refine Cells.height_rearrange c.cells count (·.extract first (first + count)) fun rows h => ?_
    rw [Array.size_extract, h]
    omega
  · have held := Cells.held?_rearrange c.cells count (·.extract first (first + count))
      (fun i => (List.range' first count)[i]?) (fun rows h i => by
        rw [Array.getElem?_extract, h]
        by_cases hi : i < count
        · rw [if_pos (by omega), List.getElem?_range' hi, Nat.one_mul]
          rfl
        · rw [if_neg (by omega), List.getElem?_eq_none (by simpa using hi)]
          rfl) i
    exact (congrArg (Option.map Value.reading) held).trans Option.map_bind

theorem dtype_nulls (name : String) (n : Nat) (t : DType) : (nulls name n t).dtype = t := by
  cases t <;> rfl

theorem height_nulls (name : String) (n : Nat) (t : DType) : (nulls name n t).height = n := by
  cases t <;> simp [nulls, height, Cells.height, Dictionary.nulls]

theorem held?_nulls (name : String) (n : Nat) (t : DType) (i : Nat) : (nulls name n t).held? i = none := by
  cases t <;> simp [nulls, held?, Cells.held?, Dictionary.nulls, Array.getElem?_replicate] <;>
    split <;> simp

theorem sound_nulls (name : String) (n : Nat) (t : DType) : (nulls name n t).Sound := by
  cases t with
  | categorical =>
    rintro _ ⟨⟩
    exact List.nodup_nil
  | _ => nofun

theorem sound_ofMask (name : String) (m : Mask) : (ofMask name m).Sound :=
  sound_of_dtype nofun

theorem sound_full (name : String) (n : Nat) (v : Scalar) : (full name n v).Sound := by
  cases v <;> exact sound_of_dtype nofun

theorem draws_filter {c d : Column} {m : Mask} (h : c.filter m = .ok d) :
    m.size = c.height ∧ Draws m.kept c d := by
  unfold filter at h
  split at h
  · cases h
  next hs =>
    have hs : m.size = c.height := Decidable.not_not.1 hs
    refine ⟨hs, ?_⟩
    rw [m.count_eq] at h
    split at h
    next h0 =>
      cases h
      have nil : m.kept = [] := List.eq_nil_of_length_eq_zero h0
      exact ⟨⟨dtype_nulls .., by rw [height_nulls, nil, List.length_nil], fun i => by
        rw [reads, held?_nulls, nil]
        rfl⟩, fun _ => sound_nulls c.name 0 c.dtype⟩
    · cases h
      refine ⟨⟨Cells.dtype_rearrange c.cells _ m.keep, ?_, fun i => ?_⟩,
        fun hc => sound_rearrange hc c.name _ m.keep⟩
      · exact Cells.height_rearrange c.cells _ m.keep fun rows hr =>
          m.size_keep rows (hr.trans hs.symm)
      · have held := Cells.held?_rearrange c.cells m.kept.length m.keep (m.kept[·]?)
          (fun rows hr i => by
            rw [m.getElem?_keep rows (hr.trans hs.symm)]
            cases m.kept[i]? <;> rfl) i
        exact (congrArg (Option.map Value.reading) held).trans Option.map_bind

theorem filter_ok {c : Column} {m : Mask} (h : m.size = c.height) : ∃ d, c.filter m = .ok d := by
  unfold filter
  split
  next hs => exact absurd h hs
  · split <;> exact ⟨_, rfl⟩

theorem name_filter {c d : Column} {m : Mask} (h : c.filter m = .ok d) : d.name = c.name := by
  unfold filter at h
  split at h
  · cases h
  · split at h <;> cases h
    · cases c.dtype <;> rfl
    · rfl

end Column

end Columnar
