import Columnar.Grouping.Aggregate
import Columnar.Proofs.Doubles
import Columnar.Proofs.Partition

namespace Columnar.Grouping

def rowsOf (g : Grouping) (id : Nat) : List Nat :=
  (List.range g.ids.size).filter fun row => g.ids[row]? = some id

theorem mem_rowsOf {g : Grouping} {id row : Nat} : row ∈ g.rowsOf id ↔ g.ids[row]? = some id := by
  rw [rowsOf, List.mem_filter, List.mem_range, decide_eq_true_eq, and_iff_right_iff_imp]
  exact fun h => (Array.getElem?_eq_some_iff.1 h).1

def valuesOf (g : Grouping) (c : Column) (id : Nat) : List Value := (g.rowsOf id).filterMap c.value?

theorem mem_valuesOf {g : Grouping} {c : Column} {id : Nat} {v : Value} :
    v ∈ g.valuesOf c id ↔ ∃ row, g.ids[row]? = some id ∧ c.value? row = some v := by
  simp only [valuesOf, List.mem_filterMap, mem_rowsOf]

theorem dtype_of_mem {g : Grouping} {c : Column} {id : Nat} {v : Value} (h : v ∈ g.valuesOf c id) :
    v.dtype = c.dtype := by
  obtain ⟨row, -, hv⟩ := mem_valuesOf.1 h
  exact Column.dtype_of_value? hv

theorem filterMap_int? (g : Grouping) (c : Column) (id : Nat) :
    (g.rowsOf id).filterMap c.int? = (g.valuesOf c id).filterMap (·.int?) :=
  (List.filterMap_filterMap).symm

section

variable {α β : Type} (f : β → α → β) (g : Grouping) (slots : Array β) (id : Nat)

@[simp] theorem size_accumulate (values : Array α) (ids : Array Nat) :
    (accumulate f values ids slots).size = slots.size := by
  rw [accumulate, ← Array.foldl_toList]
  generalize (values.zip ids).toList = pairs
  induction pairs generalizing slots with
  | nil => rfl
  | cons p pairs ih => rw [List.foldl_cons, ih, Array.size_modify]

theorem filter_zipIdx : g.ids.toList.zipIdx.filter (·.1 = id) = (g.rowsOf id).map (id, ·) := by
  have all : g.ids.toList.zipIdx = (List.range g.ids.size).map fun row => (g.ids[row]?.getD 0, row) := by
    refine List.ext_getElem (by simp) fun i h _ => ?_
    have hi : i < g.ids.size := by simpa using h
    simp [hi]
  rw [all, List.filter_map, rowsOf]
  have at_row (row : Nat) (hrow : row ∈ List.range g.ids.size) :
      (decide (g.ids[row]?.getD 0 = id)) = decide (g.ids[row]? = some id) := by
    simp [List.mem_range.1 hrow]
  rw [Function.comp_def, List.filter_congr at_row]
  refine List.map_congr_left fun row hrow => ?_
  rw [(List.mem_filter.1 hrow).2 |> of_decide_eq_true]
  rfl

theorem getElem?_accumulate_ofFn (value : Nat → α) {n : Nat} (h : n = g.ids.size) :
    (accumulate f (.ofFn fun i : Fin n => value i) g.ids slots)[id]? =
      slots[id]?.map ((g.rowsOf id).foldl fun b row => f b (value row)) := by
  subst h
  have zipped : ((Array.ofFn fun i : Fin g.ids.size => value i).zip g.ids).toList =
      g.ids.toList.zipIdx.map fun p => (value p.2, p.1) := by
    refine List.ext_getElem (by simp) fun i h _ => ?_
    simp
  rw [getElem?_accumulate, zipped, List.filter_map, Function.comp_def, filter_zipIdx, List.map_map]
  simp only [List.foldl_map, Function.comp_def]

def scan (value : Nat → Option α) (ids : Array Nat) (slots : Array β) : Array β :=
  ids.toList.zipIdx.foldl (fun slots (id, row) => (value row).elim slots fun v => slots.modify id (f · v)) slots

theorem getElem?_scan (value : Nat → Option α) :
    (scan f value g.ids slots)[id]? = slots[id]?.map (((g.rowsOf id).filterMap value).foldl f) := by
  have pairs (pairs : List (Nat × Nat)) :
      (pairs.foldl (fun slots (id, row) => (value row).elim slots fun v => slots.modify id (f · v)) slots)[id]? =
        slots[id]?.map (((pairs.filter (·.1 = id)).filterMap fun p => value p.2).foldl f) := by
    induction pairs generalizing slots with
    | nil => simp
    | cons p pairs ih =>
      rw [List.foldl_cons, ih, List.filter_cons]
      cases hv : value p.2 with
      | none => by_cases h : p.1 = id <;> simp [h, hv]
      | some v =>
        by_cases h : p.1 = id
        · simp [h, hv, Array.getElem?_modify, Function.comp_def]
        · simp [h, hv, Array.getElem?_modify]
  rw [scan, pairs, filter_zipIdx, List.filterMap_map]
  rfl

variable {id} (hid : id < g.size) (b : β)

include hid

theorem getElem?_accumulate_replicate (value : Nat → α) {n : Nat} (h : n = g.ids.size) :
    (accumulate f (.ofFn fun i : Fin n => value i) g.ids (.replicate g.size b))[id]? =
      some ((g.rowsOf id).foldl (fun b row => f b (value row)) b) := by
  rw [getElem?_accumulate_ofFn f g _ id value h, Array.getElem?_replicate, if_pos hid, Option.map_some]

theorem getElem?_scan_replicate (value : Nat → Option α) :
    (scan f value g.ids (.replicate g.size b))[id]? = some (((g.rowsOf id).filterMap value).foldl f b) := by
  rw [getElem?_scan, Array.getElem?_replicate, if_pos hid, Option.map_some]

omit hid

section

variable {f slots} {P : β → Prop} {neutral : α} (keep : ∀ b, P b → f b neutral = b)
  (step : ∀ b x, P b → P (f b x))

include keep step

theorem foldl_getD (value : Nat → Option α) (rows : List Nat) {b : β} (hb : P b) :
    rows.foldl (fun b row => f b ((value row).getD neutral)) b = (rows.filterMap value).foldl f b := by
  induction rows generalizing b with
  | nil => rfl
  | cons row rows ih =>
    rw [List.foldl_cons]
    cases hv : value row with
    | none => rw [List.filterMap_cons_none hv, Option.getD_none, keep b hb, ih hb]
    | some v => rw [List.filterMap_cons_some hv, Option.getD_some, ih (step b v hb), List.foldl_cons]

theorem accumulate_eq_scan_of (value : Nat → Option α) {n : Nat} (h : n = g.ids.size) (hs : ∀ b ∈ slots, P b) :
    accumulate f (.ofFn fun i : Fin n => (value i).getD neutral) g.ids slots = scan f value g.ids slots := by
  refine Array.ext_getElem? fun id => ?_
  rw [getElem?_accumulate_ofFn f g slots id (fun row => (value row).getD neutral) h, getElem?_scan]
  cases hb : slots[id]? with
  | none => rfl
  | some b => exact congrArg some (foldl_getD keep step value _ (hs b (Array.mem_of_getElem? hb)))

end

/-- Filling in and passing over come to the same. -/
theorem accumulate_eq_scan {f : β → α → β} {neutral : α} (keep : ∀ b, f b neutral = b) (value : Nat → Option α)
    {n : Nat} (h : n = g.ids.size) :
    accumulate f (.ofFn fun i : Fin n => (value i).getD neutral) g.ids slots = scan f value g.ids slots :=
  accumulate_eq_scan_of g (P := fun _ => True) (fun b _ => keep b) (fun _ _ _ => trivial) value h fun _ _ => trivial

end

section

variable {g : Grouping} {c : Column} (height : c.height = g.ids.size)

include height

theorem intSums_eq_scan : g.intSums c = scan (· + ·) c.int? g.ids (.replicate g.size 0) :=
  accumulate_eq_scan g _ Int64.add_zero c.int? height

theorem floatSums_eq_scan : g.floatSums c = scan (· + ·) c.float? g.ids (.replicate g.size Double.zero) := by
  refine accumulate_eq_scan_of g (P := (· ≠ Double.negativeZero)) (fun b hb => Double.add_zero_of_ne hb)
    (fun b x hb => Double.add_ne_negativeZero hb x) c.float? height fun b hb => ?_
  rw [(Array.mem_replicate.1 hb).2]
  decide

theorem intExtremes_eq_scan (e : End) :
    accumulate e.int (intsOr c e.intNeutral) g.ids (.replicate g.size e.intNeutral) =
      scan e.int c.int? g.ids (.replicate g.size e.intNeutral) := by
  refine accumulate_eq_scan g _ (fun b => ?_) c.int? height
  cases e with
  | least => exact if_neg (Int64.not_lt.2 b.le_maxValue)
  | greatest => exact if_neg (Int64.not_lt.2 b.minValue_le)

theorem floatExtremes_eq_scan (e : End) :
    accumulate e.float (floatsOr c e.floatNeutral) g.ids (.replicate g.size e.floatNeutral) =
      scan e.float c.float? g.ids (.replicate g.size e.floatNeutral) := by
  refine accumulate_eq_scan g _ (fun b => ?_) c.float? height
  cases e with
  | least => exact if_neg (Double.not_infinity_lt b)
  | greatest => exact if_neg (Double.not_lt_negativeInfinity b)

end

section

variable (g : Grouping) (c : Column)

def sumsByRow : Column :=
  if c.dtype.isFloat then
    floatColumn c.name (scan (· + ·) c.float? g.ids (.replicate g.size Double.zero))
  else intColumn c.name (scan (· + ·) c.int? g.ids (.replicate g.size 0))

def extremesByRow (e : End) : Column :=
  if c.dtype.isFloat || c.dtype = .null then
    let slots := scan e.float c.float? g.ids (.replicate g.size e.floatNeutral)
    floatColumn c.name (slots.zipWith (fun x n => if n = 0 then Double.nan else x) (g.valueCounts c))
  else
    let slots := scan e.int c.int? g.ids (.replicate g.size e.intNeutral)
    (intColumn c.name (slots.zipWith (fun i n => if n = 0 then 0 else i) (g.valueCounts c))).cast c.dtype

variable {g c}

theorem sums_eq_sumsByRow (height : c.height = g.ids.size) : g.sums c = g.sumsByRow c := by
  rw [sums, sumsByRow, floatSums_eq_scan height, intSums_eq_scan height]

theorem extremes_eq_extremesByRow (height : c.height = g.ids.size) (e : End) :
    g.extremes c e = g.extremesByRow c e := by
  rw [extremes, extremesByRow, floatExtremes, intExtremes, floatExtremes_eq_scan height, intExtremes_eq_scan height]

end

theorem map_some_ofFn {rows : Array (Option α)} {value : Nat → Option α}
    (all : ∀ i < rows.size, ∃ y, rows[i]? = some (some y) ∧ value i = some y) (x : α) :
    (Array.ofFn fun i : Fin rows.size => (value i).getD x).map some = rows := by
  refine Array.ext (by simp) fun i hi hi' => ?_
  obtain ⟨y, hy, hv⟩ := all i hi'
  have at_row : rows[i] = some y := Option.some.inj ((Array.getElem?_eq_getElem hi').symm.trans hy)
  simp [at_row, hv]

theorem value?_of_nullCount {c : Column} (none : c.nullCount = 0) {i : Nat} (hi : i < c.height) :
    ∃ v, c.value? i = some v := by
  rw [Column.nullCount_eq, List.countP_eq_zero] at none
  have := none i (List.mem_range.2 hi)
  rw [Column.isNull, Option.isNone_iff_eq_none] at this
  exact Option.ne_none_iff_exists'.1 this

theorem floatsOr_of_nullCount {name : String} {rows : Array (Option Float)}
    (none : (Column.mk name (.float64 rows)).nullCount = 0) (x : Float) :
    (floatsOr ⟨name, .float64 rows⟩ x).map some = rows := by
  refine map_some_ofFn (fun i hi => ?_) x
  obtain ⟨v, hv⟩ := value?_of_nullCount none hi
  have held := Column.held?_of_value? hv
  obtain ⟨y, hy, rfl⟩ := Option.map_eq_some_iff.1 held
  have present : Double.isMissing y = false := Column.isMissing_of_value? hv
  refine ⟨y, Option.join_eq_some_iff.1 hy, ?_⟩
  rw [Column.float?, held, Option.bind_some, Value.float?, present]
  rfl

theorem intsOr_of_nullCount {name : String} {rows : Array (Option Int64)}
    (none : (Column.mk name (.int64 rows)).nullCount = 0) (x : Int64) :
    (intsOr ⟨name, .int64 rows⟩ x).map some = rows := by
  refine map_some_ofFn (fun i hi => ?_) x
  obtain ⟨v, hv⟩ := value?_of_nullCount none hi
  obtain ⟨y, hy, rfl⟩ := Option.map_eq_some_iff.1 (Column.held?_of_value? hv)
  refine ⟨y, Option.join_eq_some_iff.1 hy, ?_⟩
  rw [Column.int?, hv]
  rfl

structure Assignment.Numbered (a : Assignment) : Prop where
  below : ∀ id ∈ a.ids, id < a.firstRows.size
  first : ∀ id row : Nat, a.firstRows[id]? = some row → a.ids[row]? = some id ∧ ∀ i < row, a.ids[i]? ≠ some id

namespace Assignment

variable {same : Nat → Nat → Bool} {a : Assignment}

theorem Numbered.again (ha : a.Numbered) {id : Nat} (hid : id < a.firstRows.size) :
    Numbered { a with ids := a.ids.push id } where
  below i hi := by
    rcases Array.mem_push.1 hi with hi | rfl
    · exact ha.below i hi
    · exact hid
  first id' row hrow := by
    obtain ⟨at_row, before⟩ := ha.first id' row hrow
    have lt : row < a.ids.size := (Array.getElem?_eq_some_iff.1 at_row).1
    refine ⟨by rwa [Array.getElem?_push_lt lt, ← Array.getElem?_eq_getElem lt], fun i hi => ?_⟩
    rw [Array.getElem?_push, if_neg (by omega)]
    exact before i hi

theorem Numbered.fresh (ha : a.Numbered) (heads : Std.HashMap UInt64 Nat) (links : Array (Option Nat)) :
    Numbered ⟨a.ids.push a.firstRows.size, a.firstRows.push a.ids.size, heads, links⟩ where
  below i hi := by
    rw [Array.size_push]
    rcases Array.mem_push.1 hi with hi | rfl
    · exact Nat.lt_succ_of_lt (ha.below i hi)
    · exact Nat.lt_succ_self _
  first id row hrow := by
    have new : ∀ i : Nat, a.ids[i]? ≠ some a.firstRows.size := fun i hi =>
      Nat.lt_irrefl _ (ha.below _ (Array.mem_of_getElem? hi))
    rw [Array.getElem?_push] at hrow
    split at hrow
    next eq =>
      cases hrow
      subst eq
      refine ⟨by simp, fun i hi => ?_⟩
      rw [Array.getElem?_push, if_neg (by omega)]
      exact new i
    next =>
      obtain ⟨at_row, before⟩ := ha.first id row hrow
      have lt : row < a.ids.size := (Array.getElem?_eq_some_iff.1 at_row).1
      refine ⟨by rw [Array.getElem?_push, if_neg (by omega)]; exact at_row, fun i hi => ?_⟩
      rw [Array.getElem?_push, if_neg (by omega)]
      exact before i hi

theorem Numbered.next (ha : a.Numbered) (linked : a.Linked) (h : UInt64) :
    (a.next same h).Numbered ∧ (a.next same h).ids.size = a.ids.size + 1 := by
  obtain ⟨-, eq⟩ | ⟨g, f, -, hf, ⟨-, eq⟩ | ⟨-, eq⟩⟩ := linked.next_cases same h
  · exact eq ▸ ⟨ha.fresh .., Array.size_push ..⟩
  · exact eq ▸ ⟨ha.again hf, Array.size_push ..⟩
  · exact eq ▸ ⟨ha.fresh .., Array.size_push ..⟩

end Assignment

theorem assign_numbered (hashes : Array UInt64) (same : Nat → Nat → Bool) :
    (assign hashes same).Numbered ∧ (assign hashes same).ids.size = hashes.size := by
  have run : (assign hashes same).Linked ∧ (assign hashes same).Numbered ∧
      (assign hashes same).ids.size = hashes.size :=
    Array.foldl_induction (fun n (a : Assignment) => a.Linked ∧ a.Numbered ∧ a.ids.size = n)
      ⟨Assignment.linked_empty, ⟨nofun, nofun⟩, rfl⟩ fun n a ⟨linked, numbered, size⟩ => by
        obtain ⟨numbered, size'⟩ := numbered.next linked hashes[n]
        exact ⟨linked.next_linked same _, numbered, size'.trans (congrArg (· + 1) size)⟩
  exact run.2

structure Numbered (g : Grouping) (n : Nat) : Prop where
  height : g.ids.size = n
  firsts : g.firstRows.size = g.size
  first : ∀ id < g.size, ∃ row, g.firstRows[id]? = some row ∧ (g.rowsOf id).head? = some row

theorem head?_rowsOf {g : Grouping} {id row : Nat} (at_row : g.ids[row]? = some id)
    (before : ∀ i < row, g.ids[i]? ≠ some id) : (g.rowsOf id).head? = some row := by
  rw [rowsOf, List.head?_filter, List.find?_range_eq_some]
  refine ⟨decide_eq_true at_row, List.mem_range.2 (Array.getElem?_eq_some_iff.1 at_row).1, fun i hi => ?_⟩
  simpa using before i hi

theorem ofKeys_numbered (host : Host) (keys : List Column) :
    (ofKeys host keys).Numbered (Column.heightOf keys) := by
  obtain ⟨numbered, height⟩ := assign_numbered (keyHashes host keys (Column.heightOf keys)) (sameKeys keys)
  have size : (ofKeys host keys).size = (ofKeys host keys).firstRows.size :=
    (size_accumulate ..).trans Array.size_replicate
  refine ⟨height.trans (size_keyHashes host keys), size.symm, fun id hid => ?_⟩
  obtain ⟨row, hrow⟩ : ∃ row, (ofKeys host keys).firstRows[id]? = some row :=
    ⟨_, Array.getElem?_eq_getElem (size ▸ hid)⟩
  obtain ⟨at_row, before⟩ := numbered.first id row hrow
  exact ⟨row, hrow, head?_rowsOf at_row before⟩

end Columnar.Grouping
