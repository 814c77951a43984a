import Columnar.Proofs.Aggregates
import Columnar.Proofs.Extremes
import Mathlib.Algebra.Ring.Int.Defs

namespace Columnar.Grouping

theorem getElem?_intSums {g : Grouping} {c : Column} {id : Nat} (height : c.height = g.ids.size)
    (hid : id < g.size) : (g.intSums c)[id]? =
    some (Int64.ofInt (((g.valuesOf c id).filterMap (·.int?)).map (·.toInt)).sum) := by
  have wrap (xs : List Int64) (a : Int64) : xs.foldl (· + ·) a = a + Int64.ofInt (xs.map (·.toInt)).sum := by
    induction xs generalizing a with
    | nil => simp
    | cons x xs ih =>
      rw [List.foldl_cons, ih, List.map_cons, List.sum_cons, Int64.ofInt_add, Int64.ofInt_toInt, Int64.add_assoc]
  rw [intSums_eq_scan height, getElem?_scan_replicate _ g hid, wrap, filterMap_int?, Int64.zero_add]

/-- Some of the values, no two of which are equal, and one for each value that is equal to it. -/
structure Represents (ds vs : List Value) : Prop where
  subset : ds ⊆ vs
  distinct : ds.Pairwise fun v w => v.same w = false
  all : ∀ v ∈ vs, ∃ d ∈ ds, d.same v

section

variable (g : Grouping) (c : Column)

def samePair (i j : Nat) : Bool := g.ids[i]? == g.ids[j]? && c.groupEq i c j

def leaders : List Nat := (placed (samePair g c) c.height).2.toList

def leadersOf (id : Nat) : List Nat := (leaders g c).filter fun row => g.ids[row]? = some id

def countRow (slots : Array Nat) (row : Nat) : Array Nat :=
  if c.isNull row then slots else slots.modify (g.ids[row]?.getD 0) (· + 1)

variable {g c}

theorem distinctCounts_eq (host : Host) (sound : c.Sound) :
    distinctCounts host g c = (leaders g c).foldl (countRow g c) (.replicate g.size 0) := by
  rw [distinctCounts, pairs_firstRows g host sound, ← Array.foldl_toList]
  rfl

theorem seen_leaders : Seen (fun i => (g.ids[i]?, c.token? i)) (placed (samePair g c) c.height) c.height :=
  seen_placed (fun i j => by
    rw [samePair, Bool.and_eq_true, beq_iff_eq, c.groupEq_iff_token?, Prod.mk.injEq]) c.height

theorem represents_leadersOf (height : c.height = g.ids.size) (id : Nat) :
    Represents ((leadersOf g c id).filterMap c.value?) (g.valuesOf c id) where
  subset v hv := by
    obtain ⟨row, hrow, h⟩ := List.mem_filterMap.1 hv
    exact mem_valuesOf.2 ⟨row, of_decide_eq_true (List.mem_filter.1 hrow).2, h⟩
  distinct := by
    rw [List.pairwise_filterMap, leadersOf, List.pairwise_filter]
    refine List.pairwise_iff_getElem.2 fun i j hi hj lt at_i at_j v hv w hw => Bool.eq_false_iff.2 fun equal => ?_
    have ids := (of_decide_eq_true at_i).trans (of_decide_eq_true at_j).symm
    have token := (Column.same_iff_token? hv hw).1 equal
    have one := seen_leaders.distinct i j _ _ (Array.getElem?_toList.symm.trans (List.getElem?_eq_getElem hi))
      (Array.getElem?_toList.symm.trans (List.getElem?_eq_getElem hj)) (Prod.ext ids token)
    omega
  all v hv := by
    obtain ⟨i, hi, h⟩ := mem_valuesOf.1 hv
    have lt : i < c.height := height ▸ (Array.getElem?_eq_some_iff.1 hi).1
    obtain ⟨_, row, -, hrow, -, eq⟩ := seen_leaders.assigned i lt
    obtain ⟨ids, token⟩ := Prod.mk.inj eq
    have found : c.token? row = some v.token := token.trans (by rw [Column.token?, h]; rfl)
    obtain ⟨d, hd, -⟩ := Option.map_eq_some_iff.1 found
    have leads : row ∈ leadersOf g c id :=
      List.mem_filter.2 ⟨Array.mem_def.1 (Array.mem_of_getElem? hrow), decide_eq_true (ids.trans hi)⟩
    exact ⟨d, List.mem_filterMap.2 ⟨row, leads, hd⟩, (Column.same_iff_token? hd h).2 token⟩

theorem size_foldl_countRow (rows : List Nat) (slots : Array Nat) :
    (rows.foldl (countRow g c) slots).size = slots.size := by
  induction rows generalizing slots with
  | nil => rfl
  | cons row rows ih =>
    rw [List.foldl_cons, ih, countRow]
    split
    · rfl
    · exact Array.size_modify

theorem getElem?_foldl_countRow {rows : List Nat} (below : ∀ row ∈ rows, row < g.ids.size) (slots : Array Nat)
    (id : Nat) : (rows.foldl (countRow g c) slots)[id]? =
      slots[id]?.map (· + ((rows.filter fun row => g.ids[row]? = some id).filterMap c.value?).length) := by
  induction rows generalizing slots with
  | nil => simp
  | cons row rows ih =>
    obtain ⟨lt, below⟩ := List.forall_mem_cons.1 below
    rw [List.foldl_cons, ih below, List.filter_cons, countRow, Column.isNull]
    cases hv : c.value? row with
    | none => by_cases own : g.ids[row] = id <;> simp [lt, own, hv]
    | some v =>
      by_cases own : g.ids[row] = id
      · simp [lt, own, hv, Array.getElem?_modify, Function.comp_def, Nat.add_assoc, Nat.add_comm]
      · simp [lt, own, Array.getElem?_modify]

theorem getElem?_distinctCounts (host : Host) (sound : c.Sound) (height : c.height = g.ids.size) {id : Nat}
    (hid : id < g.size) :
    (distinctCounts host g c)[id]? = some ((leadersOf g c id).filterMap c.value?).length := by
  have below : ∀ row ∈ leaders g c, row < g.ids.size := fun row hrow =>
    height ▸ seen_leaders.below row (Array.mem_def.2 hrow)
  rw [distinctCounts_eq host sound, getElem?_foldl_countRow below, Array.getElem?_replicate, if_pos hid,
    Option.map_some, Nat.zero_add]
  rfl

end

theorem getElem?_lastRows {g : Grouping} {id : Nat} (hid : id < g.size) (nonempty : g.rowsOf id ≠ []) :
    g.lastRows[id]? = (g.rowsOf id).getLast? := by
  change (accumulate (fun _ row => row) (.ofFn fun i : Fin g.ids.size => (i : Nat)) g.ids
    (.replicate g.size 0))[id]? = _
  rw [getElem?_accumulate_replicate _ g hid 0 (fun row => row) rfl]
  obtain ⟨rows, row, eq⟩ := (List.eq_nil_or_concat (g.rowsOf id)).resolve_left nonempty
  simp [eq]

theorem held?_gather (c : Column) (rows : Array Nat) (id : Nat) :
    (c.gather rows).held? id = rows[id]?.bind c.held? := by
  rw [Column.gather, Column.held?_take, Array.getElem?_map]
  cases rows[id]? <;> rfl

def End.aggregation : End → Aggregation
  | .least => .min
  | .greatest => .max

/-- An aggregation succeeds with a column of a type that is named after the one it is of and has a row for each
group, which holds what it has to. -/
def Gives (host : Host) (g : Grouping) (c : Column) (op : Aggregation) (t : DType)
    (holds : Nat → Option Value → Prop) : Prop :=
  ∃ d, g.aggregate host c op = .ok d ∧ d.name = c.name ∧ d.dtype = t ∧ d.height = g.size ∧
    ∀ id < g.size, holds id (d.held? id)

/-- What the aggregations of a column have to be, group by group. Rows are numbered and counted by words of 32 bits,
which is enough for as many as there may be. -/
structure PerGroup (host : Host) (g : Grouping) (c : Column) : Prop where
  count : g.Gives host c .count .int64 fun id out => out = some (.int64 (.ofNat (g.valuesOf c id).length))
  first : g.Gives host c .first c.dtype fun id out => ∃ row, (g.rowsOf id).head? = some row ∧ out = c.held? row
  last : g.Gives host c .last c.dtype fun id out => ∃ row, (g.rowsOf id).getLast? = some row ∧ out = c.held? row
  distinct : g.Gives host c .distinct .int64 fun id out =>
    ∃ ds, Represents ds (g.valuesOf c id) ∧ out = some (.int64 (.ofNat ds.length))
  sum : c.dtype ∈ Value.wholeTypes → g.Gives host c .sum .int64 fun id out =>
    out = some (.int64 (.ofInt (((g.valuesOf c id).filterMap (·.int?)).map (·.toInt)).sum))
  extreme (e : End) : c.dtype ∈ Value.wholeTypes ∨ c.dtype.isStringLike →
    g.Gives host c e.aggregation c.dtype fun id out =>
      (g.valuesOf c id = [] ∧ out = Value.blank c.dtype) ∨ ∃ v, out = some v ∧ IsExtreme e (g.valuesOf c id) v
  narrow : c.height ≤ Frame.maxRows → ∀ id < g.size,
    (g.rowsOf id).length < UInt32.size ∧ ∀ row ∈ g.rowsOf id, row < UInt32.size
  /-- Filling in neutral values and passing over nulls come to the same. -/
  loops : g.sums c = g.sumsByRow c ∧ ∀ e, g.extremes c e = g.extremesByRow c e
  buffers : c.nullCount = 0 →
    (∀ rows x, c.cells = .float64 rows → (floatsOr c x).map some = rows) ∧
      ∀ rows i, c.cells = .int64 rows → (intsOr c i).map some = rows

variable {host : Host} {g : Grouping} {c : Column}

theorem gives_intColumn {op : Aggregation} {xs : Array Int64} {holds : Nat → Option Value → Prop}
    (ok : g.aggregate host c op = .ok (intColumn c.name xs)) (size : xs.size = g.size)
    (each : ∀ id < g.size, ∃ i, xs[id]? = some i ∧ holds id (some (.int64 i))) :
    g.Gives host c op .int64 holds := by
  refine ⟨_, ok, rfl, rfl, Array.size_map.trans size, fun id hid => ?_⟩
  obtain ⟨i, hi, h⟩ := each id hid
  rwa [held?_intColumn, hi]

theorem gives_gather {op : Aggregation} {rows : Array Nat} {holds : Nat → Option Value → Prop}
    (ok : g.aggregate host c op = .ok (c.gather rows)) (size : rows.size = g.size)
    (each : ∀ id < g.size, ∃ row, rows[id]? = some row ∧ holds id (c.held? row)) :
    g.Gives host c op c.dtype holds := by
  have height : (c.gather rows).height = g.size := (Column.height_take ..).trans (Array.size_map.trans size)
  refine ⟨_, ok, rfl, Column.dtype_take .., height, fun id hid => ?_⟩
  obtain ⟨row, hrow, h⟩ := each id hid
  rwa [held?_gather, hrow]

theorem gives_sum (height : c.height = g.ids.size) (whole : c.dtype ∈ Value.wholeTypes) :
    g.Gives host c .sum .int64 fun id out =>
      out = some (.int64 (.ofInt (((g.valuesOf c id).filterMap (·.int?)).map (·.toInt)).sum)) := by
  have numbers : c.dtype.isStringLike = false ∧ c.dtype.isFloat = false := by
    revert whole
    cases c.dtype <;> decide
  have ok : g.aggregate host c .sum = .ok (intColumn c.name (g.intSums c)) := by
    simp [aggregate, requireNumbers, sums, numbers]
  exact gives_intColumn ok (by simp [intSums]) fun id hid => ⟨_, getElem?_intSums height hid, rfl⟩

theorem gives_extreme (height : c.height = g.ids.size) (e : End)
    (ordered : c.dtype ∈ Value.wholeTypes ∨ c.dtype.isStringLike) :
    g.Gives host c e.aggregation c.dtype fun id out =>
      (g.valuesOf c id = [] ∧ out = Value.blank c.dtype) ∨
        ∃ v, out = some v ∧ IsExtreme e (g.valuesOf c id) v := by
  have ok : g.aggregate host c e.aggregation = .ok (g.extreme c e) := by cases e <;> rfl
  refine ⟨_, ok, ?_⟩
  by_cases text : c.dtype.isStringLike
  · have blank : Value.blank c.dtype = none := by
      revert text
      cases c.dtype <;> decide
    rw [extreme, if_pos text, blank]
    refine ⟨rfl, Column.dtype_take .., (Column.height_take ..).trans (by simp [extremeRows]), fun id hid => ?_⟩
    exact held?_take_extremeRows hid e
  · have whole := ordered.resolve_right text
    rw [extreme, if_neg text]
    refine ⟨?_, ?_, ?_, fun id hid => held?_extremes height hid e whole⟩
    · rw [extremes_eq_cast e whole, Column.name_cast]
      rfl
    · rw [extremes_eq_cast e whole, Column.dtype_cast]
    · rw [extremes_eq_cast e whole, Column.height_cast, height_intColumn, size_intExtremes]

theorem Numbered.perGroup {n : Nat} (h : g.Numbered n) (height : c.height = n) (sound : c.Sound) (host : Host) :
    g.PerGroup host c := by
  have height : c.height = g.ids.size := height.trans h.height.symm
  exact {
    count := gives_intColumn rfl (by simp) fun id hid =>
      ⟨_, (Array.getElem?_map ..).trans (congrArg _ (getElem?_valueCounts height hid)), rfl⟩
    first := gives_gather rfl h.firsts fun id hid => by
      obtain ⟨row, hrow, head⟩ := h.first id hid
      exact ⟨row, hrow, row, head, rfl⟩
    last := gives_gather rfl (by simp [lastRows]) fun id hid => by
      obtain ⟨row, -, head⟩ := h.first id hid
      have nonempty : g.rowsOf id ≠ [] := fun none => by simp [none] at head
      have last := List.getLast?_eq_some_getLast nonempty
      exact ⟨_, (getElem?_lastRows hid nonempty).trans last, _, last, rfl⟩
    distinct := gives_intColumn rfl (by simp [distinctCounts_eq host sound, size_foldl_countRow]) fun id hid =>
      ⟨_, (Array.getElem?_map ..).trans (congrArg _ (getElem?_distinctCounts host sound height hid)), _,
        represents_leadersOf height id, rfl⟩
    sum := gives_sum height
    extreme := gives_extreme height
    narrow := fun short id _ => by
      have rows : (g.rowsOf id).length ≤ g.ids.size := by
        simpa [rowsOf] using List.length_filter_le (g.ids[·]? = some id) (List.range g.ids.size)
      refine ⟨Frame.lt_size_of_le_maxRows (height ▸ short) rows, fun row hrow => ?_⟩
      have below := (Array.getElem?_eq_some_iff.1 (mem_rowsOf.1 hrow)).1
      exact Frame.lt_size_of_le_maxRows (height ▸ short) below.le
    loops := ⟨sums_eq_sumsByRow height, extremes_eq_extremesByRow height⟩
    buffers := fun none => by
      obtain ⟨name, cells⟩ := c
      exact ⟨by rintro rows x ⟨⟩; exact floatsOr_of_nullCount none x,
        by rintro rows i ⟨⟩; exact intsOr_of_nullCount none i⟩ }

/-- The aggregations of a column by groups of its rows, whatever the keys. -/
theorem ofKeys_perGroup {keys : List Column} {c : Column} (height : c.height = Column.heightOf keys)
    (sound : c.Sound) (host other : Host) : (ofKeys host keys).PerGroup other c :=
  (ofKeys_numbered host keys).perGroup height sound other

def scores : Column := ⟨"score", .int32 #[some 5, none, none, some 7, some (-1)]⟩

def labels : Column := ⟨"label", .categorical ⟨#["b", "a", "c"], #[some 0, none, some 1, some 1, none]⟩⟩

theorem ofKeys_perGroup_mixed :
    let host : Host := ⟨⟨fun _ => Hasher.nullHash, fun _ => Hasher.nullHash⟩, ⟨⟨.eager 1 3, 4, id⟩, by decide⟩, true⟩
    scores.height = Column.heightOf mixedKeys ∧ scores.Sound ∧ (ofKeys host mixedKeys).PerGroup host scores ∧
      labels.height = Column.heightOf mixedKeys ∧ labels.Sound ∧ (ofKeys host mixedKeys).PerGroup host labels ∧
      scores.dtype ∈ Value.wholeTypes ∧ labels.dtype.isStringLike := by
  have height : scores.height = Column.heightOf mixedKeys := by decide
  have sound : scores.Sound := Column.sound_of_dtype nofun
  have height' : labels.height = Column.heightOf mixedKeys := by decide
  have sound' : labels.Sound := by
    rintro _ ⟨⟩
    change ["b", "a", "c"].Nodup
    decide
  exact ⟨height, sound, ofKeys_perGroup height sound _ _, height', sound', ofKeys_perGroup height' sound' _ _,
    by decide, by decide⟩

/-- The least score of a group without one is a zero in the type of the scores. -/
example : ((Grouping.mk #[0, 1, 1, 0, 2] #[0, 1, 4] #[2, 2, 1]).extreme scores .least).held? 1 =
    some (.int32 0) := by decide +kernel

end Columnar.Grouping
