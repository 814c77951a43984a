import Columnar.Proofs.PerGroup

namespace Columnar

theorem foldl_range_length {xs : List α} {f : β → Nat → β} {g : β → α → β}
    (same : ∀ (i : Nat) x, xs[i]? = some x → ∀ b, f b i = g b x) (b : β) :
    (List.range xs.length).foldl f b = xs.foldl g b := by
  induction xs generalizing f b with
  | nil => rfl
  | cons x xs ih =>
    rw [List.length_cons, List.range_succ_eq_map, List.foldl_cons, List.foldl_map, List.foldl_cons,
      same 0 x rfl, ih fun i y hy => same (i + 1) y hy]

theorem filterMap_range_length (xs : List α) (f : α → Option β) :
    (List.range xs.length).filterMap (fun i => xs[i]?.bind f) = xs.filterMap f := by
  induction xs with
  | nil => rfl
  | cons x xs ih =>
    rw [List.length_cons, List.range_succ_eq_map, List.filterMap_cons, List.filterMap_map, List.filterMap_cons]
    simp only [Function.comp_def, List.getElem?_cons_zero, List.getElem?_cons_succ, Option.bind_some, ih]

namespace Column

variable {c : Column} {rows : List Nat} {i row : Nat}

theorem value?_take (c : Column) (g : Gather) (i : Nat) : (c.take g).value? i = g[i]?.join.bind c.value? := by
  rw [value?, held?_take]
  cases g[i]?.join <;> rfl

theorem value?_gather (c : Column) (rows : List Nat) (i : Nat) :
    (c.gather rows.toArray).value? i = rows[i]?.bind c.value? := by
  rw [gather, value?_take, Array.getElem?_map, List.getElem?_toArray]
  cases rows[i]? <;> rfl

theorem isNull_gather (h : rows[i]? = some row) : (c.gather rows.toArray).isNull i = c.isNull row := by
  rw [isNull, value?_gather, h, Option.bind_some, isNull]

theorem float?_gather_eq (c : Column) (rows : Array Nat) (i : Nat) :
    (c.gather rows).float? i = rows[i]?.bind c.float? := by
  rw [float?, Grouping.held?_gather]
  cases rows[i]? <;> rfl

theorem float?_gather (h : rows[i]? = some row) : (c.gather rows.toArray).float? i = c.float? row := by
  rw [float?_gather_eq, List.getElem?_toArray, h, Option.bind_some]

theorem float?_gather_gather {picks firsts : Array Nat} {id : Nat} (picked : picks[id]? = some i)
    (h : rows[i]? = some row) {id' : Nat} (first : firsts[id']? = some row) :
    ((c.gather rows.toArray).gather picks).float? id = (c.gather firsts).float? id' := by
  rw [float?_gather_eq, float?_gather_eq, picked, first]
  exact float?_gather h

theorem int?_gather (h : rows[i]? = some row) : (c.gather rows.toArray).int? i = c.int? row := by
  rw [int?, value?_gather, h, Option.bind_some, int?]

theorem height_gather (c : Column) (rows : Array Nat) : (c.gather rows).height = rows.size :=
  (height_take ..).trans Array.size_map

theorem float?_of_isStringLike (h : c.dtype.isStringLike) (i : Nat) : c.float? i = none := by
  rw [float?]
  cases held : c.held? i with
  | none => rfl
  | some v =>
    rw [← dtype_of_held? held] at h
    cases v <;> first | rfl | cases h

end Column

namespace Grouping

theorem float?_intColumn (name : String) (xs : Array Int64) (i : Nat) :
    (intColumn name xs).float? i = xs[i]?.map fun x => Double.ofInt x.toInt := by
  rw [Column.float?, held?_intColumn]
  cases xs[i]? <;> rfl

theorem float?_floatColumn (name : String) (xs : Array Float) (i : Nat) :
    (floatColumn name xs).float? i = xs[i]?.bind (Value.float64 · |>.float?) := by
  rw [Column.float?, Column.held?, floatColumn]
  cases h : xs[i]? <;> simp [Cells.held?, h]

theorem float?_countColumn (name : String) (ns : Array Nat) (i : Nat) :
    (countColumn name ns).float? i = ns[i]?.map fun n => Double.ofInt (Int64.ofNat n).toInt := by
  rw [countColumn, float?_intColumn, Array.getElem?_map, Option.map_map]
  rfl

theorem reads_intColumn (name : String) (xs : Array Int64) (i : Nat) :
    (intColumn name xs).reads i = xs[i]?.map .int64 := by
  have kind : (intColumn name xs).dtype ≠ .categorical := DType.noConfusion
  rw [← Column.held?_eq_reads kind, held?_intColumn]

def whole (n : Nat) : Grouping := ⟨.replicate n 0, #[0], #[n]⟩

@[simp] theorem size_ids_whole (n : Nat) : (whole n).ids.size = n := Array.size_replicate

theorem rowsOf_whole (n : Nat) : (whole n).rowsOf 0 = List.range n := by
  rw [rowsOf, size_ids_whole, List.filter_eq_self]
  intro row hrow
  rw [whole, Array.getElem?_replicate, if_pos (List.mem_range.1 hrow), decide_eq_true_eq]

def aggregateOver (host : Host) (c : Column) (rows : List Nat) (op : Aggregation) : Except Error Column :=
  (whole rows.length).aggregate host (c.gather rows.toArray) op

section

variable {g : Grouping} {c : Column} {id : Nat} {rows : List Nat} (hid : id < g.size) (own : g.rowsOf id = rows)
  (height : c.height = g.ids.size)

include hid own

theorem slot_alone {α β : Type} (f : β → α → β) (b : β) (value value' : Nat → α) {m n : Nat}
    (hm : m = rows.length) (hn : n = g.ids.size)
    (same : ∀ (i : Nat) row, rows[i]? = some row → value' i = value row) :
    (accumulate f (.ofFn fun i : Fin m => value' i) (whole rows.length).ids
      (.replicate (whole rows.length).size b))[0]? =
      (accumulate f (.ofFn fun i : Fin n => value i) g.ids (.replicate g.size b))[id]? := by
  rw [getElem?_accumulate_replicate f g hid b value hn,
    getElem?_accumulate_replicate f (whole _) Nat.one_pos b value' (by simpa using hm), rowsOf_whole, own]
  exact congrArg some (foldl_range_length (fun i row h b => by rw [same i row h]) b)

include height

theorem valueCounts_alone :
    ((whole rows.length).valueCounts (c.gather rows.toArray))[0]? = (g.valueCounts c)[id]? :=
  slot_alone hid own _ 0 (fun i => !c.isNull i) (fun i => !(c.gather rows.toArray).isNull i)
    (c.height_gather _) height fun i row h => by rw [Column.isNull_gather h]

theorem intSlots_alone (f : Int64 → Int64 → Int64) (b neutral : Int64) :
    (accumulate f (intsOr (c.gather rows.toArray) neutral) (whole rows.length).ids
      (.replicate (whole rows.length).size b))[0]? =
      (accumulate f (intsOr c neutral) g.ids (.replicate g.size b))[id]? :=
  slot_alone hid own f b (fun i => (c.int? i).getD neutral)
    (fun i => ((c.gather rows.toArray).int? i).getD neutral)
    (c.height_gather _) height fun i row h => by rw [Column.int?_gather h]

theorem floatSlots_alone (f : Float → Float → Float) (b neutral : Float) :
    (accumulate f (floatsOr (c.gather rows.toArray) neutral) (whole rows.length).ids
      (.replicate (whole rows.length).size b))[0]? =
      (accumulate f (floatsOr c neutral) g.ids (.replicate g.size b))[id]? :=
  slot_alone hid own f b (fun i => (c.float? i).getD neutral)
    (fun i => ((c.gather rows.toArray).float? i).getD neutral)
    (c.height_gather _) height fun i row h => by rw [Column.float?_gather h]

theorem means_alone : ((whole rows.length).means (c.gather rows.toArray))[0]? = (g.means c)[id]? := by
  rw [means, means, ratios, ratios, Array.getElem?_zipWith, Array.getElem?_zipWith, valueCounts_alone hid own height,
    floatSums, floatSums, floatSlots_alone hid own height]

theorem medians_alone : ((whole rows.length).medians (c.gather rows.toArray))[0]? = (g.medians c)[id]? := by
  rw [medians, medians, Array.getElem?_map, Array.getElem?_map]
  exact congrArg _ (slot_alone hid own _ [] c.float? (c.gather rows.toArray).float?
    (c.height_gather _) height fun i row h => Column.float?_gather h)

theorem floatExtremes_alone (e : End) :
    ((whole rows.length).floatExtremes (c.gather rows.toArray) e)[0]? = (g.floatExtremes c e)[id]? := by
  rw [floatExtremes, floatExtremes, Array.getElem?_zipWith, Array.getElem?_zipWith,
    valueCounts_alone hid own height, floatSlots_alone hid own height]

theorem intExtremes_alone (e : End) :
    ((whole rows.length).intExtremes (c.gather rows.toArray) e)[0]? = (g.intExtremes c e)[id]? := by
  rw [intExtremes, intExtremes, Array.getElem?_zipWith, Array.getElem?_zipWith,
    valueCounts_alone hid own height, intSlots_alone hid own height]

def square (c : Column) (mean : Float) (row : Nat) : Float :=
  match c.float? row with
  | some x => (x - mean) * (x - mean)
  | none => Double.zero

omit hid own height in
theorem variances_eq (g : Grouping) (c : Column) : g.variances c =
    (accumulate (· + ·) (.ofFn fun row : Fin g.ids.size =>
        square c ((g.means c)[g.ids[(row : Nat)]?.getD 0]?.getD Double.zero) row) g.ids
      (.replicate g.size Double.zero)).zipWith
        (fun s (n : Nat) => if n < 2 then Double.nan else s / Double.ofInt (n - 1 : Nat)) (g.valueCounts c) := by
  rw [variances]
  congr 2
  refine Array.ext (by simp) fun i h h' => ?_
  have hi : i < g.ids.size := by rwa [Array.size_ofFn] at h'
  rw [Array.getElem_zipWith, Array.getElem_range, Array.getElem_ofFn, Array.getElem?_eq_getElem hi, Option.getD_some]
  rfl

theorem variances_alone : ((whole rows.length).variances (c.gather rows.toArray))[0]? = (g.variances c)[id]? := by
  rw [variances_eq, variances_eq, Array.getElem?_zipWith, Array.getElem?_zipWith, valueCounts_alone hid own height]
  congr 1
  refine slot_alone hid own _ _
    (fun row => square c ((g.means c)[g.ids[row]?.getD 0]?.getD Double.zero) row)
    (fun i => square (c.gather rows.toArray) (((whole rows.length).means
      (c.gather rows.toArray))[(whole rows.length).ids[i]?.getD 0]?.getD Double.zero) i)
    (size_ids_whole _) rfl fun i row h => ?_
  have inside : (whole rows.length).ids[i]? = some 0 :=
    Array.getElem?_replicate.trans (if_pos (List.getElem?_eq_some_iff.1 h).1)
  have at_row : g.ids[row]? = some id := mem_rowsOf.1 (own ▸ List.mem_of_getElem? h)
  simp only [square, Column.float?_gather h, inside, at_row, Option.getD_some, means_alone hid own height]

theorem extreme_alone (e : End) :
    ((whole rows.length).extreme (c.gather rows.toArray) e).float? 0 = (g.extreme c e).float? id := by
  have dtype : (c.gather rows.toArray).dtype = c.dtype := Column.dtype_take ..
  rw [extreme, extreme, dtype]
  by_cases text : c.dtype.isStringLike
  · rw [if_pos text, if_pos text, Column.float?_of_isStringLike, Column.float?_of_isStringLike]
    all_goals simpa [dtype] using text
  · rw [if_neg text, if_neg text, extremes, extremes, dtype]
    by_cases float : c.dtype.isFloat || c.dtype = .null
    · rw [if_pos float, if_pos float, float?_floatColumn, float?_floatColumn, floatExtremes_alone hid own height]
    · rw [if_neg float, if_neg float, Column.float?_eq, Column.float?_eq, Column.reads_cast, Column.reads_cast,
        reads_intColumn, reads_intColumn, intExtremes_alone hid own height]
      rfl

omit hid own height in
theorem Represents.length_eq {ds es vs : List Value}
    (tokens : ∀ v ∈ vs, ∀ w ∈ vs, v.same w ↔ v.token = w.token) (hd : Represents ds vs) (he : Represents es vs) :
    ds.length = es.length := by
  have nodup {ds : List Value} (h : Represents ds vs) : (ds.map (·.token)).Nodup := by
    rw [List.nodup_iff_pairwise_ne, List.pairwise_map]
    refine h.distinct.imp_of_mem fun {v w} hv hw different same => ?_
    rw [(tokens v (h.subset hv) w (h.subset hw)).2 same] at different
    cases different
  have mem {ds : List Value} (h : Represents ds vs) (t : UInt64 ⊕ String) :
      t ∈ ds.map (·.token) ↔ t ∈ vs.map (·.token) := by
    simp only [List.mem_map]
    constructor
    · rintro ⟨d, hd, rfl⟩
      exact ⟨d, h.subset hd, rfl⟩
    · rintro ⟨v, hv, rfl⟩
      obtain ⟨d, hd, same⟩ := h.all v hv
      exact ⟨d, hd, (tokens d (h.subset hd) v hv).1 same⟩
  have perm := (List.perm_ext_iff_of_nodup (nodup hd) (nodup he)).2 fun t => (mem hd t).trans (mem he t).symm
  simpa using perm.length_eq

omit hid height in
theorem valuesOf_whole : (whole rows.length).valuesOf (c.gather rows.toArray) 0 = g.valuesOf c id := by
  rw [valuesOf, valuesOf, rowsOf_whole, own, ← filterMap_range_length rows]
  exact congrArg (List.filterMap · _) (funext (c.value?_gather rows))

theorem distinctCounts_alone (host : Host) (sound : c.Sound) :
    (distinctCounts host (whole rows.length) (c.gather rows.toArray))[0]? = (distinctCounts host g c)[id]? := by
  have height' : (c.gather rows.toArray).height = (whole rows.length).ids.size := by
    rw [Column.height_gather, size_ids_whole, List.size_toArray]
  have represents := represents_leadersOf height' 0
  rw [valuesOf_whole own] at represents
  have sound' : (c.gather rows.toArray).Sound := Column.sound_take sound _
  rw [getElem?_distinctCounts host sound' height' Nat.one_pos, getElem?_distinctCounts host sound height hid]
  refine congrArg some (represents.length_eq (fun v hv w hw => ?_) (represents_leadersOf height id))
  obtain ⟨i, -, hi⟩ := mem_valuesOf.1 hv
  obtain ⟨j, -, hj⟩ := mem_valuesOf.1 hw
  exact Value.same_iff_token (Column.sameSpace_of_value? hi hj) (Column.isMissing_of_value? hi)
    (Column.isMissing_of_value? hj)

omit hid own height in
theorem float?_aggregateOver_first {host : Host} {e : Column} {row : Nat}
    (ok : aggregateOver host c (row :: rows) .first = .ok e) : e.float? 0 = c.float? row := by
  cases ok
  exact (Column.float?_gather_eq ..).trans (Column.float?_gather rfl)

omit height in
theorem last_alone (nonempty : rows ≠ []) : ((c.gather rows.toArray).gather (whole rows.length).lastRows).float? 0 =
    (c.gather g.lastRows).float? id := by
  have last : (whole rows.length).lastRows[0]? = some (rows.length - 1) := by
    rw [getElem?_lastRows Nat.one_pos (by simpa [rowsOf_whole] using nonempty), rowsOf_whole, List.getLast?_range,
      if_neg (by simpa using nonempty)]
  have at_last : rows[rows.length - 1]? = some (rows.getLast nonempty) := by
    rw [← List.getLast?_eq_getElem?, List.getLast?_eq_some_getLast nonempty]
  refine Column.float?_gather_gather last at_last ?_
  rw [getElem?_lastRows hid (own ▸ nonempty), own, List.getLast?_eq_some_getLast nonempty]

theorem sums_alone : ((whole rows.length).sums (c.gather rows.toArray)).float? 0 = (g.sums c).float? id := by
  rw [sums, sums, Column.gather, Column.dtype_take, ← Column.gather]
  split
  · rw [float?_floatColumn, float?_floatColumn, floatSums, floatSums, floatSlots_alone hid own height]
  · rw [float?_intColumn, float?_intColumn, intSums, intSums, intSlots_alone hid own height]

omit hid own height in
theorem requireNumbers_gather {op : Aggregation} {x y d : Column} (same : y.float? 0 = x.float? id)
    (ok : (do requireNumbers c op; pure x) = Except.ok d) :
    ∃ e, (do requireNumbers (c.gather rows.toArray) op; pure y) = Except.ok e ∧ e.float? 0 = d.float? id := by
  have required : requireNumbers (c.gather rows.toArray) op = requireNumbers c op := by
    rw [requireNumbers, requireNumbers, Column.gather, Column.dtype_take]
    rfl
  obtain ⟨_, numbers, ⟨⟩⟩ := bind_eq_ok.1 ok
  exact ⟨y, bind_eq_ok.2 ⟨_, required.trans numbers, rfl⟩, same⟩

omit height in
theorem Numbered.aggregate_alone {n : Nat} (numbered : g.Numbered n) (tall : c.height = n) (sound : c.Sound)
    (host : Host) {op : Aggregation} {d : Column} (ok : g.aggregate host c op = .ok d) :
    ∃ e, aggregateOver host c rows op = .ok e ∧ e.float? 0 = d.float? id := by
  have height : c.height = g.ids.size := tall.trans numbered.height.symm
  obtain ⟨row, first, head⟩ := numbered.first id hid
  rw [own] at head
  cases op with
  | count =>
    cases ok
    refine ⟨_, rfl, ?_⟩
    rw [float?_countColumn, float?_countColumn, valueCounts_alone hid own height]
  | first =>
    cases ok
    exact ⟨_, rfl, Column.float?_gather_gather rfl (List.head?_eq_getElem?.symm.trans head) first⟩
  | last =>
    cases ok
    exact ⟨_, rfl, last_alone hid own fun none => by simp [none] at head⟩
  | min =>
    cases ok
    exact ⟨_, rfl, extreme_alone hid own height .least⟩
  | max =>
    cases ok
    exact ⟨_, rfl, extreme_alone hid own height .greatest⟩
  | distinct =>
    cases ok
    refine ⟨_, rfl, ?_⟩
    rw [float?_countColumn, float?_countColumn, distinctCounts_alone hid own height host sound]
  | sum => exact requireNumbers_gather (sums_alone hid own height) ok
  | mean =>
    refine requireNumbers_gather ?_ ok
    rw [float?_floatColumn, float?_floatColumn, means_alone hid own height]
  | std =>
    refine requireNumbers_gather ?_ ok
    rw [float?_floatColumn, float?_floatColumn, Array.getElem?_map, Array.getElem?_map,
      variances_alone hid own height]
  | var =>
    refine requireNumbers_gather ?_ ok
    rw [float?_floatColumn, float?_floatColumn, variances_alone hid own height]
  | median =>
    refine requireNumbers_gather ?_ ok
    rw [float?_floatColumn, float?_floatColumn, medians_alone hid own height]

end

end Grouping

end Columnar
