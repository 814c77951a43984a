import Columnar.Proofs.Pivoting
import Columnar.Proofs.Stacking

/-!
A pivot undoes a melt. The melted frame consists of blocks of rows, one for each melted column, so that a row of it
is found by its block and its place in there.
-/

namespace Columnar

namespace Cells

theorem rearrange_self {c : Cells} {move : {α : Type} → Array (Option α) → Array (Option α)}
    (same : ∀ {α : Type} (rows : Array (Option α)), rows.size = c.height → move rows = rows) :
    c.rearrange c.height move = c := by
  cases c with
  | null n => rfl
  | categorical d => exact congrArg (fun codes => categorical ⟨d.labels, codes⟩) (same d.codes rfl)
  | _ rows => exact congrArg _ (same rows rfl)

end Cells

namespace Column

theorem gather_take_self {c : Column} {g : Gather} (first : ∀ i < c.height, g[i]? = some (some i)) :
    (c.take g).gather (List.range c.height).toArray = c := by
  have height : ((List.range c.height).toArray.map some).size = c.height := by simp
  have same : (c.cells.rearrange g.size g.pick).rearrange ((List.range c.height).toArray.map some).size
      (Gather.pick ((List.range c.height).toArray.map some)) = c.cells := by
    rw [Cells.rearrange_rearrange, height]
    refine Cells.rearrange_self fun rows size => Array.ext_getElem? fun i => ?_
    rw [Gather.pick, Array.getElem?_map, Array.getElem?_map, List.getElem?_toArray]
    by_cases hi : i < c.height
    · rw [List.getElem?_range hi, Option.map_some, Option.map_some, Option.bind_some, Gather.pick,
        Array.getElem?_map, first i hi]
      change some rows[i]?.join = rows[i]?
      rw [Array.getElem?_eq_getElem (hi.trans_eq size.symm)]
      rfl
    · rw [List.getElem?_eq_none (by simpa using hi), Array.getElem?_eq_none (size.trans_le (Nat.le_of_not_lt hi))]
      rfl
  exact congrArg (Column.mk c.name) same

theorem nanAsNull_eq {c : Column} (h : c.dtype = .float64) :
    c.nanAsNull = ⟨c.name, .float64 (.ofFn fun i : Fin c.height => c.float? i)⟩ := by
  obtain ⟨name, cells⟩ := c
  cases cells <;> cases h
  next rows =>
    refine congrArg (fun rows => Column.mk name (.float64 rows)) (Array.ext (by simp; rfl) fun i hi _ => ?_)
    have lt : i < rows.size := by simpa using hi
    simp only [Array.getElem_map, Array.getElem_ofFn, float?, held?, Cells.held?, Array.getElem?_eq_getElem lt]
    cases rows[i] with
    | none => rfl
    | some x =>
      change Option.filter _ (some x) = if Double.isMissing x then none else some x
      cases hx : Double.isMissing x <;> simp [hx]

theorem commonType_of_all {c : Column} {cs : List Column} {t : DType} (h : c.dtype = t) (hs : ∀ d ∈ cs, d.dtype = t) :
    commonType c cs = t := by
  have self : t.common t = t := if_pos rfl
  rw [commonType, h]
  induction cs with
  | nil => rfl
  | cons d cs ih =>
    obtain ⟨hd, hs⟩ := List.forall_mem_cons.1 hs
    rw [List.foldl_cons, hd, self, ih hs]

theorem stackedReads_blocks {t : DType} {h : Nat} (pos : 0 < h) {cs : List Column}
    (heights : ∀ c ∈ cs, c.height = h) (r : Nat) :
    stackedReads t cs r = cs[r / h]?.bind fun c => (c.cast t).reads (r % h) := by
  induction cs generalizing r with
  | nil => rfl
  | cons c cs ih =>
    obtain ⟨height, heights⟩ := List.forall_mem_cons.1 heights
    rw [stackedReads, height]
    by_cases lt : r < h
    · rw [if_pos lt, Nat.div_eq_of_lt lt, Nat.mod_eq_of_lt lt]
      rfl
    · obtain ⟨s, rfl⟩ := Nat.exists_eq_add_of_le' (Nat.le_of_not_lt lt)
      rw [if_neg lt, Nat.add_sub_cancel, ih heights, Nat.add_div_right s pos, Nat.add_mod_right]
      rfl

theorem float?_stackOnto {c : Column} {cs : List Column} {h : Nat} (pos : 0 < h)
    (heights : ∀ d ∈ c :: cs, d.height = h) (floats : ∀ d ∈ c :: cs, d.dtype = .float64) (r : Nat) :
    (c.stackOnto cs).float? r = (c :: cs)[r / h]?.bind (·.float? (r % h)) := by
  obtain ⟨first, rest⟩ := List.forall_mem_cons.1 floats
  rw [float?_eq, (stackOnto_spec c cs).2.2, commonType_of_all first rest, stackedReads_blocks pos heights]
  cases hd : (c :: cs)[r / h]? with
  | none => rfl
  | some d => rw [Option.bind_some, Option.bind_some, cast_self (floats d (List.mem_of_getElem? hd)), float?_eq]

end Column

namespace Frame

open Grouping

def repeats (values : List String) (h : Nat) : Gather := (values.flatMap fun _ => (List.range h).map some).toArray

def meltedLabels (values : List String) (h : Nat) : Array (Option String) :=
  (values.flatMap fun name => List.replicate h (some name)).toArray

section

variable {values : List String} {h r s : Nat}

@[simp] theorem size_repeats (values : List String) (h : Nat) : (repeats values h).size = values.length * h := by
  simp [repeats, List.length_flatMap]

theorem getElem?_repeats (pos : 0 < h) (r : Nat) :
    (repeats values h)[r]? = values[r / h]?.map fun _ => some (r % h) := by
  rw [repeats, List.getElem?_toArray]
  exact getElem?_blocks (fun _ i => some i) pos values r

theorem getElem?_meltedLabels (pos : 0 < h) (r : Nat) : (meltedLabels values h)[r]? = values[r / h]?.map some := by
  have same : meltedLabels values h = (values.flatMap fun name => (List.range h).map fun _ => some name).toArray := by
    simp [meltedLabels, List.map_const']
  rw [same, List.getElem?_toArray, getElem?_blocks (fun name _ => some name) pos]

theorem block_lt (hr : r < values.length * h) : r / h < values.length :=
  Nat.div_lt_of_lt_mul (Nat.mul_comm .. ▸ hr)

theorem block_row_lt {q k : Nat} (hq : q < values.length) (hk : k < h) : q * h + k < values.length * h := by
  refine Nat.lt_of_lt_of_le (Nat.add_lt_add_left hk _) ?_
  rw [← Nat.succ_mul]
  exact Nat.mul_le_mul_right h hq

variable (pos : 0 < h) (hr : r < values.length * h) (hs : s < values.length * h)

include pos hr hs

theorem sameKeys_repeats (keys : List Column) :
    sameKeys (keys.map (·.take (repeats values h))) r s = sameKeys keys (r % h) (s % h) := by
  have value (c : Column) {r : Nat} (hr : r < values.length * h) :
      (c.take (repeats values h)).value? r = c.value? (r % h) := by
    rw [Column.value?_take, getElem?_repeats pos, List.getElem?_eq_getElem (block_lt hr)]
    rfl
  rw [sameKeys, sameKeys, List.all_map]
  refine congrArg keys.all (funext fun c => ?_)
  simp only [Function.comp_apply, Column.groupEq, value c hr, value c hs]

omit hr hs

theorem leading_repeats {keys : List Column} (nonempty : values ≠ [])
    (tuples : ∀ i < h, ∀ j < h, sameKeys keys i j → i = j) :
    leading (keys.map (·.take (repeats values h))) (values.length * h) = List.range h := by
  have all : h ≤ values.length * h := Nat.le_mul_of_pos_left h (List.length_pos_iff.2 nonempty)
  refine (pairwise_leading _ _).eq_of_mem_iff List.pairwise_lt_range fun r => ?_
  rw [mem_leading, List.mem_range]
  constructor
  · rintro ⟨hr, first⟩
    refine Nat.lt_of_not_le fun le => ?_
    have lt : r - h < r := by omega
    refine first (r - h) lt ?_
    rw [sameKeys_repeats pos (lt.trans hr) hr, ← Nat.mod_eq_sub_mod le]
    exact sameKeys_refl keys _
  · intro hr
    refine ⟨hr.trans_le all, fun j hj same => ?_⟩
    have hj' := hj.trans hr
    rw [sameKeys_repeats pos (hj'.trans_le all) (hr.trans_le all), Nat.mod_eq_of_lt hj', Nat.mod_eq_of_lt hr] at same
    exact hj.ne (tuples j hj' r hr same)

end

section

variable {values : List String} {h r s : Nat} (pos : 0 < h) (labelName : String)

include pos

theorem value?_meltedLabels (r : Nat) :
    (Column.mk labelName (.string (meltedLabels values h))).value? r = values[r / h]?.map .string := by
  rw [Column.value?, Column.held?, Cells.held?, getElem?_meltedLabels pos]
  cases values[r / h]? <;> rfl

theorem plain_meltedLabels {name : String} (hname : values[r / h]? = some name) :
    ((Column.mk labelName (.string (meltedLabels values h))).scalar r).plain = name := by
  have held := Column.held?_of_value? ((value?_meltedLabels pos labelName r).trans (congrArg _ hname))
  rw [Column.scalar, held]
  rfl

variable {labelName}

theorem groupEq_meltedLabels (nodup : values.Nodup) (hr : r < values.length * h) :
    Column.groupEq ⟨labelName, .string (meltedLabels values h)⟩ r ⟨labelName, .string (meltedLabels values h)⟩ s ↔
      r / h = s / h := by
  have token (r : Nat) : (Column.mk labelName (.string (meltedLabels values h))).token? r =
      values[r / h]?.map .inr := by
    rw [Column.token?, value?_meltedLabels pos, Option.map_map]
    rfl
  rw [Column.groupEq_iff_token?, token, token, Option.map_injective Sum.inr_injective |>.eq_iff]
  exact List.getElem?_inj (block_lt hr) nodup

theorem cellRows_melted {keys : List Column} (nodup : values.Nodup)
    (tuples : ∀ i < h, ∀ j < h, sameKeys keys i j → i = j) {k j : Nat} (hk : k < h) (hj : j < values.length * h) :
    cellRows (keys.map (·.take (repeats values h))) ⟨labelName, .string (meltedLabels values h)⟩
      (values.length * h) k j = [j / h * h + k] := by
  have block := block_lt hj
  have all : h ≤ values.length * h := Nat.le_mul_of_pos_left h (Nat.zero_lt_of_lt block)
  refine (List.pairwise_lt_range.filter _).eq_of_mem_iff (List.pairwise_singleton (· < ·) _) fun r => ?_
  rw [List.mem_singleton]
  refine mem_cellRows.trans ⟨?_, ?_⟩
  · rintro ⟨hr, key, value⟩
    rw [sameKeys_repeats pos (hk.trans_le all) hr, Nat.mod_eq_of_lt hk] at key
    rw [(groupEq_meltedLabels pos nodup hj).1 value, tuples k hk _ (Nat.mod_lt r pos) key, Nat.div_add_mod']
  · rintro rfl
    have place : (j / h * h + k) % h = k := Nat.mul_add_mod_of_lt hk
    have own : (j / h * h + k) / h = j / h := mul_add_div_of_lt hk
    have lt : j / h * h + k < values.length * h := block_row_lt block hk
    refine ⟨lt, ?_, (groupEq_meltedLabels pos nodup hj).2 own.symm⟩
    rw [sameKeys_repeats pos (hk.trans_le all) lt, Nat.mod_eq_of_lt hk, place]
    exact sameKeys_refl keys k

end

structure Melted (f m : Frame) (idColumns columns : List Column) (ids values : List String)
    (labelName valueName : String) : Prop where
  height : m.height = values.length * f.height
  sane : m.Sane
  keys : ids.mapM m.column = .ok (idColumns.map (·.take (repeats values f.height)))
  label : m.column labelName = .ok ⟨labelName, .string (meltedLabels values f.height)⟩
  value : ∃ v, m.column valueName = .ok v ∧
    ∀ r, v.float? r = columns[r / f.height]?.bind fun c => (c.cast .float64).float? (r % f.height)
  ids : ids.Nodup

section

variable {f m : Frame} {idColumns columns : List Column} {ids values : List String} {labelName valueName : String}

variable (labelName valueName) in
theorem melt_eq_ofColumns (hf : f.Rectangular) (tall : 0 < f.height) (nonempty : values ≠ [])
    (hids : ids.mapM f.column = .ok idColumns) (hcolumns : values.mapM f.column = .ok columns)
    (numeric : ∀ c ∈ columns, c.dtype.isNumeric) : ∃ v : Column, v.name = valueName ∧ v.Sound ∧
      (∀ r, v.float? r = columns[r / f.height]?.bind fun c => (c.cast .float64).float? (r % f.height)) ∧
      f.melt ids values labelName valueName = ofColumns (idColumns.map (·.take (repeats values f.height)) ++
        [⟨labelName, .string (meltedLabels values f.height)⟩, v]) := by
  obtain ⟨c, cs, rfl⟩ := List.exists_cons_of_ne_nil (foundColumns_ne_nil nonempty hcolumns)
  have names : f.meltedColumns ids values = values := if_neg (by simpa using nonempty)
  have target : (c :: cs).all (·.dtype.isNumeric) = true := List.all_eq_true.2 numeric
  have keys : (ids.mapM fun name => (·.take (repeats values f.height)) <$> f.column name) =
      .ok (idColumns.map (·.take (repeats values f.height))) := by
    rw [mapM_eq_ok, List.forall₂_map_right_iff]
    exact (mapM_eq_ok.1 hids).imp fun _ _ hc => map_eq_ok.2 ⟨_, hc, rfl⟩
  have heights : ∀ d ∈ (c :: cs).map (·.cast .float64), d.height = f.height := by
    refine List.forall_mem_map.2 fun d hd => ?_
    obtain ⟨n, -, hn⟩ := exists_left (mapM_eq_ok.1 hcolumns) d hd
    rw [Column.height_cast, hf.height (column_eq_ok.1 hn)]
  have floats : ∀ d ∈ (c :: cs).map (·.cast .float64), d.dtype = .float64 :=
    List.forall_mem_map.2 fun d _ => d.dtype_cast .float64
  refine ⟨((c.cast .float64).stackOnto (cs.map (·.cast .float64))).rename valueName, rfl,
    Column.Sound.rename (Column.sound_stackOnto _ _) valueName, fun r => ?_, ?_⟩
  · rw [Column.float?, Column.held?_rename]
    refine (Column.float?_stackOnto tall heights floats r).trans ?_
    change ((c :: cs).map (·.cast .float64))[r / f.height]?.bind _ = _
    rw [List.getElem?_map, Option.bind_map]
    rfl
  · rw [melt, names, hcolumns]
    change (ids.mapM (fun name => (·.take (repeats values f.height)) <$> f.column name) >>= _) = _
    rw [keys, target]
    rfl

theorem melted_of_melt (hf : f.Rectangular) (tall : 0 < f.height) (identified : ids ≠ []) (nonempty : values ≠ [])
    (hids : ids.mapM f.column = .ok idColumns) (hcolumns : values.mapM f.column = .ok columns)
    (sound : ∀ c ∈ idColumns, c.Sound) (numeric : ∀ c ∈ columns, c.dtype.isNumeric)
    (melted : f.melt ids values labelName valueName = .ok m) :
    Melted f m idColumns columns ids values labelName valueName := by
  obtain ⟨v, rfl, soundValue, value, eq⟩ := melt_eq_ofColumns labelName valueName hf tall nonempty hids hcolumns numeric
  have built := eq.symm.trans melted
  have capped := capped_ofColumns built
  obtain ⟨rfl, nodup, -⟩ := ofColumns_eq_ok.1 built
  have keyed := foundColumns_ne_nil identified hids
  refine ⟨?_, ⟨capped, ?_⟩, ?_, ?_, ⟨v, ?_, value⟩, ?_⟩
  · obtain ⟨d, ds, rfl⟩ := List.exists_cons_of_ne_nil keyed
    exact (Column.height_take ..).trans (size_repeats ..)
  · refine List.forall_mem_append.2 ⟨List.forall_mem_map.2 fun d hd => Column.sound_take (sound d hd) _, ?_⟩
    exact List.forall_mem_cons.2 ⟨Column.sound_of_dtype nofun, List.forall_mem_singleton.2 soundValue⟩
  · rw [mapM_eq_ok, List.forall₂_map_right_iff]
    have each : List.Forall₂ (fun n n' => n = n') ids ids := List.forall₂_same.2 fun _ _ => rfl
    refine forall₂_common each (mapM_eq_ok.1 hids) fun n _ _ c hc same found => column_eq_ok.2 ?_
    rw [← same, ← name_of_column? (column_eq_ok.1 found)]
    exact capped.column? (c := c.take _) (List.mem_append_left _ (List.mem_map_of_mem hc))
  · exact column_eq_ok.2 (capped.column? (c := ⟨labelName, _⟩) (by simp))
  · exact column_eq_ok.2 (capped.column? (by simp))
  · rw [List.map_append, List.map_map] at nodup
    rw [← names_mapM_column hids]
    exact (List.nodup_append.1 nodup).1

theorem nanAsNull_cast {d : Column} {h : Nat} (height : d.height = h) {xs : Array (Option Float)} (size : xs.size = h)
    (each : ∀ k < h, xs[k]? = some ((d.cast .float64).float? k)) :
    (d.cast .float64).nanAsNull = ⟨d.name, .float64 xs⟩ := by
  rw [Column.nanAsNull_eq (d.dtype_cast _), Column.name_cast]
  refine congrArg (fun xs => Column.mk d.name (.float64 xs)) (Array.ext ?_ fun k _ hk => ?_)
  · rw [Array.size_ofFn, Column.height_cast, height, size]
  · rw [Array.getElem_ofFn]
    exact Option.some.inj ((each k (size ▸ hk)).symm.trans (Array.getElem?_eq_getElem hk))

theorem column_of_isPivotColumn {host : Host} {v : Column} (hf : f.Rectangular) (tall : 0 < f.height)
    (nodup : values.Nodup) (tuples : ∀ i < f.height, ∀ j < f.height, sameKeys idColumns i j → i = j)
    (hcolumns : values.mapM f.column = .ok columns)
    (value : ∀ r, v.float? r = columns[r / f.height]?.bind fun c => (c.cast .float64).float? (r % f.height)) {j : Nat}
    (hj : j < values.length * f.height) {c : Column}
    (cell : IsPivotColumn host (idColumns.map (·.take (repeats values f.height)))
      ⟨labelName, .string (meltedLabels values f.height)⟩ v .first (values.length * f.height) j c) :
    ∃ d, f.column c.name = .ok d ∧ c = (d.cast .float64).nanAsNull := by
  obtain ⟨xs, rfl, size, each⟩ := cell
  have block := block_lt hj
  have nonempty : values ≠ [] := List.ne_nil_of_length_pos (Nat.zero_lt_of_lt block)
  rw [leading_repeats tall nonempty tuples] at size each
  have all := mapM_eq_ok.1 hcolumns
  obtain ⟨d, hd, found⟩ : ∃ d, columns[j / f.height]? = some d ∧ f.column values[j / f.height] = .ok d :=
    ⟨_, List.getElem?_eq_getElem (all.length_eq ▸ block), all.get block (all.length_eq ▸ block)⟩
  have name := plain_meltedLabels tall labelName (List.getElem?_eq_getElem block)
  refine ⟨d, by rw [name, found], ?_⟩
  rw [name, nanAsNull_cast (hf.height (column_eq_ok.1 found)) (size.trans List.length_range) fun k hk => ?_,
    name_of_column? (column_eq_ok.1 found)]
  obtain ⟨x, hx, cell⟩ := each k k (List.getElem?_range hk)
  rw [cellRows_melted tall nodup tuples hk hj, IsCell, if_neg (List.cons_ne_nil _ _)] at cell
  obtain ⟨e, first, rfl⟩ := cell
  rw [hx, float?_aggregateOver_first first, value, mul_add_div_of_lt hk, hd, Nat.mul_add_mod_of_lt hk, Option.bind_some]

theorem sorted_of_tabulates {host : Host} {keys cells : List Column} {heads : List Nat} {v : Column} (tall : 0 < f.height)
    (nodup : values.Nodup) (h : Tabulates host keys ⟨labelName, .string (meltedLabels values f.height)⟩ v .first
      (values.length * f.height) heads cells) : values.mergeSort (· ≤ ·) = cells.map (·.name) := by
  have sorted : (values.mergeSort (· ≤ ·)).Pairwise (· < ·) :=
    List.sortedLE_mergeSort.pairwise.imp₂ (fun _ _ le ne => lt_of_le_of_ne le ne)
      ((List.mergeSort_perm values _).nodup_iff.2 nodup)
  rw [h.names]
  refine sorted.eq_of_mem_iff h.ascending fun n => ?_
  rw [List.mem_mergeSort, List.mem_map]
  constructor
  · intro hn
    obtain ⟨q, hq, rfl⟩ := List.getElem_of_mem hn
    have own : (q * f.height + 0) / f.height = q := mul_add_div_of_lt tall
    have held : Column.isNull ⟨labelName, .string (meltedLabels values f.height)⟩ (q * f.height + 0) = false := by
      rw [Column.isNull, value?_meltedLabels tall, own, List.getElem?_eq_getElem hq]
      rfl
    obtain ⟨j, hj, value⟩ := h.all _ (block_row_lt hq tall) held
    have block := (groupEq_meltedLabels tall nodup (h.values j hj).1).1 value
    refine ⟨j, hj, plain_meltedLabels tall labelName ?_⟩
    rw [block, own, List.getElem?_eq_getElem hq]
  · rintro ⟨j, hj, rfl⟩
    have block := block_lt (h.values j hj).1
    rw [plain_meltedLabels tall labelName (List.getElem?_eq_getElem block)]
    exact List.getElem_mem block

theorem gather_repeats (hf : f.Rectangular) (tall : 0 < f.height) (nonempty : values ≠ [])
    (hids : ids.mapM f.column = .ok idColumns) :
    (idColumns.map (·.take (repeats values f.height))).map (·.gather (List.range f.height).toArray) = idColumns := by
  rw [List.map_map]
  refine (List.map_congr_left fun c hc => ?_).trans (List.map_id' idColumns)
  obtain ⟨n, -, hn⟩ := exists_left (mapM_eq_ok.1 hids) c hc
  have height := hf.height (column_eq_ok.1 hn)
  rw [← height]
  refine Column.gather_take_self fun i hi => ?_
  rw [height] at hi ⊢
  rw [getElem?_repeats tall, Nat.div_eq_of_lt hi, Nat.mod_eq_of_lt hi,
    List.getElem?_eq_getElem (List.length_pos_iff.2 nonempty)]
  rfl

/-- Pivot undoes melt: it gives back the ids in their order, and behind them the melted columns as numbers in the
order of their names. -/
theorem pivot_melt (host : Host) (hf : f.Rectangular) (tall : 0 < f.height) (identified : ids ≠ []) (nonempty : values ≠ [])
    (hids : ids.mapM f.column = .ok idColumns) (sound : ∀ c ∈ idColumns, c.Sound)
    (tuples : ∀ i < f.height, ∀ j < f.height, sameKeys idColumns i j → i = j) (nodup : values.Nodup)
    (apart : ∀ n ∈ values, n ∉ ids) (hcolumns : values.mapM f.column = .ok columns)
    (numeric : ∀ c ∈ columns, c.dtype.isNumeric) (melted : f.melt ids values labelName valueName = .ok m) :
    ∃ sorted, (values.mergeSort (· ≤ ·)).mapM f.column = .ok sorted ∧
      m.pivot host ids labelName valueName .first =
        .ok ⟨idColumns ++ sorted.map fun c => (c.cast .float64).nanAsNull, f.height⟩ := by
  have parts := melted_of_melt hf tall identified nonempty hids hcolumns sound numeric melted
  obtain ⟨v, hv, value⟩ := parts.value
  have plain {j : Nat} (hj : j < values.length * f.height) :
      ∃ n ∈ values, (Column.scalar ⟨labelName, .string (meltedLabels values f.height)⟩ j).plain = n :=
    ⟨_, List.getElem_mem (block_lt hj), plain_meltedLabels tall labelName (List.getElem?_eq_getElem _)⟩
  have unsigned (j : Nat) : Column.float? ⟨labelName, .string (meltedLabels values f.height)⟩ j = none :=
    Column.float?_of_isStringLike rfl j
  obtain ⟨heads, cells, -, tabulates, ok⟩ := pivot_ok host .first parts.sane identified parts.keys
    parts.label hv rfl (fun i _ j _ x hx => by simp [unsigned] at hx) parts.ids fun j hj _ => by
      obtain ⟨n, hn, text⟩ := plain (parts.height ▸ hj)
      exact text ▸ apart n hn
  rw [parts.height] at tabulates ok
  rw [leading_repeats tall nonempty tuples] at ok
  have columns : ∀ c ∈ cells, ∃ d, f.column c.name = .ok d ∧ c = (d.cast .float64).nanAsNull := fun c hc => by
    obtain ⟨j, hj, cell⟩ := exists_left tabulates.columns c hc
    exact column_of_isPivotColumn hf tall nodup tuples hcolumns value (tabulates.values j hj).1 cell
  choose! before found same using columns
  refine ⟨cells.map before, ?_, ok.trans ?_⟩
  · rw [sorted_of_tabulates tall nodup tabulates, mapM_eq_ok, List.forall₂_map_left_iff, List.forall₂_map_right_iff]
    exact List.forall₂_same.2 found
  · have restored : cells.map ((fun c => (c.cast .float64).nanAsNull) ∘ before) = cells :=
      (List.map_congr_left fun c hc => (same c hc).symm).trans (List.map_id' cells)
    rw [gather_repeats hf tall nonempty hids, List.length_range, List.map_map, restored]

end

def harvest : Frame :=
  ⟨[⟨"farm", .categorical ⟨#["north", "south"], #[some 1, none, some 0]⟩⟩,
    ⟨"wheat", .float64 #[some Double.one, some Double.nan, none]⟩, ⟨"rye", .int32 #[some 3, none, some 5]⟩], 3⟩

theorem pivot_melt_harvest : ∃ m sorted, harvest.melt ["farm"] ["wheat", "rye"] "crop" "amount" = .ok m ∧
    (["wheat", "rye"].mergeSort (· ≤ ·)).mapM harvest.column = .ok sorted ∧
    m.pivot Host.fourCores ["farm"] "crop" "amount" .first =
      .ok ⟨[⟨"farm", .categorical ⟨#["north", "south"], #[some 1, none, some 0]⟩⟩] ++
        sorted.map fun c => (c.cast .float64).nanAsNull, 3⟩ := by
  have rectangular : harvest.Rectangular := ⟨by decide, by decide, by decide⟩
  have sound : ∀ c ∈ [(⟨"farm", .categorical ⟨#["north", "south"], #[some 1, none, some 0]⟩⟩ : Column)], c.Sound := by
    rintro _ (_ | ⟨_, ⟨⟩⟩) _ ⟨⟩
    change ["north", "south"].Nodup
    decide
  have melts : (harvest.melt ["farm"] ["wheat", "rye"] "crop" "amount").isOk := by decide +kernel
  obtain ⟨m, hm⟩ := isOk_iff.1 melts
  obtain ⟨sorted, found, ok⟩ := pivot_melt Host.fourCores rectangular (by decide) (by decide) (by decide) rfl sound
    (by decide +kernel) (by decide) (by decide) rfl (by decide) hm
  exact ⟨m, sorted, hm, found, ok⟩

end Frame

end Columnar
