import Columnar.Proofs.Alone
import Columnar.Proofs.Labels
import Columnar.Proofs.Leading
import Columnar.Proofs.Requests
import Columnar.Proofs.Serving

/-!
What a pivot makes of a frame: one row for each tuple of the index columns and one column for each value of the
pivot column, with the aggregations of the rows that have both. A value is found again by its text, so that zeros
of both signs, which are one value, have to be kept apart.
-/

namespace Columnar.Frame

open Grouping

section

variable (host : Host) (keys : List Column) (p v : Column) (op : Aggregation) (n : Nat)

def cellRows (i j : Nat) : List Nat := (List.range n).filter fun r => sameKeys keys i r && p.groupEq j p r

/-- What a cell has to hold: the aggregation of its rows alone as a number, and nothing without rows. -/
def IsCell (rows : List Nat) (x : Option Float) : Prop :=
  if rows = [] then x = none else ∃ e, aggregateOver host v rows op = .ok e ∧ x = e.float? 0

/-- A column of numbers named after the pivot value of a row, with a cell for each tuple of keys. -/
def IsPivotColumn (j : Nat) (c : Column) : Prop :=
  ∃ xs : Array (Option Float), c = ⟨(p.scalar j).plain, .float64 xs⟩ ∧ xs.size = (leading keys n).length ∧
    ∀ k i : Nat, (leading keys n)[k]? = some i →
      ∃ x, xs[k]? = some x ∧ IsCell host v op (cellRows keys p n i j) x

structure Tabulates (heads : List Nat) (columns : List Column) : Prop where
  values : ∀ j ∈ heads, j < n ∧ p.isNull j = false
  distinct : heads.Pairwise fun i j => ¬ p.groupEq i p j
  all : ∀ r < n, p.isNull r = false → ∃ j ∈ heads, p.groupEq j p r
  ascending : (heads.map fun j => (p.scalar j).plain).Pairwise (· < ·)
  columns : List.Forall₂ (IsPivotColumn host keys p v op n) heads columns

end

section

variable (label : String)

def setCell (a : Array (Option Float)) (cell : String × Nat × Option Float) : Array (Option Float) :=
  if cell.1 = label then a.setIfInBounds cell.2.1 cell.2.2 else a

theorem pivotColumn_eq (height : Nat) (cells : List (String × Nat × Option Float)) :
    pivotColumn height cells label = ⟨label, .float64 (cells.foldl (setCell label) (.replicate height none))⟩ := rfl

@[simp] theorem size_setCell (a : Array (Option Float)) (cell : String × Nat × Option Float) :
    (setCell label a cell).size = a.size := by
  unfold setCell
  split <;> simp

@[simp] theorem size_setCells (a : Array (Option Float)) (cells : List (String × Nat × Option Float)) :
    (cells.foldl (setCell label) a).size = a.size := by
  induction cells generalizing a with
  | nil => rfl
  | cons cell cells ih => rw [List.foldl_cons, ih, size_setCell]

theorem setCells_cases (cells : List (String × Nat × Option Float)) (a : Array (Option Float)) {k : Nat}
    (hk : k < a.size) :
    ((cells.foldl (setCell label) a)[k]? = a[k]? ∧ ∀ x, (label, k, x) ∉ cells) ∨
      ∃ x, (label, k, x) ∈ cells ∧ (cells.foldl (setCell label) a)[k]? = some x := by
  induction cells generalizing a with
  | nil => exact .inl ⟨rfl, fun _ => List.not_mem_nil⟩
  | cons cell cells ih =>
    obtain ⟨l, row, x⟩ := cell
    obtain ⟨stays, none⟩ | ⟨y, hy, put⟩ := ih (setCell label a (l, row, x)) (by rwa [size_setCell])
    · by_cases own : l = label ∧ row = k
      · obtain ⟨rfl, rfl⟩ := own
        refine .inr ⟨x, List.mem_cons_self, stays.trans ?_⟩
        rw [setCell, if_pos rfl, Array.getElem?_setIfInBounds_self_of_lt hk]
      · refine .inl ⟨stays.trans ?_, fun y hy => ?_⟩
        · unfold setCell
          split
          next same => exact Array.getElem?_setIfInBounds_ne fun eq => own ⟨same, eq⟩
          next => rfl
        · obtain eq | hy := List.mem_cons.1 hy
          · cases eq
            exact own ⟨rfl, rfl⟩
          · exact none y hy
    · exact .inr ⟨y, List.mem_cons_of_mem _ hy, put⟩

end

theorem mem_pivotCells {rows combos : Grouping} {p c : Column} {l : String} {k : Nat} {x : Option Float} :
    (l, k, x) ∈ pivotCells rows combos p c ↔
      ∃ id first, combos.firstRows[id]? = some first ∧ p.isNull first = false ∧ l = (p.scalar first).plain ∧
        k = rows.ids[first]?.getD 0 ∧ x = c.float? id := by
  have cell (first id : Nat) :
      ((p.value? first).map fun v => (v.scalar.plain, rows.ids[first]?.getD 0, c.float? id)) = some (l, k, x) ↔
        p.isNull first = false ∧ l = (p.scalar first).plain ∧ k = rows.ids[first]?.getD 0 ∧ x = c.float? id := by
    rw [Column.isNull, Column.scalar]
    cases hv : p.value? first with
    | none => simp
    | some v => simp [Column.held?_of_value? hv, eq_comm]
  simp only [pivotCells, List.mem_filterMap, Prod.exists, List.mk_mem_zipIdx_iff_getElem?, Array.getElem?_toList,
    cell]
  exact exists_comm

section

variable {host : Host} {keys : List Column} {p v c : Column} {op : Aggregation} {n i j first k id : Nat}
  {rows combos : Grouping}

theorem mem_cellRows {r : Nat} : r ∈ cellRows keys p n i j ↔ r < n ∧ sameKeys keys i r ∧ p.groupEq j p r := by
  simp [cellRows]

theorem cellRows_eq (key : sameKeys keys i first) (value : p.groupEq j p first) :
    cellRows keys p n i j = (List.range n).filter (sameKeys (keys ++ [p]) first) := by
  refine List.filter_congr fun r _ => ?_
  rw [← Bool.coe_iff_coe, Bool.and_eq_true, sameKeys_append, sameKeys_iff, sameKeys_iff, sameKeys_iff.1 key,
    Column.groupEq_iff_token?, Column.groupEq_iff_token?, (p.groupEq_iff_token? j first).1 value]

theorem isNull_congr (value : p.groupEq i p j) : p.isNull i = p.isNull j := by
  have null (i : Nat) : p.isNull i = (p.token? i).isNone := (Option.isNone_map ..).symm
  rw [null, null, (p.groupEq_iff_token? i j).1 value]

variable (hrows : rows.Leads keys n) (hcombos : combos.Leads (keys ++ [p]) n) (tall : v.height = n)
  (sound : v.Sound) (ok : combos.aggregate host v op = .ok c)
  (signs : ∀ i ∈ leading (keys ++ [p]) n, ∀ j ∈ leading (keys ++ [p]) n, p.SignsAgree i p j)

include hrows hcombos

theorem mem_pivotCells_iff {l : String} {x : Option Float} (hk : (leading keys n)[k]? = some i) :
    (l, k, x) ∈ pivotCells rows combos p c ↔
      ∃ id first, (leading (keys ++ [p]) n)[id]? = some first ∧ p.isNull first = false ∧
        l = (p.scalar first).plain ∧ sameKeys keys i first ∧ x = c.float? id := by
  rw [mem_pivotCells]
  refine exists_congr fun id => exists_congr fun first => ?_
  rw [hcombos.firstRows, List.getElem?_toArray]
  refine and_congr_right fun leads => and_congr_right fun _ => and_congr_right fun _ => and_congr_left fun _ => ?_
  have lt : first < n := (mem_leading.1 (List.mem_of_getElem? leads)).1
  obtain ⟨row, hrow⟩ : ∃ row, rows.ids[first]? = some row := ⟨_, Array.getElem?_eq_getElem (hrows.height ▸ lt)⟩
  rw [← hrows.ids k i hk first lt, hrow, Option.getD_some, Option.some.injEq, eq_comm]

omit hrows in
theorem mem_labels {l : String} : l ∈ sortedTexts ((pivotCells rows combos p c).map (·.1)) ↔
    ∃ j ∈ leading (keys ++ [p]) n, p.isNull j = false ∧ l = (p.scalar j).plain := by
  rw [(sortedTexts_spec _).2, List.mem_map]
  constructor
  · rintro ⟨⟨l, k, x⟩, hcell, rfl⟩
    obtain ⟨id, first, leads, some, text, -⟩ := mem_pivotCells.1 hcell
    rw [hcombos.firstRows, List.getElem?_toArray] at leads
    exact ⟨first, List.mem_of_getElem? leads, some, text⟩
  · rintro ⟨j, hj, some, rfl⟩
    obtain ⟨id, hid⟩ := List.mem_iff_getElem?.1 hj
    refine ⟨(_, _, _), mem_pivotCells.2 ⟨id, j, ?_, some, rfl, rfl, rfl⟩, rfl⟩
    rw [hcombos.firstRows, List.getElem?_toArray, hid]

include tall sound ok signs

theorem isCell_setCells (hk : (leading keys n)[k]? = some i) (leads : j ∈ leading (keys ++ [p]) n)
    (held : p.isNull j = false) :
    ∃ x, ((pivotCells rows combos p c).foldl (setCell (p.scalar j).plain) (.replicate rows.size none))[k]? = some x ∧
      IsCell host v op (cellRows keys p n i j) x := by
  have lt : k < rows.size := by
    rw [hrows.size_eq]
    exact (List.getElem?_eq_some_iff.1 hk).1
  obtain ⟨stays, none⟩ | ⟨x, hx, put⟩ := setCells_cases (p.scalar j).plain (pivotCells rows combos p c)
    (.replicate rows.size none) (k := k) (by simpa using lt)
  · refine ⟨Option.none, stays.trans (by simp [lt]), ?_⟩
    rw [IsCell, if_pos]
    refine List.eq_nil_iff_forall_not_mem.2 fun r hr => ?_
    obtain ⟨hr, key, value⟩ := mem_cellRows.1 hr
    obtain ⟨first, hfirst, same⟩ := exists_leading (keys ++ [p]) hr
    obtain ⟨id, hid⟩ := List.mem_iff_getElem?.1 hfirst
    obtain ⟨sameKey, sameValue⟩ := sameKeys_append.1 same
    have equal : p.groupEq j p first := by
      rw [Column.groupEq_iff_token?] at value sameValue ⊢
      exact value.trans sameValue.symm
    have present : p.isNull first = false := (isNull_congr equal).symm.trans held
    have text := (Column.plain_eq_iff held present).2 ⟨equal, signs j leads first hfirst⟩
    exact none _ ((mem_pivotCells_iff hrows hcombos hk).2
      ⟨id, first, hid, present, text, sameKeys_trans key (sameKeys_symm sameKey), rfl⟩)
  · obtain ⟨id, first, hid, present, text, key, rfl⟩ := (mem_pivotCells_iff hrows hcombos hk).1 hx
    have value := ((Column.plain_eq_iff held present).1 text).1
    have own : combos.rowsOf id = cellRows keys p n i j := (hcombos.rowsOf_eq hid).trans (cellRows_eq key value).symm
    have lt : id < combos.size := hcombos.size_eq ▸ (List.getElem?_eq_some_iff.1 hid).1
    obtain ⟨e, he, cell⟩ := hcombos.aggregate_alone lt own tall sound host ok
    have below : first < n := (mem_leading.1 (List.mem_of_getElem? hid)).1
    refine ⟨_, put, ?_⟩
    rw [IsCell, if_neg (List.ne_nil_of_mem (mem_cellRows.2 ⟨below, key, value⟩))]
    exact ⟨e, he, cell.symm⟩

/-- The columns of the labels are those of the values of the pivot column. -/
theorem exists_tabulates : ∃ heads, (∀ j ∈ heads, j ∈ leading (keys ++ [p]) n) ∧
    Tabulates host keys p v op n heads ((sortedTexts ((pivotCells rows combos p c).map (·.1))).map
      (pivotColumn rows.size (pivotCells rows combos p c))) := by
  have each (l : String) : l ∈ sortedTexts ((pivotCells rows combos p c).map (·.1)) ↔
      ∃ j ∈ leading (keys ++ [p]) n, p.isNull j = false ∧ l = (p.scalar j).plain := mem_labels hcombos
  have ascending := (sortedTexts_spec ((pivotCells rows combos p c).map (·.1))).1
  generalize sortedTexts ((pivotCells rows combos p c).map (·.1)) = labels at ascending each
  choose! head leads some text using fun l => (each l).1
  have equal {l l' : String} (hl : l ∈ labels) (hl' : l' ∈ labels) (h : p.groupEq (head l) p (head l')) : l = l' := by
    rw [text l hl, text l' hl']
    exact (Column.plain_eq_iff (some l hl) (some l' hl')).2 ⟨h, signs _ (leads l hl) _ (leads l' hl')⟩
  refine ⟨labels.map head, List.forall_mem_map.2 leads, ?_, ?_, ?_, ?_, ?_⟩
  · exact List.forall_mem_map.2 fun l hl => ⟨(mem_leading.1 (leads l hl)).1, some l hl⟩
  · rw [List.pairwise_map]
    exact ascending.imp_of_mem fun hl hl' lt same => lt.ne (equal hl hl' same)
  · intro r hr hsome
    obtain ⟨first, hfirst, same⟩ := exists_leading (keys ++ [p]) hr
    have value := (sameKeys_append.1 same).2
    have held : p.isNull first = false := (isNull_congr value).trans hsome
    have hlabel := (each _).2 ⟨first, hfirst, held, rfl⟩
    have found := ((Column.plain_eq_iff (some _ hlabel) held).1 (text _ hlabel).symm).1
    refine ⟨_, List.mem_map_of_mem hlabel, ?_⟩
    rw [Column.groupEq_iff_token?] at found value ⊢
    exact found.trans value
  · have texts : labels.map ((fun j => (p.scalar j).plain) ∘ head) = labels :=
      (List.map_congr_left fun l hl => (text l hl).symm).trans (List.map_id' labels)
    rwa [List.map_map, texts]
  · rw [List.forall₂_map_left_iff, List.forall₂_map_right_iff]
    refine List.forall₂_same.2 fun l hl => ⟨_, ?_, ?_, fun k i hk =>
      isCell_setCells hrows hcombos tall sound ok signs hk (leads l hl) (some l hl)⟩
    · rw [pivotColumn_eq, ← text l hl]
    · rw [size_setCells, Array.size_replicate, hrows.size_eq]

end

section

variable {host : Host} {f g : Frame} {index : List String} {pivotName valueName : String} {op : Aggregation}

theorem Sane.foundColumns {keys : List Column} (hf : f.Sane) (found : index.mapM f.column = .ok keys) :
    ∀ k ∈ keys, k.height = f.height ∧ k.Sound := fun k hk => by
  obtain ⟨name, -, hname⟩ := exists_left (mapM_eq_ok.1 found) k hk
  rw [column_eq_ok] at hname
  exact ⟨hf.height hname, hf.soundOf hname⟩

theorem heightOf_gather_append {keys : List Column} (nonempty : keys ≠ []) (rows : List Nat) (cells : List Column) :
    Column.heightOf (keys.map (·.gather rows.toArray) ++ cells) = rows.length := by
  obtain ⟨key, keys, rfl⟩ := List.exists_cons_of_ne_nil nonempty
  exact key.height_gather rows.toArray

theorem foundColumns_ne_nil {keys : List Column} (nonempty : index ≠ []) (found : index.mapM f.column = .ok keys) :
    keys ≠ [] := fun none => by
  rw [none, mapM_eq_ok, List.forall₂_nil_right_iff] at found
  exact nonempty found

theorem pivot_eq_ofColumns {keys : List Column} {p v c : Column} (hf : f.Sane) (nonempty : index ≠ [])
    (hkeys : index.mapM f.column = .ok keys) (hp : f.column pivotName = .ok p) (hv : f.column valueName = .ok v)
    (hc : (ofKeys host (keys ++ [p])).aggregate host v op = .ok c)
    (signs : ∀ i ∈ leading (keys ++ [p]) f.height, ∀ j ∈ leading (keys ++ [p]) f.height, p.SignsAgree i p j) :
    ∃ heads cells, (∀ j ∈ heads, j ∈ leading (keys ++ [p]) f.height) ∧
      Tabulates host keys p v op f.height heads cells ∧
      f.pivot host index pivotName valueName op =
        ofColumns (keys.map (·.gather (leading keys f.height).toArray) ++ cells) := by
  have keyed := foundColumns_ne_nil nonempty hkeys
  have each := hf.foundColumns hkeys
  have pivot : p.height = f.height ∧ p.Sound := ⟨hf.height (column_eq_ok.1 hp), hf.soundOf (column_eq_ok.1 hp)⟩
  have all : ∀ k ∈ keys ++ [p], k.height = f.height ∧ k.Sound :=
    List.forall_mem_append.2 ⟨each, List.forall_mem_singleton.2 pivot⟩
  have rows := ofKeys_leads host keyed (fun k hk => (each k hk).1) fun k hk => (each k hk).2
  have combos := ofKeys_leads host (by simp : keys ++ [p] ≠ []) (fun k hk => (all k hk).1) fun k hk => (all k hk).2
  obtain ⟨heads, leads, tabulates⟩ := exists_tabulates rows combos (hf.height (column_eq_ok.1 hv))
    (hf.soundOf (column_eq_ok.1 hv)) hc signs
  refine ⟨heads, _, leads, tabulates, ?_⟩
  rw [← rows.firstRows, Frame.pivot, if_neg (by simpa using nonempty), hkeys, hp, hv]
  change ((ofKeys host (keys ++ [p])).aggregate host v op >>= _) = _
  rw [hc]
  rfl

theorem Tabulates.names {keys : List Column} {p v : Column} {n : Nat} {heads : List Nat} {cells : List Column}
    (h : Tabulates host keys p v op n heads cells) :
    cells.map (·.name) = heads.map fun j => (p.scalar j).plain :=
  (map_eq_map h.columns fun _ _ ⟨_, hc, _⟩ => by rw [hc]).symm

variable (host op) in
theorem pivot_ok {keys : List Column} {p v c : Column} (hf : f.Sane) (nonempty : index ≠ [])
    (hkeys : index.mapM f.column = .ok keys) (hp : f.column pivotName = .ok p) (hv : f.column valueName = .ok v)
    (hc : (ofKeys host (keys ++ [p])).aggregate host v op = .ok c)
    (signs : ∀ i ∈ leading (keys ++ [p]) f.height, ∀ j ∈ leading (keys ++ [p]) f.height, p.SignsAgree i p j)
    (names : index.Nodup) (apart : ∀ j < f.height, p.isNull j = false → (p.scalar j).plain ∉ index) :
    ∃ heads cells, (∀ j ∈ heads, j ∈ leading (keys ++ [p]) f.height) ∧
      Tabulates host keys p v op f.height heads cells ∧
      f.pivot host index pivotName valueName op =
        .ok ⟨keys.map (·.gather (leading keys f.height).toArray) ++ cells, (leading keys f.height).length⟩ := by
  obtain ⟨heads, cells, leads, tabulates, eq⟩ := pivot_eq_ofColumns hf nonempty hkeys hp hv hc signs
  have keyed := foundColumns_ne_nil nonempty hkeys
  have height := heightOf_gather_append keyed (leading keys f.height) cells
  refine ⟨heads, cells, leads, tabulates, eq.trans (ofColumns_eq_ok.2 ⟨by rw [height], ?_, ?_, ?_⟩)⟩
  · have gathered : (keys.map (·.gather (leading keys f.height).toArray)).map (·.name) = index := by
      rw [← names_mapM_column hkeys, List.map_map]
      rfl
    rw [List.map_append, gathered, tabulates.names, List.nodup_append]
    refine ⟨names, tabulates.ascending.imp LT.lt.ne, ?_⟩
    rintro n hn _ hm rfl
    obtain ⟨j, hj, text⟩ := List.mem_map.1 hm
    obtain ⟨lt, held⟩ := tabulates.values j hj
    exact apart j lt held (text ▸ hn)
  · rw [height, List.forall_mem_append, List.forall_mem_map]
    refine ⟨fun key _ => (key.height_gather _).trans List.size_toArray, fun c hc => ?_⟩
    obtain ⟨j, -, xs, rfl, size, -⟩ := exists_left tabulates.columns c hc
    exact size
  · rw [height]
    have columns : f.columns ≠ [] := List.ne_nil_of_mem (mem_of_column? (column_eq_ok.1 hp))
    refine Nat.le_trans ?_ (hf.limit columns)
    simpa [leading] using List.length_filter_le _ (List.range f.height)

def Pivots (host : Host) (f : Frame) (index : List String) (pivotName valueName : String) (op : Aggregation)
    (g : Frame) : Prop :=
  ∃ keys p v, index.mapM f.column = .ok keys ∧ f.column pivotName = .ok p ∧ f.column valueName = .ok v ∧
    ∃ heads cells, Tabulates host keys p v op f.height heads cells ∧
      g = ⟨keys.map (·.gather (leading keys f.height).toArray) ++ cells, (leading keys f.height).length⟩

/-- Of the rows that come first with their keys and pivot value, no two hold zeros of opposite sign. -/
def OneSign (f : Frame) (index : List String) (pivotName : String) : Prop :=
  ∀ keys p, index.mapM f.column = .ok keys → f.column pivotName = .ok p →
    ∀ i ∈ leading (keys ++ [p]) f.height, ∀ j ∈ leading (keys ++ [p]) f.height, p.SignsAgree i p j

/-- One row for each tuple of the index columns and one column for each value of the pivot column, unless zeros of
both signs come up there. -/
theorem pivot_tabulates (hf : f.Sane) (sign : f.OneSign index pivotName)
    (ok : f.pivot host index pivotName valueName op = .ok g) : f.Pivots host index pivotName valueName op g := by
  have parts := ok
  rw [pivot] at parts
  split at parts
  · cases parts
  next nonempty =>
    simp only [bind_eq_ok] at parts
    obtain ⟨keys, hkeys, p, hp, v, hv, c, hc, -⟩ := parts
    obtain ⟨heads, cells, -, tabulates, eq⟩ := pivot_eq_ofColumns hf (by simpa using nonempty) hkeys hp hv hc
      (sign keys p hkeys hp)
    obtain ⟨rfl, -⟩ := ofColumns_eq_ok.1 (eq.symm.trans ok)
    have keyed := foundColumns_ne_nil (by simpa using nonempty) hkeys
    exact ⟨keys, p, v, hkeys, hp, hv, heads, cells, tabulates, congrArg _ (heightOf_gather_append keyed ..)⟩

end

def readings : Frame :=
  ⟨[⟨"device", .int64 #[some 1, some 2, some 1, some 2]⟩,
    ⟨"setting", .float64 #[some Double.negativeZero, some Double.one, some Double.negativeZero, some Double.nan]⟩,
    ⟨"reading", .bool #[some true, some false, none, some true]⟩], 4⟩

theorem pivot_tabulates_readings : ∃ g, readings.Sane ∧ readings.OneSign ["device"] "setting" ∧
    readings.pivot Host.fourCores ["device"] "setting" "reading" .first = .ok g ∧
    readings.Pivots Host.fourCores ["device"] "setting" "reading" .first g := by
  have sane : readings.Sane := sane_of_plain (by decide) (by decide) (by decide)
  have sign : readings.OneSign ["device"] "setting" := by
    rintro keys p ⟨⟩ ⟨⟩
    decide +kernel
  have device : ["device"].mapM readings.column = .ok [⟨"device", .int64 #[some 1, some 2, some 1, some 2]⟩] := rfl
  have setting : readings.column "setting" = .ok ⟨"setting",
    .float64 #[some Double.negativeZero, some Double.one, some Double.negativeZero, some Double.nan]⟩ := rfl
  have reading : readings.column "reading" = .ok ⟨"reading", .bool #[some true, some false, none, some true]⟩ := rfl
  obtain ⟨heads, cells, -, -, ok⟩ := pivot_ok Host.fourCores .first sane (by decide) device setting reading rfl
    (sign _ _ device setting) (by decide) (by decide +kernel)
  exact ⟨_, sane, sign, ok, pivot_tabulates sane sign ok⟩

def signedReadings : Frame :=
  ⟨[⟨"device", .int64 #[some 1, some 2]⟩,
    ⟨"setting", .float64 #[some Double.negativeZero, some Double.zero]⟩,
    ⟨"reading", .bool #[some false, some false]⟩], 2⟩

/-- The two zeros are one value, for which there are two columns. -/
theorem not_pivots_signedReadings : signedReadings.Sane ∧
    ¬ ∀ g, signedReadings.pivot Host.fourCores ["device"] "setting" "reading" .first = .ok g →
      signedReadings.Pivots Host.fourCores ["device"] "setting" "reading" .first g := by
  refine ⟨sane_of_plain (by decide) (by decide) (by decide), fun all => ?_⟩
  have named : names <$> signedReadings.pivot Host.fourCores ["device"] "setting" "reading" .first =
      .ok ["device", "-0", "0"] := by cbv
  obtain ⟨g, pivoted, columns⟩ := map_eq_ok.1 named
  obtain ⟨keys, p, v, ⟨⟩, ⟨⟩, hv, heads, cells, tabulates, rfl⟩ := all g pivoted
  have equal : ∀ i < 2, ∀ j < 2, Column.groupEq ⟨"setting", .float64 #[some Double.negativeZero, some Double.zero]⟩ i
      ⟨"setting", .float64 #[some Double.negativeZero, some Double.zero]⟩ j := by decide +kernel
  have two : cells.map (·.name) = ["-0", "0"] := (List.cons.inj columns).2
  have size := tabulates.columns.length_eq.trans ((List.length_map ..).symm.trans (congrArg List.length two))
  obtain ⟨i, j, rfl⟩ := List.length_eq_two.1 size
  have hi := (tabulates.values i (by simp)).1
  have hj := (tabulates.values j (by simp)).1
  exact (List.pairwise_cons.1 tabulates.distinct).1 j (by simp) (equal i hi j hj)

end Columnar.Frame
