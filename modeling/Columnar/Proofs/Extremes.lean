import Columnar.Proofs.Accumulating
import Columnar.Proofs.Ranks
import Columnar.Proofs.Stacking

namespace Columnar

namespace Value

def wholeTypes : List DType := [.int64, .int32, .bool]

def ofWhole (t : DType) (i : Int64) : Option Value := if t = .int64 then some (.int64 i) else (int64 i).castTo t

theorem toInt32_ofInt (j : Int32) : toInt32 (Double.ofInt j.toInt) = j := by
  have low : -2 ^ 31 ≤ j.toInt := j.le_toInt
  have high : j.toInt < 2 ^ 31 := j.toInt_lt
  have within : j.toInt.natAbs < 2 ^ 53 := by omega
  have whole := Double.truncate_ofInt within j.minValue_le_toInt j.toInt_le
  rw [toInt32, whole, Int32.ofInt_toInt]

variable {v w : Value} {i j : Int64}

theorem int?_of_whole (h : v.dtype ∈ wholeTypes) : ∃ i, v.int? = some i := by
  cases v <;> simp [wholeTypes, dtype] at h <;> exact ⟨_, rfl⟩

theorem ofWhole_int? (h : v.int? = some i) : ofWhole v.dtype i = some v := by
  cases v with
  | int64 j =>
    cases h
    rfl
  | int32 j =>
    cases h
    change some (Value.int32 (toInt32 (Double.ofInt j.toInt64.toInt))) = _
    rw [Int32.toInt_toInt64, toInt32_ofInt]
  | bool b =>
    cases h
    cases b <;> decide
  | _ => cases h

theorem order_of_int? (same : v.dtype = w.dtype) (hv : v.int? = some i) (hw : w.int? = some j) :
    v.order w = compare i j := by
  cases v <;> cases w <;> cases hv <;> cases hw <;> cases same
  case int64.int64 => rfl
  case int32.int32 a b =>
    change compare a b = _
    rw [compare_int32, compare_int64, Int32.toInt_toInt64, Int32.toInt_toInt64]
  case bool.bool a b => cases a <;> cases b <;> rfl

def blank : DType → Option Value
  | .int64 => some (.int64 0)
  | .int32 => some (.int32 0)
  | .bool => some (.bool false)
  | _ => none

theorem ofWhole_zero {t : DType} (h : t ∈ wholeTypes) : ofWhole t 0 = blank t := by
  revert t
  decide

end Value

namespace Column

@[simp] theorem name_cast (c : Column) (t : DType) : (c.cast t).name = c.name := by
  unfold cast
  split <;> rfl

theorem held?_eq_reads {d : Column} (h : d.dtype ≠ .categorical) (i : Nat) : d.held? i = d.reads i := by
  rw [reads]
  cases held : d.held? i with
  | none => rfl
  | some v =>
    cases v with
    | category => exact absurd (dtype_of_held? held).symm h
    | _ => rfl

end Column

namespace Grouping

def IsExtreme (e : End) (vs : List Value) (v : Value) : Prop := v ∈ vs ∧ ∀ w ∈ vs, w.order v ≠ e.wanted

theorem compare_ne_wanted {e : End} {a b : Int64} :
    compare a b ≠ e.wanted ↔ match e with
      | .least => b.toInt ≤ a.toInt
      | .greatest => a.toInt ≤ b.toInt := by
  rw [compare_int64]
  cases e <;> simp only [End.wanted, ne_eq, Std.compare_eq_lt, Std.compare_eq_gt] <;> omega

theorem foldl_int (e : End) (xs : List Int64) (s : Int64) :
    (xs.foldl e.int s = s ∨ xs.foldl e.int s ∈ xs) ∧ compare s (xs.foldl e.int s) ≠ e.wanted ∧
      ∀ x ∈ xs, compare x (xs.foldl e.int s) ≠ e.wanted := by
  have refl (a : Int64) : compare a a ≠ e.wanted := by
    rw [compare_ne_wanted]
    cases e <;> exact Int.le_refl _
  have trans {a b d : Int64} (h : compare a b ≠ e.wanted) (h' : compare b d ≠ e.wanted) :
      compare a d ≠ e.wanted := by
    rw [compare_ne_wanted] at h h' ⊢
    cases e with
    | least => exact Int.le_trans h' h
    | greatest => exact Int.le_trans h h'
  have step (s x : Int64) : (e.int s x = s ∨ e.int s x = x) ∧ compare s (e.int s x) ≠ e.wanted ∧
      compare x (e.int s x) ≠ e.wanted := by
    simp only [compare_ne_wanted]
    cases e <;> simp only [End.int, Int64.lt_iff_toInt_lt] <;> split <;> grind
  induction xs generalizing s with
  | nil => exact ⟨.inl rfl, refl s, nofun⟩
  | cons x xs ih =>
    obtain ⟨one, start, all⟩ := ih (e.int s x)
    obtain ⟨one', start', head⟩ := step s x
    rw [List.foldl_cons]
    refine ⟨?_, trans start' start, List.forall_mem_cons.2 ⟨trans head start, all⟩⟩
    rcases one with one | one
    · exact one'.imp one.trans fun h => List.mem_cons.2 (.inl (one.trans h))
    · exact .inr (List.mem_cons_of_mem x one)

/-- From what every number beats on, the slot holds an extreme of the numbers. -/
theorem foldl_int_neutral (e : End) {xs : List Int64} (nonempty : xs ≠ []) :
    xs.foldl e.int e.intNeutral ∈ xs ∧ ∀ x ∈ xs, compare x (xs.foldl e.int e.intNeutral) ≠ e.wanted := by
  obtain ⟨one, -, all⟩ := foldl_int e xs e.intNeutral
  refine ⟨one.elim (fun start => ?_) id, all⟩
  obtain ⟨x, hx⟩ := List.exists_mem_of_ne_nil xs nonempty
  have beaten := all x hx
  have neutral : x = e.intNeutral := by
    rw [start, compare_ne_wanted] at beaten
    refine Int64.toInt_inj.1 ?_
    cases e with
    | least => exact Int.le_antisymm x.toInt_le beaten
    | greatest => exact Int.le_antisymm beaten x.minValue_le_toInt
  rw [start, ← neutral]
  exact hx

theorem dtype_intColumn (name : String) (xs : Array Int64) : (intColumn name xs).dtype = .int64 := rfl

theorem height_intColumn (name : String) (xs : Array Int64) : (intColumn name xs).height = xs.size :=
  Array.size_map

theorem held?_intColumn (name : String) (xs : Array Int64) (id : Nat) :
    (intColumn name xs).held? id = xs[id]?.map .int64 := by
  change (xs.map some)[id]?.join.map _ = _
  rw [Array.getElem?_map]
  cases xs[id]? <;> rfl

section

variable {g : Grouping} {c : Column} {id : Nat} (height : c.height = g.ids.size) (hid : id < g.size)

@[simp] theorem size_valueCounts : (g.valueCounts c).size = g.size := by simp [valueCounts]

include height hid

theorem getElem?_valueCounts : (g.valueCounts c)[id]? = some (g.valuesOf c id).length := by
  rw [valueCounts, getElem?_accumulate_replicate _ g hid 0 (fun row => !c.isNull row) height, valuesOf]
  have count (rows : List Nat) (n : Nat) : (rows.foldl (fun n row => if !c.isNull row then n + 1 else n) n) =
      n + (rows.filterMap c.value?).length := by
    induction rows generalizing n with
    | nil => rfl
    | cons row rows ih =>
      rw [List.foldl_cons, ih, List.filterMap_cons, Column.isNull]
      cases c.value? row with
      | none => rfl
      | some v =>
        simp
        omega
  rw [count, Nat.zero_add]

theorem getElem?_intExtremes (e : End) : (g.intExtremes c e)[id]? =
    some (if g.valuesOf c id = [] then 0
      else ((g.valuesOf c id).filterMap (·.int?)).foldl e.int e.intNeutral) := by
  rw [intExtremes, Array.getElem?_zipWith, intExtremes_eq_scan height, getElem?_scan_replicate _ g hid,
    getElem?_valueCounts height hid, filterMap_int?]
  simp only [List.length_eq_zero_iff]

omit height hid in
@[simp] theorem size_intExtremes (e : End) : (g.intExtremes c e).size = g.size := by simp [intExtremes]

omit height hid in
theorem extremes_eq_cast (e : End) (whole : c.dtype ∈ Value.wholeTypes) :
    g.extremes c e = (intColumn c.name (g.intExtremes c e)).cast c.dtype :=
  if_neg fun float => absurd whole (by revert float; cases c.dtype <;> decide)

omit height hid in
theorem held?_extremes_of_whole (e : End) (whole : c.dtype ∈ Value.wholeTypes) :
    (g.extremes c e).held? id = (g.intExtremes c e)[id]?.bind (Value.ofWhole c.dtype) := by
  have plain : c.dtype ≠ .categorical := fun h => absurd (h ▸ whole) (by decide)
  rw [extremes_eq_cast e whole, Column.held?_eq_reads (by rwa [Column.dtype_cast]), Column.reads_cast,
    ← Column.held?_eq_reads (d := intColumn c.name _) nofun, held?_intColumn, dtype_intColumn]
  by_cases same : c.dtype = .int64
  · rw [if_pos same.symm, same]
    cases (g.intExtremes c e)[id]? <;> rfl
  · rw [if_neg (Ne.symm same), Option.bind_map]
    refine congrArg _ (funext fun i => ?_)
    rw [Value.ofWhole, if_neg same]
    rfl

theorem held?_extremes (e : End) (whole : c.dtype ∈ Value.wholeTypes) :
    (g.valuesOf c id = [] ∧ (g.extremes c e).held? id = Value.blank c.dtype) ∨
      ∃ v, (g.extremes c e).held? id = some v ∧ IsExtreme e (g.valuesOf c id) v := by
  rw [held?_extremes_of_whole e whole, getElem?_intExtremes height hid, Option.bind_some]
  by_cases none : g.valuesOf c id = []
  · rw [if_pos none, Value.ofWhole_zero whole]
    exact .inl ⟨none, rfl⟩
  · rw [if_neg none]
    have number {v : Value} (hv : v ∈ g.valuesOf c id) : ∃ i, v.int? = some i :=
      Value.int?_of_whole (dtype_of_mem hv ▸ whole)
    have nonempty : (g.valuesOf c id).filterMap (·.int?) ≠ [] := by
      obtain ⟨v, hv⟩ := List.exists_mem_of_ne_nil _ none
      obtain ⟨i, hi⟩ := number hv
      exact List.ne_nil_of_mem (List.mem_filterMap.2 ⟨v, hv, hi⟩)
    obtain ⟨one, all⟩ := foldl_int_neutral e nonempty
    obtain ⟨v, hv, hi⟩ := List.mem_filterMap.1 one
    refine .inr ⟨v, dtype_of_mem hv ▸ Value.ofWhole_int? hi, hv, fun w hw => ?_⟩
    obtain ⟨j, hj⟩ := number hw
    rw [Value.order_of_int? ((dtype_of_mem hw).trans (dtype_of_mem hv).symm) hj hi]
    exact all j (List.mem_filterMap.2 ⟨w, hw, hj⟩)

end

section

variable {g : Grouping} {c : Column} {id : Nat}

def better (c : Column) (e : End) (best : Option Nat) (row : Nat) : Option Nat :=
  match c.value? row, best with
  | none, best => best
  | some _, none => some row
  | some v, some b =>
    match c.value? b with
    | some w => if v.order w = e.wanted then some row else some b
    | none => some row

def Best (c : Column) (e : End) (rows : List Nat) (best : Option Nat) : Prop :=
  match best with
  | none => rows.filterMap c.value? = []
  | some b => ∃ v, c.value? b = some v ∧ IsExtreme e (rows.filterMap c.value?) v

theorem order_self_ne {row : Nat} {v : Value} (hv : c.value? row = some v) (e : End) :
    v.order v ≠ e.wanted := by
  have same : v.rank.order v.rank = .eq := Std.ReflCmp.compare_self
  rw [Column.order_eq_rank hv hv, same]
  cases e <;> nofun

theorem order_trans {i j k : Nat} {u v w : Value} (hu : c.value? i = some u) (hv : c.value? j = some v)
    (hw : c.value? k = some w) {e : End} (beyond : u.order v = e.wanted) (beats : v.order w = e.wanted) :
    u.order w = e.wanted := by
  rw [Column.order_eq_rank hu hv] at beyond
  rw [Column.order_eq_rank hv hw] at beats
  rw [Column.order_eq_rank hu hw]
  cases e with
  | least => exact Std.TransCmp.lt_trans beyond beats
  | greatest => exact Std.TransCmp.gt_trans beyond beats

theorem Best.better {e : End} {rows : List Nat} {best : Option Nat} (h : Best c e rows best) (row : Nat) :
    Best c e (rows ++ [row]) (better c e best row) := by
  unfold Grouping.better
  cases hv : c.value? row with
  | none => cases best <;> simpa [Best, List.filterMap_append, hv] using h
  | some v =>
    have all : (rows ++ [row]).filterMap c.value? = rows.filterMap c.value? ++ [v] := by
      simp [List.filterMap_append, hv]
    cases best with
    | none =>
      have none : rows.filterMap c.value? = [] := h
      rw [none] at all
      exact ⟨v, hv, all ▸ List.mem_singleton_self v, all ▸ List.forall_mem_singleton.2 (order_self_ne hv e)⟩
    | some b =>
      obtain ⟨w, hw, mem, extreme⟩ := h
      simp only [hw]
      split
      next beats =>
        refine ⟨v, hv, by simp [all], ?_⟩
        rw [all, List.forall_mem_append, List.forall_mem_singleton]
        refine ⟨fun u hu beyond => ?_, order_self_ne hv e⟩
        obtain ⟨r, -, hr⟩ := List.mem_filterMap.1 hu
        exact extreme u hu (order_trans hr hv hw beyond beats)
      next stays =>
        refine ⟨w, hw, by simp [all, mem], ?_⟩
        rw [all, List.forall_mem_append, List.forall_mem_singleton]
        exact ⟨extreme, stays⟩

theorem best_foldl (e : End) (rows : List Nat) : Best c e rows (rows.foldl (Grouping.better c e) none) := by
  have run (rows seen : List Nat) (best : Option Nat) (h : Best c e seen best) :
      Best c e (seen ++ rows) (rows.foldl (Grouping.better c e) best) := by
    induction rows generalizing seen best with
    | nil => simpa using h
    | cons row rows ih => simpa using ih _ _ (h.better row)
  exact run rows [] none rfl

theorem getElem?_extremeRows (hid : id < g.size) (e : End) :
    ∃ best, (g.extremeRows c e)[id]? = some best ∧ Best c e (g.rowsOf id) best := by
  refine ⟨_, ?_, best_foldl e (g.rowsOf id)⟩
  change (accumulate (better c e) (.ofFn fun i : Fin g.ids.size => (i : Nat)) g.ids
    (.replicate g.size none))[id]? = _
  exact getElem?_accumulate_replicate _ g hid none (fun row => row) rfl

theorem held?_take_extremeRows (hid : id < g.size) (e : End) :
    (g.valuesOf c id = [] ∧ (c.take (g.extremeRows c e)).held? id = none) ∨
      ∃ v, (c.take (g.extremeRows c e)).held? id = some v ∧ IsExtreme e (g.valuesOf c id) v := by
  obtain ⟨best, hbest, h⟩ := getElem?_extremeRows hid e
  rw [Column.held?_take, hbest]
  cases best with
  | none => exact .inl ⟨h, rfl⟩
  | some b =>
    obtain ⟨v, hv, extreme⟩ := h
    exact .inr ⟨v, Column.held?_of_value? hv, extreme⟩

end

end Grouping

end Columnar
