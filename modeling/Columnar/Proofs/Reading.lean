import Columnar.Column.Order
import Columnar.Proofs.Encoding

namespace Columnar

namespace Value

def reading : Value → Value
  | category _ s => string s
  | v => v

@[simp] theorem reading_reading (v : Value) : v.reading.reading = v.reading := by cases v <;> rfl

@[simp] theorem isMissing_reading (v : Value) : v.reading.isMissing = v.isMissing := by cases v <;> rfl

@[simp] theorem scalar_reading (v : Value) : v.reading.scalar = v.scalar := by cases v <;> rfl

@[simp] theorem float?_reading (v : Value) : v.reading.float? = v.float? := by cases v <;> rfl

@[simp] theorem int?_reading (v : Value) : v.reading.int? = v.int? := by cases v <;> rfl

@[simp] theorem text?_reading (v : Value) : v.reading.text? = v.text? := by cases v <;> rfl

@[simp] theorem number?_reading (v : Value) : v.reading.number? = v.number? := by cases v <;> rfl

@[simp] theorem truth?_reading (v : Value) : v.reading.truth? = v.truth? := by cases v <;> rfl

@[simp] theorem plain?_reading (v : Value) : v.reading.plain? = v.plain? := by cases v <;> rfl

@[simp] theorem order_reading (v w : Value) : v.reading.order w.reading = v.order w := by
  cases v <;> cases w <;> rfl

@[simp] theorem same_reading (v w : Value) : v.reading.same w.reading = v.same w := by
  cases v <;> cases w <;> simp [reading, same, dtype, DType.isStringLike, DType.isInteger,
    DType.isNumeric, DType.isFloat, text?]

end Value

namespace Cells

theorem held?_eq_none {c : Cells} {i : Nat} (h : c.height ≤ i) : c.held? i = none := by
  cases c <;> simp_all [held?, height]

theorem lt_height_of_held? {c : Cells} {i : Nat} {v : Value} (h : c.held? i = some v) :
    i < c.height := by
  by_cases hi : i < c.height
  · exact hi
  · rw [held?_eq_none (Nat.le_of_not_lt hi)] at h
    cases h

theorem dtype_of_held? {c : Cells} {i : Nat} {v : Value} (h : c.held? i = some v) :
    v.dtype = c.dtype := by
  cases c with
  | null => cases h
  | _ => obtain ⟨_, _, rfl⟩ := Option.map_eq_some_iff.1 h; rfl

end Cells

namespace Column

theorem heightOf_eq {cs : List Column} {n : Nat} (nonempty : cs ≠ []) (heights : ∀ c ∈ cs, c.height = n) :
    heightOf cs = n := by
  obtain ⟨c, cs, rfl⟩ := List.exists_cons_of_ne_nil nonempty
  exact heights c List.mem_cons_self

def reads (c : Column) (i : Nat) : Option Value := (c.held? i).map (·.reading)

theorem held?_eq_none {c : Column} {i : Nat} (h : c.height ≤ i) : c.held? i = none :=
  Cells.held?_eq_none h

theorem reads_eq_none {c : Column} {i : Nat} (h : c.height ≤ i) : c.reads i = none := by
  rw [reads, held?_eq_none h, Option.map_none]

theorem lt_height_of_held? {c : Column} {i : Nat} {v : Value} (h : c.held? i = some v) :
    i < c.height := Cells.lt_height_of_held? h

theorem dtype_of_held? {c : Column} {i : Nat} {v : Value} (h : c.held? i = some v) :
    v.dtype = c.dtype := Cells.dtype_of_held? h

@[simp] theorem dtype_rename (c : Column) (name : String) : (c.rename name).dtype = c.dtype := rfl

@[simp] theorem height_rename (c : Column) (name : String) : (c.rename name).height = c.height := rfl

@[simp] theorem held?_rename (c : Column) (name : String) (i : Nat) :
    (c.rename name).held? i = c.held? i := rfl

@[simp] theorem reads_rename (c : Column) (name : String) (i : Nat) :
    (c.rename name).reads i = c.reads i := rfl

theorem value?_of_held? (c : Column) (i : Nat) :
    (c.value? i).map (·.reading) = (c.reads i).filter (!·.isMissing) := by
  simp only [value?, reads]
  cases c.held? i with
  | none => rfl
  | some v => by_cases h : v.isMissing <;> simp [h, Option.filter]

theorem isNull_eq (c : Column) (i : Nat) : c.isNull i = (c.reads i).all (·.isMissing) := by
  simp only [isNull, value?, reads]
  cases c.held? i with
  | none => rfl
  | some v => by_cases h : v.isMissing <;> simp [h, Option.filter]

/-- What a row says, or nothing where it is null; a float that is no number counts as null. -/
def present? (c : Column) (i : Nat) : Option Value := (c.reads i).filter (!·.isMissing)

theorem isNull_eq_present? (c : Column) (i : Nat) : c.isNull i = (c.present? i).isNone := by
  rw [present?, ← value?_of_held?, isNull, Option.isNone_map]

theorem scalar_eq (c : Column) (i : Nat) : c.scalar i = ((c.reads i).map (·.scalar)).getD .null := by
  simp [scalar, reads, Function.comp_def]

theorem text?_eq (c : Column) (i : Nat) : c.text? i = (c.reads i).bind (·.text?) := by
  simp only [text?, reads, Option.bind_map, Function.comp_def, Value.text?_reading]

theorem float?_eq (c : Column) (i : Nat) : c.float? i = (c.reads i).bind (·.float?) := by
  simp only [float?, reads, Option.bind_map, Function.comp_def, Value.float?_reading]

theorem int?_eq (c : Column) (i : Nat) :
    c.int? i = ((c.reads i).filter (!·.isMissing)).bind (·.int?) := by
  rw [← value?_of_held?]
  simp only [int?, Option.bind_map, Function.comp_def, Value.int?_reading]

theorem groupEq_eq (a : Column) (i : Nat) (b : Column) (j : Nat) :
    a.groupEq i b j =
      match (a.reads i).filter (!·.isMissing), (b.reads j).filter (!·.isMissing) with
      | some x, some y => x.same y
      | none, none => true
      | _, _ => false := by
  rw [← value?_of_held?, ← value?_of_held?, groupEq]
  cases a.value? i <;> cases b.value? j <;> simp

theorem joinEq_eq (a : Column) (i : Nat) (b : Column) (j : Nat) :
    a.joinEq i b j =
      match (a.reads i).filter (!·.isMissing), (b.reads j).filter (!·.isMissing) with
      | some x, some y => x.same y
      | _, _ => false := by
  rw [← value?_of_held?, ← value?_of_held?, joinEq]
  cases a.value? i <;> cases b.value? j <;> simp

theorem orderRows_eq (a : Column) (i : Nat) (b : Column) (j : Nat) :
    a.orderRows i b j =
      orderOptional ((a.reads i).filter (!·.isMissing)) ((b.reads j).filter (!·.isMissing)) := by
  rw [← value?_of_held?, ← value?_of_held?, orderRows]
  cases a.value? i <;> cases b.value? j <;> simp [orderOptional]

theorem nullCount_eq (c : Column) : c.nullCount = (List.range c.height).countP c.isNull := by
  obtain ⟨name, cells⟩ := c
  cases cells with
  | null n =>
    have all : ∀ i ∈ List.range n, (Column.mk name (.null n)).isNull i = true := fun _ _ => rfl
    have count := List.countP_eq_length.2 all
    rw [List.length_range] at count
    exact count.symm
  | _ => rfl

/-- No text stands twice in the dictionary of a column. -/
def Sound (c : Column) : Prop := ∀ d, c.cells = .categorical d → d.Distinct

theorem sound_of_dtype {c : Column} (h : c.dtype ≠ .categorical) : c.Sound := by
  intro d hd
  rw [dtype, hd] at h
  exact absurd rfl h

theorem Sound.rename {c : Column} (h : c.Sound) (name : String) : (c.rename name).Sound := h

theorem Sound.code_eq {c : Column} (h : c.Sound) {i j m n : Nat} {s : String}
    (hi : c.held? i = some (.category m s)) (hj : c.held? j = some (.category n s)) : m = n := by
  obtain ⟨name, cells⟩ := c
  cases cells with
  | categorical d =>
    obtain ⟨a, -, ha⟩ := Option.map_eq_some_iff.1 hi
    obtain ⟨b, -, hb⟩ := Option.map_eq_some_iff.1 hj
    cases ha
    injection hb with code label
    rw [← code, (h d rfl).label_injective label]
  | _ => simp [Column.held?, Cells.held?] at hi

structure Picks (rows : List Nat) (c d : Column) : Prop where
  dtype : d.dtype = c.dtype
  height : d.height = rows.length
  reads : ∀ i, d.reads i = rows[i]?.bind c.reads

/-- Picked rows in a dictionary that repeats no text if there was none repeated before. -/
structure Draws (rows : List Nat) (c d : Column) : Prop extends Picks rows c d where
  sound : c.Sound → d.Sound

/-- The same type, height and rows, apart from the numbering of texts. -/
structure Alike (c d : Column) : Prop where
  dtype : c.dtype = d.dtype
  height : c.height = d.height
  reads : ∀ i, c.reads i = d.reads i
  sound : c.Sound ∧ d.Sound

namespace Alike

theorem refl {c : Column} (h : c.Sound) : c.Alike c := ⟨rfl, rfl, fun _ => rfl, h, h⟩

theorem symm {c d : Column} (h : c.Alike d) : d.Alike c :=
  ⟨h.dtype.symm, h.height.symm, fun i => (h.reads i).symm, h.sound.2, h.sound.1⟩

theorem trans {c d e : Column} (h : c.Alike d) (h' : d.Alike e) : c.Alike e :=
  ⟨h.dtype.trans h'.dtype, h.height.trans h'.height, fun i => (h.reads i).trans (h'.reads i),
    h.sound.1, h'.sound.2⟩

theorem rename {c d : Column} (h : c.Alike d) (m n : String) : (c.rename m).Alike (d.rename n) :=
  ⟨h.dtype, h.height, h.reads, h.sound⟩

variable {a b c d : Column}

theorem isNull (h : c.Alike d) (i : Nat) : c.isNull i = d.isNull i := by
  rw [isNull_eq, isNull_eq, h.reads]

theorem scalar (h : c.Alike d) (i : Nat) : c.scalar i = d.scalar i := by
  rw [scalar_eq, scalar_eq, h.reads]

theorem text? (h : c.Alike d) (i : Nat) : c.text? i = d.text? i := by
  rw [text?_eq, text?_eq, h.reads]

theorem float? (h : c.Alike d) (i : Nat) : c.float? i = d.float? i := by
  rw [float?_eq, float?_eq, h.reads]

theorem int? (h : c.Alike d) (i : Nat) : c.int? i = d.int? i := by
  rw [int?_eq, int?_eq, h.reads]

theorem groupEq (h : a.Alike b) (h' : c.Alike d) (i j : Nat) :
    a.groupEq i c j = b.groupEq i d j := by
  rw [groupEq_eq, groupEq_eq, h.reads, h'.reads]

theorem joinEq (h : a.Alike b) (h' : c.Alike d) (i j : Nat) : a.joinEq i c j = b.joinEq i d j := by
  rw [joinEq_eq, joinEq_eq, h.reads, h'.reads]

theorem orderRows (h : a.Alike b) (h' : c.Alike d) (i j : Nat) :
    a.orderRows i c j = b.orderRows i d j := by
  rw [orderRows_eq, orderRows_eq, h.reads, h'.reads]

theorem nullCount (h : c.Alike d) : c.nullCount = d.nullCount := by
  rw [nullCount_eq, nullCount_eq, h.height]
  exact congrArg (List.countP · _) (funext h.isNull)

theorem isSorted (h : c.Alike d) : c.isSorted = d.isSorted := by
  simp only [Column.isSorted, h.nullCount, h.height, h.orderRows h]

end Alike

theorem Alike.value? {c d : Column} (h : c.Alike d) (i : Nat) :
    (c.value? i = none ∧ d.value? i = none) ∨
      ∃ v w, c.value? i = some v ∧ d.value? i = some w ∧ v.reading = w.reading := by
  have same : (c.value? i).map (·.reading) = (d.value? i).map (·.reading) := by
    rw [value?_of_held?, value?_of_held?, h.reads]
  cases hc : c.value? i with
  | none => cases hd : d.value? i with
    | none => exact .inl ⟨rfl, rfl⟩
    | some w => simp [hc, hd] at same
  | some v => cases hd : d.value? i with
    | none => simp [hc, hd] at same
    | some w => exact .inr ⟨v, w, rfl, rfl, by simpa [hc, hd] using same⟩

end Column

theorem Value.order_congr {v v' w w' : Value} (hv : v.reading = v'.reading) (hw : w.reading = w'.reading) :
    v.order w = v'.order w' := by
  rw [← order_reading, hv, hw, order_reading]

end Columnar
