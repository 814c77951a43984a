import Columnar.Proofs.Outcome
import Columnar.Proofs.Rows

namespace Columnar

def Value.castTo (t : DType) (v : Value) : Option Value :=
  match t with
  | .float64 => v.number?.map .float64
  | .float32 => v.number?.map fun x => .float32 (Single.narrow x)
  | .int64 => v.number?.map fun x => .int64 (toInt64 x)
  | .int32 => v.number?.map fun x => .int32 (toInt32 x)
  | .bool => v.truth?.map .bool
  | .string | .categorical => v.plain?.map .string
  | .null => none

@[simp] theorem Value.castTo_reading (t : DType) (v : Value) : v.reading.castTo t = v.castTo t := by
  cases t <;> simp [castTo]

namespace Column

@[simp] theorem size_rows (f : Value → Option α) (c : Column) : (c.rows f).size = c.height := by
  simp [rows]

theorem getElem?_rows (f : Value → Option α) (c : Column) (i : Nat) :
    (c.rows f)[i]?.join = (c.held? i).bind f := by
  rw [rows, Array.getElem?_ofFn]
  split
  · rfl
  next h => rw [held?_eq_none (Nat.le_of_not_lt h)]; rfl

theorem size_plainTexts (c : Column) : c.plainTexts.size = c.height := by simp [plainTexts]

theorem getElem?_plainTexts (c : Column) (i : Nat) :
    c.plainTexts[i]?.join = (c.held? i).bind (·.plain?) := getElem?_rows (·.plain?) c i

@[simp] theorem size_texts (c : Column) : c.texts.size = c.height := by simp [texts]

theorem getElem?_texts (c : Column) (i : Nat) : c.texts[i]?.join = c.text? i := by
  rw [texts, Array.getElem?_ofFn]
  split
  · rfl
  next h => rw [text?, held?_eq_none (Nat.le_of_not_lt h)]; rfl

theorem reads_categorical (name : String) (d : Dictionary) (i : Nat) :
    reads ⟨name, .categorical d⟩ i = (d.text? i).map .string := by
  simp only [reads, held?, Cells.held?, Dictionary.text?, Option.map_map]
  rfl

theorem reads_ofTexts (name : String) (rows : Array (Option String)) (i : Nat) :
    (ofTexts name rows).reads i = rows[i]?.join.map .string := by
  rw [ofTexts, reads_categorical, Dictionary.text?_encode]

@[simp] theorem height_ofTexts (name : String) (rows : Array (Option String)) :
    (ofTexts name rows).height = rows.size := Dictionary.size_codes_encode rows

theorem cast_self {c : Column} {t : DType} (h : c.dtype = t) : c.cast t = c := if_pos h

@[simp] theorem dtype_cast (c : Column) (t : DType) : (c.cast t).dtype = t := by
  unfold cast
  split
  next h => exact h
  · cases t <;> rfl

@[simp] theorem height_cast (c : Column) (t : DType) : (c.cast t).height = c.height := by
  unfold cast
  split
  · rfl
  · cases t with
    | string => exact size_plainTexts c
    | categorical => exact (Dictionary.size_codes_encode _).trans (size_plainTexts c)
    | null => rfl
    | _ => exact size_rows _ c

theorem reads_cast (c : Column) (t : DType) (i : Nat) :
    (c.cast t).reads i = if c.dtype = t then c.reads i else (c.reads i).bind (·.castTo t) := by
  have held (f : Value → Option Value) (hf : ∀ v, f v.reading = f v) :
      (c.held? i).bind f = (c.reads i).bind f := by
    rw [reads, Option.bind_map]
    exact congrArg _ (funext fun v => (hf v).symm)
  unfold cast
  split
  · rfl
  · rw [← held _ (Value.castTo_reading t)]
    cases t with
    | string =>
      change Option.map _ (Option.map _ c.plainTexts[i]?.join) = _
      rw [getElem?_plainTexts]
      cases c.held? i with
      | none => rfl
      | some v => simp [Value.castTo, Value.reading, Function.comp_def]
    | categorical =>
      rw [reads_categorical, Dictionary.text?_encode, getElem?_plainTexts, Option.map_bind]
      rfl
    | null =>
      change none = _
      cases c.held? i <;> rfl
    | _ =>
      change Option.map _ (Option.map _ (c.rows _)[i]?.join) = _
      rw [getElem?_rows]
      cases c.held? i with
      | none => rfl
      | some v => simp [Value.castTo, Value.reading, Function.comp_def]

theorem sound_ofTexts (name : String) (rows : Array (Option String)) : (ofTexts name rows).Sound := by
  rintro _ ⟨⟩
  exact Dictionary.encode_distinct rows

theorem Sound.cast {c : Column} (h : c.Sound) (t : DType) : (c.cast t).Sound := by
  unfold Column.cast
  split
  · exact h
  · cases t with
    | categorical => exact sound_ofTexts c.name c.plainTexts
    | _ => exact sound_of_dtype nofun

theorem Alike.cast {c d : Column} (h : c.Alike d) (t : DType) : (c.cast t).Alike (d.cast t) :=
  ⟨by simp, by simp [h.height], fun i => by rw [reads_cast, reads_cast, h.dtype, h.reads],
    h.sound.1.cast t, h.sound.2.cast t⟩

theorem Picks.cast {c d : Column} {rows : List Nat} (h : Picks rows c d) (t : DType) :
    Picks rows (c.cast t) (d.cast t) where
  dtype := by simp
  height := by simp [h.height]
  reads i := by
    rw [reads_cast, h.dtype, h.reads]
    cases rows[i]? with
    | none => simp
    | some k => simp [reads_cast]

def stackedReads (t : DType) : List Column → Nat → Option Value
  | [], _ => none
  | c :: cs, i => if i < c.height then (c.cast t).reads i else stackedReads t cs (i - c.height)

end Column

namespace Cells

theorem dtype_append {a b : Cells} : (a.append b).dtype = a.dtype := by
  cases a <;> cases b <;> rfl

theorem height_append {a b : Cells} (h : a.dtype = b.dtype) (hc : a.dtype ≠ .categorical) :
    (a.append b).height = a.height + b.height := by
  cases a <;> cases b <;> simp_all [append, height, dtype]

theorem held?_append {a b : Cells} (h : a.dtype = b.dtype) (hc : a.dtype ≠ .categorical) (i : Nat) :
    (a.append b).held? i = if i < a.height then a.held? i else b.held? (i - a.height) := by
  by_cases hi : i < a.height
  · rw [if_pos hi]
    cases a <;> cases b <;> simp_all [append, height, dtype, held?, Array.getElem?_append]
  · rw [if_neg hi]
    cases a <;> cases b <;>
      simp_all [append, height, dtype, held?, Array.getElem?_append, Nat.not_lt.2]

end Cells

namespace DType

theorem categorical_of_common {s t : DType} (h : s.common t = .categorical) :
    (s = .categorical ∨ s = .null) ∧ (t = .categorical ∨ t = .null) := by
  revert h
  cases s <;> cases t <;> decide

theorem null_of_common {s t : DType} (h : s.common t = .null) : s = .null ∧ t = .null := by
  revert h
  cases s <;> cases t <;> decide

end DType

namespace Column

theorem categorical_of_commonType {cs : List Column} {s : DType}
    (h : cs.foldl (fun t c => t.common c.dtype) s = .categorical) :
    (s = .categorical ∨ s = .null) ∧ ∀ c ∈ cs, c.dtype = .categorical ∨ c.dtype = .null := by
  induction cs generalizing s with
  | nil => exact ⟨.inl h, by simp⟩
  | cons c cs ih =>
    obtain ⟨first, rest⟩ := ih h
    have both : (s = .categorical ∨ s = .null) ∧ (c.dtype = .categorical ∨ c.dtype = .null) := by
      rcases first with hc | hn
      · exact DType.categorical_of_common hc
      · exact ⟨.inr (DType.null_of_common hn).1, .inr (DType.null_of_common hn).2⟩
    exact ⟨both.1, List.forall_mem_cons.2 ⟨both.2, rest⟩⟩

theorem reads_cast_categorical {c : Column} (h : c.dtype = .categorical ∨ c.dtype = .null) (i : Nat) :
    (c.cast .categorical).reads i = (c.text? i).map .string := by
  obtain ⟨name, cells⟩ := c
  cases cells with
  | categorical d =>
    rw [reads_cast, if_pos (show (Column.mk name (.categorical d)).dtype = .categorical from rfl),
      text?_eq, reads_categorical]
    cases d.text? i <;> rfl
  | null n => rw [reads_cast, if_neg (by rintro ⟨⟩)]; rfl
  | _ => rcases h with h | h <;> cases h

theorem reads_stackOnto_categorical (name : String) (cs : List Column)
    (h : ∀ c ∈ cs, c.dtype = .categorical ∨ c.dtype = .null) (acc : Array (Option String)) (i : Nat) :
    (ofTexts name (cs.foldl (fun rows c => rows ++ c.texts) acc)).reads i =
      if i < acc.size then acc[i]?.join.map .string
      else stackedReads .categorical cs (i - acc.size) := by
  induction cs generalizing acc with
  | nil =>
    rw [List.foldl_nil, reads_ofTexts]
    split
    · rfl
    next hi => simp [Array.getElem?_eq_none (Nat.le_of_not_lt hi), stackedReads]
  | cons c cs ih =>
    obtain ⟨hc, hcs⟩ := List.forall_mem_cons.1 h
    rw [List.foldl_cons, ih hcs, Array.size_append, size_texts, Array.getElem?_append]
    by_cases hi : i < acc.size
    · rw [if_pos hi, if_pos hi, if_pos (by omega)]
    · rw [if_neg hi, if_neg hi, getElem?_texts, stackedReads, reads_cast_categorical hc]
      by_cases hj : i - acc.size < c.height
      · rw [if_pos hj, if_pos (by omega)]
      · rw [if_neg hj, if_neg (by omega), Nat.sub_add_eq]

theorem reads_stackOnto_plain (t : DType) (ht : t ≠ .categorical) (cs : List Column) (acc : Column)
    (hacc : acc.dtype = t) (i : Nat) :
    let out := cs.foldl (fun acc c => { acc with cells := acc.cells.append (c.cast t).cells }) acc
    out.dtype = t ∧ out.height = acc.height + (cs.map (·.height)).sum ∧
      out.reads i = if i < acc.height then acc.reads i else stackedReads t cs (i - acc.height) := by
  induction cs generalizing acc with
  | nil =>
    refine ⟨hacc, by simp, ?_⟩
    by_cases hi : i < acc.height
    · simp [hi]
    · simpa [hi, stackedReads] using reads_eq_none (Nat.le_of_not_lt hi)
  | cons c cs ih =>
    have same : acc.cells.dtype = (c.cast t).cells.dtype := hacc.trans (dtype_cast c t).symm
    have plain : acc.cells.dtype ≠ .categorical := fun h => ht (hacc.symm.trans h)
    have height : (Column.mk acc.name (acc.cells.append (c.cast t).cells)).height =
        acc.height + c.height :=
      (Cells.height_append same plain).trans (congrArg (acc.height + ·) (height_cast c t))
    have reads (j : Nat) : (Column.mk acc.name (acc.cells.append (c.cast t).cells)).reads j =
        if j < acc.height then acc.reads j else (c.cast t).reads (j - acc.height) := by
      change Option.map _ ((acc.cells.append (c.cast t).cells).held? j) = _
      rw [Cells.held?_append same plain, apply_ite (Option.map Value.reading)]
      rfl
    obtain ⟨dtype', height', reads'⟩ := ih ⟨acc.name, acc.cells.append (c.cast t).cells⟩
      (Cells.dtype_append.trans hacc)
    refine ⟨dtype', ?_, ?_⟩
    · rw [List.foldl_cons, height', height, List.map_cons, List.sum_cons, Nat.add_assoc]
    · rw [List.foldl_cons, reads', height, reads]
      by_cases hi : i < acc.height
      · rw [if_pos hi, if_pos hi, if_pos (by omega)]
      · rw [if_neg hi, if_neg hi, stackedReads]
        by_cases hj : i - acc.height < c.height
        · rw [if_pos hj, if_pos (by omega)]
        · rw [if_neg hj, if_neg (by omega), Nat.sub_add_eq]

theorem stackOnto_spec (c : Column) (cs : List Column) :
    (c.stackOnto cs).dtype = commonType c cs ∧
      (c.stackOnto cs).height = ((c :: cs).map (·.height)).sum ∧
      ∀ i, (c.stackOnto cs).reads i = stackedReads (commonType c cs) (c :: cs) i := by
  by_cases ht : commonType c cs = .categorical
  · obtain ⟨hc, hcs⟩ := categorical_of_commonType ht
    have out : c.stackOnto cs =
        ofTexts c.name (cs.foldl (fun rows c => rows ++ c.texts) c.texts) := by
      simp only [stackOnto, ht]
    have size : ∀ (cs : List Column) (acc : Array (Option String)),
        (cs.foldl (fun rows c => rows ++ c.texts) acc).size = acc.size + (cs.map (·.height)).sum := by
      intro cs
      induction cs with
      | nil => simp
      | cons c cs ih => intro acc; simp [ih, Nat.add_assoc]
    refine ⟨by rw [out, ht]; rfl, by simp [out, size], fun i => ?_⟩
    rw [out, reads_stackOnto_categorical _ _ hcs, ht, stackedReads, reads_cast_categorical hc,
      size_texts, getElem?_texts]
  · have out : c.stackOnto cs = cs.foldl (fun acc d =>
        { acc with cells := acc.cells.append (d.cast (commonType c cs)).cells })
        (c.cast (commonType c cs)) := by
      unfold stackOnto
      split
      next h => exact absurd h ht
      · rfl
    have spec := reads_stackOnto_plain _ ht cs _ (dtype_cast c (commonType c cs))
    refine ⟨out ▸ (spec 0).1, ?_, fun i => ?_⟩
    · rw [out, (spec 0).2.1, height_cast, List.map_cons, List.sum_cons]
    · rw [out, (spec i).2.2, stackedReads, height_cast]

theorem sound_stackOnto (c : Column) (cs : List Column) : (c.stackOnto cs).Sound := by
  by_cases ht : commonType c cs = .categorical
  · simp only [stackOnto, ht]
    exact sound_ofTexts c.name _
  · exact sound_of_dtype ((stackOnto_spec c cs).1 ▸ ht)

theorem stackedReads_congr {cs ds : List Column} (h : List.Forall₂ Alike cs ds) (t : DType) (i : Nat) :
    stackedReads t cs i = stackedReads t ds i := by
  induction h generalizing i with
  | nil => rfl
  | cons hc _ ih => rw [stackedReads, stackedReads, hc.height, (hc.cast t).reads, ih]

theorem commonType_congr {cs ds : List Column} (h : List.Forall₂ Alike cs ds) (s : DType) :
    cs.foldl (fun t c => t.common c.dtype) s = ds.foldl (fun t c => t.common c.dtype) s := by
  induction h generalizing s with
  | nil => rfl
  | cons hc _ ih => rw [List.foldl_cons, List.foldl_cons, hc.dtype, ih]

theorem Alike.stackOnto {c d : Column} {cs ds : List Column} (h : c.Alike d)
    (hs : List.Forall₂ Alike cs ds) : (c.stackOnto cs).Alike (d.stackOnto ds) := by
  have common : commonType c cs = commonType d ds := by
    rw [commonType, commonType, h.dtype, commonType_congr hs]
  obtain ⟨dtype, height, reads⟩ := stackOnto_spec c cs
  obtain ⟨dtype', height', reads'⟩ := stackOnto_spec d ds
  refine ⟨by rw [dtype, dtype', common], ?_, fun i => ?_, sound_stackOnto c cs, sound_stackOnto d ds⟩
  · rw [height, height', map_eq_map (.cons h hs) fun _ _ hc => hc.height]
  · rw [reads, reads', common, stackedReads_congr (.cons h hs)]

theorem reads_stackOnto_upper (c d : Column) {i : Nat} (h : i < c.height) :
    (c.stackOnto [d]).reads i = (c.cast (c.dtype.common d.dtype)).reads i := by
  rw [(stackOnto_spec c [d]).2.2, stackedReads, if_pos h]
  rfl

theorem reads_stackOnto_lower (c d : Column) (i : Nat) :
    (c.stackOnto [d]).reads (c.height + i) = (d.cast (c.dtype.common d.dtype)).reads i := by
  rw [(stackOnto_spec c [d]).2.2, stackedReads, if_neg (by omega), stackedReads, Nat.add_sub_cancel_left]
  split
  · rfl
  next h => exact (reads_eq_none (by simpa using h)).symm

end Column

end Columnar
