import Columnar.Proofs.Conversions

/-!
The first value that is not null. Columns are gone through one by one, and what is gathered so far is converted to
a common type with each of them; the values are those of one conversion at the end, apart from texts that a type in
between has blurred, and so it does not matter how the columns are grouped.
-/

namespace Columnar

namespace Value

theorem castTo_of_missing {v : Value} (h : v.isMissing) (t : DType) : v.castTo t = none := by
  cases v with
  | float64 x =>
    have none : (Value.float64 x).float? = none := if_pos h
    cases t <;> simp [castTo, number?, truth?, text?, plain?, none, h]
  | float32 x =>
    have none : (Value.float32 x).float? = none := if_pos h
    cases t <;> simp [castTo, number?, truth?, text?, plain?, none, h]
  | _ => cases h

theorem Blurs.mono {v : Value} {r s t : DType} (h : v.Blurs r s) (up : s.Below t) : v.Blurs r t := by
  obtain ⟨rfl, blurred⟩ := h
  refine ⟨?_, blurred⟩
  revert up
  cases t <;> decide

theorem dtype_reading (v : Value) :
    v.dtype ≠ .null ∧ v.reading.dtype = if v.dtype = .categorical then .string else v.dtype := by
  cases v <;> exact ⟨nofun, rfl⟩

end Value

namespace Column

variable {a b c : Column} {cs : List Column} {i : Nat} {v : Value} {s t : DType}

theorem isNull_iff : c.isNull i ↔ c.present? i = none := by
  rw [isNull_eq_present?, Option.isNone_iff_eq_none]

theorem dtype_of_reads (h : c.reads i = some v) :
    c.dtype ≠ .null ∧ v.dtype = if c.dtype = .categorical then .string else c.dtype := by
  obtain ⟨u, held, rfl⟩ := Option.map_eq_some_iff.1 h
  rw [← dtype_of_held? held]
  exact u.dtype_reading

theorem not_blurs_dtype (h : c.present? i = some v) (t : DType) : ¬ v.Blurs c.dtype t := by
  obtain ⟨-, type⟩ := dtype_of_reads (Option.filter_eq_some_iff.1 h).1
  split at type
  · cases v with
    | string s => exact fun blurred => blurred.2
    | _ => cases type
  · exact type ▸ v.not_blurs_dtype t

theorem fits_of_present? (h : c.present? i = some v) : v.dtype.Fits c.dtype ∧ v.isMissing = false := by
  obtain ⟨reads, there⟩ := Option.filter_eq_some_iff.1 h
  obtain ⟨kind, type⟩ := dtype_of_reads reads
  refine ⟨?_, by simpa using there⟩
  rw [type]
  revert kind
  cases c.dtype <;> decide

theorem converted_read (h : c.reads i = some v) (t : DType) :
    (if c.dtype = t then some v else v.castTo t) = v.convert t := by
  obtain ⟨-, type⟩ := dtype_of_reads h
  by_cases dictionary : c.dtype = .categorical
  · rw [if_pos dictionary] at type
    rw [dictionary]
    cases v with
    | string s => cases t <;> rfl
    | _ => cases type
  · rw [if_neg dictionary] at type
    rw [Value.convert, type]

theorem present?_cast (up : c.dtype.Below t) (i : Nat) :
    (c.cast t).present? i = (c.present? i).bind (·.convert t) := by
  rw [present?, reads_cast]
  cases reads : c.reads i with
  | none =>
    rw [present?, reads]
    split <;> rfl
  | some v =>
    cases missing : v.isMissing with
    | true =>
      have none : c.present? i = none := by
        rw [present?, reads]
        simp [missing]
      rw [none]
      split
      · simp [missing]
      · simp [Value.castTo_of_missing missing]
    | false =>
      have present : c.present? i = some v := by
        rw [present?, reads]
        simp [missing]
      obtain ⟨w, hw, there, -⟩ := Value.exists_convert ((fits_of_present? present).1.mono up) missing
      rw [present, Option.bind_some, Option.bind_some, converted_read reads, hw]
      simp [there]

def first? (t : DType) (cs : List Column) (i : Nat) : Option Value :=
  (cs.find? (!·.isNull i)).bind fun c => (c.cast t).present? i

def commonFrom (s : DType) (cs : List Column) : DType := cs.foldl (fun t c => t.common c.dtype) s

def stages (s : DType) : List Column → List DType
  | [] => [s]
  | c :: cs => s :: stages (s.common c.dtype) cs

/-- The value of the first column that is not null at a row is not blurred by way of the common types from there on;
`s` is the common type of the columns before. -/
def Clear (t : DType) (i : Nat) (s : DType) : List Column → Prop
  | [] => True
  | c :: cs =>
    match c.present? i with
    | none => Clear t i (s.common c.dtype) cs
    | some v => ∀ r ∈ stages (s.common c.dtype) cs, ¬ v.Blurs r t

theorem commonFrom_append (s : DType) (cs ds : List Column) :
    commonFrom s (cs ++ ds) = commonFrom (commonFrom s cs) ds := List.foldl_append

theorem commonFrom_eq (s : DType) (cs : List Column) : commonFrom s cs = s.common (commonFrom .null cs) := by
  induction cs generalizing s with
  | nil => cases s <;> rfl
  | cons c cs ih =>
    change commonFrom (s.common c.dtype) cs = s.common (commonFrom (DType.null.common c.dtype) cs)
    rw [ih, ih (DType.null.common c.dtype), DType.common_assoc, DType.null_common]

theorem below_commonFrom (s : DType) (cs : List Column) : s.Below (commonFrom s cs) := by
  rw [commonFrom_eq]
  exact DType.below_common_left ..

theorem dtype_below_commonFrom (s : DType) (h : c ∈ cs) : c.dtype.Below (commonFrom s cs) := by
  obtain ⟨as, bs, rfl⟩ := List.append_of_mem h
  rw [commonFrom_append]
  exact (DType.below_common_right (commonFrom s as) c.dtype).trans (below_commonFrom _ bs)

theorem mem_stages_start (s : DType) (cs : List Column) : s ∈ stages s cs := by
  cases cs <;> exact List.mem_cons_self

theorem mem_stages_append {r s : DType} {cs ds : List Column} (h : r ∈ stages (commonFrom s cs) ds) :
    r ∈ stages s (cs ++ ds) := by
  induction cs generalizing s with
  | nil => exact h
  | cons c cs ih => exact List.mem_cons_of_mem s (ih h)

theorem commonFrom_mem_stages (s : DType) (cs : List Column) : commonFrom s cs ∈ stages s cs := by
  have last := mem_stages_append (mem_stages_start (commonFrom s cs) [])
  rwa [List.append_nil] at last

theorem below_of_mem_stages {r s : DType} (h : r ∈ stages s cs) : s.Below r := by
  induction cs generalizing s with
  | nil =>
    rw [List.mem_singleton.1 h]
    exact DType.common_self s
  | cons c cs ih =>
    obtain rfl | rest := List.mem_cons.1 h
    · exact DType.common_self r
    · exact (DType.below_common_left s c.dtype).trans (ih rest)

def Skipped (i : Nat) (cs : List Column) : Prop := ∀ c ∈ cs, c.present? i = none

theorem skipped_or_first (i : Nat) (cs : List Column) :
    Skipped i cs ∨ ∃ as c bs v, cs = as ++ c :: bs ∧ Skipped i as ∧ c.present? i = some v := by
  induction cs with
  | nil => exact .inl nofun
  | cons c cs ih =>
    cases present : c.present? i with
    | some v => exact .inr ⟨[], c, cs, v, rfl, nofun, present⟩
    | none =>
      obtain skipped | ⟨as, d, bs, v, rfl, skipped, first⟩ := ih
      · exact .inl (List.forall_mem_cons.2 ⟨present, skipped⟩)
      · exact .inr ⟨c :: as, d, bs, v, rfl, List.forall_mem_cons.2 ⟨present, skipped⟩, first⟩

theorem first?_of_skipped (h : Skipped i cs) (ds : List Column) : first? t (cs ++ ds) i = first? t ds i := by
  have passed : cs.find? (!·.isNull i) = none :=
    List.find?_eq_none.2 fun c hc => by simp [isNull_iff.2 (h c hc)]
  rw [first?, first?, List.find?_append, passed, Option.none_or]

theorem first?_cons (present : c.present? i = some v) (ds : List Column) :
    first? t (c :: ds) i = (c.cast t).present? i := by
  have there : (!c.isNull i) = true := by
    rw [isNull_eq_present?, present]
    rfl
  have found : (c :: ds).find? (!·.isNull i) = some c := List.find?_cons_of_pos there
  rw [first?, found, Option.bind_some]

theorem clear_of_skipped (h : Skipped i cs) (ds : List Column) :
    Clear t i s (cs ++ ds) ↔ Clear t i (commonFrom s cs) ds := by
  induction cs generalizing s with
  | nil => exact Iff.rfl
  | cons c cs ih =>
    obtain ⟨null, rest⟩ := List.forall_mem_cons.1 h
    rw [List.cons_append, Clear, null]
    exact ih rest

theorem clear_cons (present : c.present? i = some v) (ds : List Column) :
    Clear t i s (c :: ds) ↔ ∀ r ∈ stages (s.common c.dtype) ds, ¬ v.Blurs r t := by
  rw [Clear, present]

variable {us ds ws : List Column}

/-- Columns that stand for one column, at the row of interest: it has their common type, and where nothing comes before
it, the value of the first of them that is not null. -/
structure Stands (t : DType) (i : Nat) (us ds : List Column) (c : Column) : Prop where
  dtype : c.dtype = commonFrom .null ds
  clear : Skipped i us → Clear t i .null ds
  present : Skipped i us → c.present? i = first? c.dtype ds i

theorem commonFrom_grouped (dtype : c.dtype = commonFrom .null ds) (s : DType) (us ws : List Column) :
    commonFrom s (us ++ c :: ws) = commonFrom s (us ++ ds ++ ws) := by
  rw [commonFrom_append, commonFrom_append, commonFrom_append, commonFrom_eq (commonFrom s us) ds, ← dtype]
  rfl

theorem stages_grouped (dtype : c.dtype = commonFrom .null ds) {r s : DType} {us ws : List Column}
    (h : r ∈ stages s (us ++ c :: ws)) : r ∈ stages s (us ++ ds ++ ws) := by
  induction us generalizing s with
  | nil =>
    obtain rfl | rest := List.mem_cons.1 h
    · exact mem_stages_start ..
    · rw [dtype, ← commonFrom_eq] at rest
      exact mem_stages_append rest
  | cons u us ih => exact List.mem_cons.2 ((List.mem_cons.1 h).imp_right ih)

theorem first?_stands (h : Stands t i [] ds c) (flat : Clear t i s (ds ++ ws)) (up : c.dtype.Below t) :
    Clear t i s (c :: ws) ∧ first? t (c :: ws) i = first? t (ds ++ ws) i := by
  have value := h.present nofun
  have inner := h.clear nofun
  obtain skipped | ⟨as, d, bs, v, rfl, skipped, present⟩ := skipped_or_first i ds
  · have none : Skipped i [c] := List.forall_mem_singleton.2 (by
      rw [value, ← List.append_nil ds, first?_of_skipped skipped]
      rfl)
    rw [clear_of_skipped skipped, commonFrom_eq, ← h.dtype] at flat
    exact ⟨(clear_of_skipped none ws).2 flat, (first?_of_skipped none ws).trans (first?_of_skipped skipped ws).symm⟩
  · have below : d.dtype.Below c.dtype := by
      rw [h.dtype]
      exact dtype_below_commonFrom .null (List.mem_append_right as List.mem_cons_self)
    obtain ⟨fits, there⟩ := fits_of_present? present
    obtain ⟨w, hw, -, -⟩ := Value.exists_convert (fits.mono below) there
    rw [first?_of_skipped skipped, first?_cons present, present?_cast below, present, Option.bind_some, hw] at value
    rw [clear_of_skipped skipped, clear_cons present] at inner
    have whole (s : DType) : s.common c.dtype = commonFrom ((commonFrom s as).common d.dtype) bs := by
      rw [h.dtype, ← commonFrom_eq, commonFrom_append]
      rfl
    have own : ¬ v.Blurs c.dtype t := inner c.dtype (by
      have last := commonFrom_mem_stages ((commonFrom .null as).common d.dtype) bs
      rwa [← whole, DType.null_common] at last)
    rw [List.append_assoc, List.cons_append] at flat ⊢
    rw [clear_of_skipped skipped, clear_cons present] at flat
    constructor
    · refine (clear_cons value ws).2 fun r hr blurred => ?_
      rw [whole] at hr
      have same := Value.eq_of_blurs_convert (fits.mono below) there hw blurred
      exact flat r (mem_stages_append hr) (same ▸ blurred)
    · rw [first?_of_skipped skipped, first?_cons present, first?_cons value, present?_cast up,
        present?_cast (below.trans up), value, present, Option.bind_some, Option.bind_some,
        ← Value.convert_convert (fits.mono below) up there own, hw, Option.bind_some]

theorem first?_grouped (h : Stands t i us ds c) (flat : Clear t i s (us ++ ds ++ ws))
    (up : (commonFrom s (us ++ ds ++ ws)).Below t) :
    Clear t i s (us ++ c :: ws) ∧ first? t (us ++ c :: ws) i = first? t (us ++ ds ++ ws) i := by
  have below : c.dtype.Below t := by
    rw [← commonFrom_grouped h.dtype] at up
    exact (dtype_below_commonFrom s (List.mem_append_right us List.mem_cons_self)).trans up
  obtain before | ⟨as, u, bs, v, rfl, before, present⟩ := skipped_or_first i us
  · rw [List.append_assoc, clear_of_skipped before] at flat
    rw [clear_of_skipped before, List.append_assoc, first?_of_skipped before, first?_of_skipped before]
    exact first?_stands ⟨h.dtype, fun _ => h.clear before, fun _ => h.present before⟩ flat below
  · simp only [List.append_assoc, List.cons_append] at flat ⊢
    rw [clear_of_skipped before, clear_cons present] at flat ⊢
    rw [first?_of_skipped before, first?_of_skipped before, first?_cons present, first?_cons present]
    refine ⟨fun r hr => flat r ?_, rfl⟩
    rw [← List.append_assoc]
    exact stages_grouped h.dtype hr

theorem first?_eq_none_iff (below : ∀ c ∈ cs, c.dtype.Below t) : first? t cs i = none ↔ Skipped i cs := by
  obtain skipped | ⟨as, d, bs, v, rfl, skipped, present⟩ := skipped_or_first i cs
  · refine iff_of_true ?_ skipped
    rw [← List.append_nil cs, first?_of_skipped skipped]
    rfl
  · have member : d ∈ as ++ d :: bs := List.mem_append_right as List.mem_cons_self
    obtain ⟨fits, there⟩ := fits_of_present? present
    obtain ⟨w, hw, -, -⟩ := Value.exists_convert (fits.mono (below d member)) there
    refine iff_of_false (fun none => ?_) fun all => ?_
    · rw [first?_of_skipped skipped, first?_cons present, present?_cast (below d member), present] at none
      cases hw.symm.trans none
    · cases present.symm.trans (all d member)

/-- A column with the common type of some columns that is null where all of them are, and has elsewhere the value of
the first one that is not null, converted once, unless its text is blurred on the way. -/
structure Coalesces (cs : List Column) (c : Column) : Prop where
  dtype : c.dtype = commonFrom .null cs
  null : ∀ i, c.isNull i ↔ ∀ d ∈ cs, d.isNull i
  first : ∀ i, c.present? i = first? c.dtype cs i ↔ Clear c.dtype i .null cs

theorem skipped_iff : Skipped i cs ↔ ∀ d ∈ cs, d.isNull i := by
  simp only [Skipped, isNull_iff]

theorem coalesces_single (a : Column) : Coalesces [a] a := by
  refine ⟨(DType.null_common a.dtype).symm, fun i => by simp, fun i => ?_⟩
  cases present : a.present? i with
  | some v =>
    refine iff_of_true ?_ ((clear_cons present []).2 fun r hr => ?_)
    · rw [first?_cons present, cast_self rfl, present]
    · rw [List.mem_singleton.1 hr, DType.null_common]
      exact Value.not_blurs_self v a.dtype
  | none =>
    have skipped : Skipped i [a] := List.forall_mem_singleton.2 present
    exact iff_of_true (first?_of_skipped skipped []).symm ((clear_of_skipped skipped []).2 trivial)

theorem Clear.mono {r : DType} (h : Clear t i s cs) (up : r.Below t) : Clear r i s cs := by
  obtain skipped | ⟨as, d, bs, v, rfl, skipped, present⟩ := skipped_or_first i cs
  · rw [← List.append_nil cs, clear_of_skipped skipped]
    exact trivial
  · rw [clear_of_skipped skipped, clear_cons present] at h ⊢
    exact fun q hq blurred => h q hq (blurred.mono up)

/-- What comes of some columns and a column that comes of others comes of all of them. -/
theorem Coalesces.grouped (inner : Coalesces ds b) (outer : Coalesces (us ++ b :: ws) c) :
    c.dtype = commonFrom .null (us ++ ds ++ ws) ∧ (∀ i, c.isNull i ↔ ∀ d ∈ us ++ ds ++ ws, d.isNull i) ∧
      ∀ i, Clear c.dtype i .null (us ++ ds ++ ws) → (Skipped i us → Clear c.dtype i .null ds) →
        c.present? i = first? c.dtype (us ++ ds ++ ws) i := by
  have dtype := outer.dtype.trans (commonFrom_grouped inner.dtype .null us ws)
  refine ⟨dtype, fun i => ?_, fun i flat clear => ?_⟩
  · rw [outer.null]
    simp only [List.forall_mem_append, List.forall_mem_cons, inner.null, and_assoc]
  · have below : b.dtype.Below c.dtype := by
      rw [outer.dtype]
      exact dtype_below_commonFrom .null (List.mem_append_right us List.mem_cons_self)
    have stands : Stands c.dtype i us ds b :=
      ⟨inner.dtype, clear, fun skipped => (inner.first i).2 ((clear skipped).mono below)⟩
    obtain ⟨nested, same⟩ := first?_grouped stands flat (dtype ▸ DType.common_self c.dtype)
    rw [(outer.first i).2 nested, same]

theorem first?_pair (below : b.dtype.Below t) :
    first? t [a, b] i = ((if !a.isNull i then a else b).cast t).present? i := by
  cases present : a.present? i with
  | some v =>
    rw [isNull_eq_present?, present]
    exact first?_cons present [b]
  | none =>
    have skipped : Skipped i [a] := List.forall_mem_singleton.2 present
    rw [isNull_eq_present?, present, ← List.singleton_append, first?_of_skipped skipped]
    change _ = (b.cast t).present? i
    cases second : b.present? i with
    | some v => exact first?_cons second []
    | none =>
      have both : Skipped i [b] := List.forall_mem_singleton.2 second
      rw [← List.append_nil [b], first?_of_skipped both, present?_cast below, second]
      rfl

theorem clear_pair : Clear (commonFrom .null [a, b]) i .null [a, b] := by
  cases present : a.present? i with
  | some v =>
    refine (clear_cons present [b]).2 fun r hr => ?_
    obtain rfl | last := List.mem_cons.1 hr
    · rw [DType.null_common]
      exact not_blurs_dtype present _
    · rw [List.mem_singleton.1 last]
      exact Value.not_blurs_self v _
  | none =>
    rw [← List.singleton_append, clear_of_skipped (List.forall_mem_singleton.2 present)]
    cases second : b.present? i with
    | some v =>
      refine (clear_cons second []).2 fun r hr => ?_
      rw [List.mem_singleton.1 hr]
      exact Value.not_blurs_self v _
    | none => exact (clear_of_skipped (List.forall_mem_singleton.2 second) []).2 trivial

theorem pair_chosen {d e : Column} (pair : Coalesces [a, b] d) (up : d.dtype.Below t) (ws : List Column)
    (he : e ∈ [a, b]) (present : e.present? i = some v)
    (alone : first? d.dtype [a, b] i = (e.cast d.dtype).present? i) :
    ∃ w, v.dtype.Fits d.dtype ∧ v.isMissing = false ∧ v.convert d.dtype = some w ∧
      (e.cast t).present? i = v.convert t ∧ first? t (d :: ws) i = w.convert t ∧
      (Clear t i .null (d :: ws) ↔ ∀ r ∈ stages d.dtype ws, ¬ w.Blurs r t) := by
  have value : d.present? i = first? d.dtype [a, b] i := (pair.first i).2 (pair.dtype ▸ clear_pair)
  have below : e.dtype.Below d.dtype := pair.dtype ▸ dtype_below_commonFrom .null he
  obtain ⟨fits, there⟩ := fits_of_present? present
  obtain ⟨w, hw, -, -⟩ := Value.exists_convert (fits.mono below) there
  rw [alone, present?_cast below, present, Option.bind_some, hw] at value
  refine ⟨w, fits.mono below, there, hw, ?_, ?_, ?_⟩
  · rw [present?_cast (below.trans up), present, Option.bind_some]
  · rw [first?_cons value, present?_cast up, value, Option.bind_some]
  · rw [clear_cons value, DType.null_common]

theorem pair_cases {d : Column} (pair : Coalesces [a, b] d) (up : d.dtype.Below t) (ws : List Column) :
    (first? t (a :: b :: ws) i = first? t (d :: ws) i ∧
        (Clear t i .null (a :: b :: ws) ↔ Clear t i .null (d :: ws))) ∨
      ∃ v w : Value, v.dtype.Fits d.dtype ∧ v.isMissing = false ∧ v.convert d.dtype = some w ∧
        first? t (a :: b :: ws) i = v.convert t ∧ first? t (d :: ws) i = w.convert t ∧
        (Clear t i .null (a :: b :: ws) ↔ ∀ r ∈ stages d.dtype ws, ¬ v.Blurs r t) ∧
        (Clear t i .null (d :: ws) ↔ ∀ r ∈ stages d.dtype ws, ¬ w.Blurs r t) := by
  cases first : a.present? i with
  | some v =>
    obtain ⟨w, fits, there, hw, own, side, clear⟩ :=
      pair_chosen pair up ws List.mem_cons_self first (first?_cons first [b])
    refine .inr ⟨v, w, fits, there, hw, (first?_cons first _).trans own, side, ?_, clear⟩
    rw [clear_cons first, stages, List.forall_mem_cons, DType.null_common]
    have later : stages (a.dtype.common b.dtype) ws = stages d.dtype ws := by
      rw [pair.dtype, commonFrom, List.foldl_cons, DType.null_common]
      rfl
    rw [later]
    exact and_iff_right (not_blurs_dtype first t)
  | none =>
    have skipped : Skipped i [a] := List.forall_mem_singleton.2 first
    cases second : b.present? i with
    | some v =>
      have alone : first? d.dtype [a, b] i = (b.cast d.dtype).present? i :=
        (first?_of_skipped skipped [b]).trans (first?_cons second [])
      obtain ⟨w, fits, there, hw, own, side, clear⟩ :=
        pair_chosen pair up ws (List.mem_cons_of_mem a List.mem_cons_self) second alone
      refine .inr ⟨v, w, fits, there, hw, ?_, side, ?_, clear⟩
      · exact (first?_of_skipped skipped _).trans ((first?_cons second ws).trans own)
      · rw [pair.dtype]
        exact (clear_of_skipped skipped _).trans (clear_cons second ws)
    | none =>
      have both : Skipped i [a, b] := List.forall_mem_cons.2 ⟨first, List.forall_mem_singleton.2 second⟩
      have null : Skipped i [d] := skipped_iff.2 (List.forall_mem_singleton.2 ((pair.null i).2 (skipped_iff.1 both)))
      refine .inl ⟨(first?_of_skipped both ws).trans (first?_of_skipped null ws).symm, ?_⟩
      have flat := clear_of_skipped both (t := t) (s := .null) ws
      have side := clear_of_skipped null (t := t) (s := .null) ws
      rw [commonFrom_eq, ← pair.dtype] at flat
      exact flat.trans side.symm

theorem choose_coalesces (hh : a.height = b.height) (short : a.height ≤ Frame.maxRows) :
    ∃ c, a.choose b (!a.isNull ·) = .ok c ∧ c.height = a.height ∧ Coalesces [a, b] c := by
  obtain ⟨c, hc, dtype, height, reads⟩ := choose_spec hh short (!a.isNull ·)
  have common : c.dtype = commonFrom .null [a, b] := by
    rw [dtype, commonFrom, List.foldl_cons, DType.null_common]
    rfl
  have below : ∀ d ∈ [a, b], d.dtype.Below c.dtype := fun d hd => common ▸ dtype_below_commonFrom .null hd
  have first (i : Nat) : c.present? i = first? c.dtype [a, b] i := by
    rw [first?_pair (below b (by simp)), present?, reads, ← dtype, present?]
    split
    · rfl
    next out =>
      have height : (if !a.isNull i then a else b).height = a.height := by
        split
        · rfl
        · exact hh.symm
      rw [reads_eq_none ((height_cast _ c.dtype).trans height ▸ Nat.le_of_not_lt out)]
  refine ⟨c, hc, height, common, fun i => ?_, fun i => iff_of_true (first i) (common ▸ clear_pair)⟩
  rw [isNull_iff, first, first?_eq_none_iff below, skipped_iff]

theorem Coalesces.cons {d : Column} (pair : Coalesces [a, b] d) (rest : Coalesces (d :: cs) c) :
    Coalesces (a :: b :: cs) c := by
  have below : d.dtype.Below c.dtype := by
    rw [rest.dtype]
    exact dtype_below_commonFrom .null List.mem_cons_self
  refine ⟨?_, fun i => ?_, fun i => ?_⟩
  · rw [rest.dtype, ← List.nil_append (d :: cs), commonFrom_grouped pair.dtype]
    rfl
  · rw [rest.null, List.forall_mem_cons, pair.null]
    simp [and_assoc]
  obtain ⟨same, clear⟩ | ⟨v, w, fits, there, hw, flatFirst, sideFirst, flat, side⟩ := pair_cases pair below cs
  · rw [same, clear]
    exact rest.first i
  · have recognised {r : DType} (blurred : w.Blurs r c.dtype) : w = v :=
      Value.eq_of_blurs_convert fits there hw blurred
    have last := rest.first i
    rw [flat, flatFirst]
    rw [side, sideFirst] at last
    constructor
    · intro value
      have unblurred : ∀ r ∈ stages d.dtype cs, ¬ w.Blurs r c.dtype := by
        by_contra blurs
        refine blurs (last.1 ?_)
        push Not at blurs
        obtain ⟨r, -, blurred⟩ := blurs
        rw [value, recognised blurred]
      have same := (last.2 unblurred).symm.trans value
      exact fun r hr blurred => unblurred r hr (blurred.later fits (below_of_mem_stages hr) there hw same)
    · intro clear
      have own := clear d.dtype (mem_stages_start ..)
      rw [last.2 fun r hr blurred => clear r hr (recognised blurred ▸ blurred),
        ← Value.convert_convert fits below there own, hw, Option.bind_some]

end Column

namespace Expr

open Column

variable {f : Frame} {e : Expr} {es : List Expr} {a c : Column} {cs : List Column}

theorem coalesceWith_coalesces (h : List.Forall₂ (fun e c => e.eval f = .ok c) es cs)
    (heights : ∀ c ∈ cs, c.height = a.height) (short : a.height ≤ Frame.maxRows) :
    ∃ c, coalesceWith f a es = .ok c ∧ c.height = a.height ∧ Coalesces (a :: cs) c := by
  induction h generalizing a with
  | nil => exact ⟨a, by rw [coalesceWith], rfl, coalesces_single a⟩
  | @cons e b es cs he hes ih =>
    obtain ⟨height, heights⟩ := List.forall_mem_cons.1 heights
    obtain ⟨d, hd, heightD, pair⟩ := choose_coalesces height.symm short
    obtain ⟨c, hc, heightC, rest⟩ := ih (a := d) (fun c hc => (heights c hc).trans heightD.symm) (heightD ▸ short)
    refine ⟨c, ?_, heightC.trans heightD, ?_⟩
    · rw [coalesceWith, he]
      change (do coalesceWith f (← a.choose b (!a.isNull ·)) es) = _
      rw [hd]
      exact hc
    · exact pair.cons rest

theorem height_eval (hf : f.Capped) (h : e.eval f = .ok c) : c.height = f.height := by
  have typed : Coincides (Has f.height) (e.eval f) (e.typeOf f.schema) := eval_typed hf e
  rw [h] at typed
  generalize e.typeOf f.schema = t at typed
  cases typed with
  | ok has => exact has.1

theorem coalesce_coalesces (hf : f.Capped) (given : es.mapM (·.eval f) = .ok cs) (nonempty : es ≠ []) :
    ∃ c, (coalesce es).eval f = .ok c ∧ c.height = f.height ∧ Coalesces cs c := by
  cases mapM_eq_ok.1 given with
  | nil => exact absurd rfl nonempty
  | @cons e a es cs he hes =>
    have height := height_eval hf he
    obtain ⟨c, hc, heightC, rest⟩ := coalesceWith_coalesces hes (fun d hd => by
      obtain ⟨x, -, hx⟩ := exists_left hes d hd
      exact (height_eval hf hx).trans height.symm) (height ▸ hf.short)
    refine ⟨c, ?_, heightC.trans height, rest⟩
    rw [eval, he]
    exact hc

/-- Over a frame of no more rows than allowed, expressions that give columns give their first values that are not
null, in their common type. To put some of them together before makes no difference to the values, and none to the
type. -/
theorem coalesce_first (hf : f.Capped) (given : es.mapM (·.eval f) = .ok cs) (nonempty : es ≠ []) :
    ∃ c, (coalesce es).eval f = .ok c ∧ c.height = f.height ∧ Coalesces cs c ∧
      ∀ as bs xs, es = as ++ bs ++ xs → bs ≠ [] →
        ∃ ds d, bs.mapM (·.eval f) = .ok ds ∧ (coalesce (as ++ coalesce bs :: xs)).eval f = .ok d ∧
          d.height = f.height ∧ d.dtype = c.dtype ∧ (∀ i, d.isNull i = c.isNull i) ∧
          ∀ i, Clear c.dtype i .null cs →
            ((∀ u ∈ cs.take as.length, u.isNull i) → Clear c.dtype i .null ds) → d.present? i = c.present? i := by
  obtain ⟨c, hc, height, flat⟩ := coalesce_coalesces hf given nonempty
  refine ⟨c, hc, height, flat, fun as bs xs parts inner => ?_⟩
  subst parts
  rw [List.mapM_append, List.mapM_append] at given
  obtain ⟨_, front, given⟩ := bind_eq_ok.1 given
  obtain ⟨us, hus, front⟩ := bind_eq_ok.1 front
  obtain ⟨ds, hds, front⟩ := bind_eq_ok.1 front
  obtain rfl := pure_eq_ok.1 front
  obtain ⟨ws, hws, given⟩ := bind_eq_ok.1 given
  obtain rfl := pure_eq_ok.1 given
  obtain ⟨b, hb, -, group⟩ := coalesce_coalesces hf hds inner
  have nested : (as ++ coalesce bs :: xs).mapM (·.eval f) = .ok (us ++ b :: ws) := by
    rw [List.mapM_append, List.mapM_cons, hus, hb, hws]
    rfl
  obtain ⟨d, hd, heightD, outer⟩ := coalesce_coalesces hf nested (List.append_ne_nil_of_right_ne_nil as nofun)
  obtain ⟨dtype, null, first⟩ := group.grouped outer
  have same : d.dtype = c.dtype := dtype.trans flat.dtype.symm
  refine ⟨ds, d, hds, hd, heightD, same, fun i => ?_, fun i clear alone => ?_⟩
  · rw [Bool.eq_iff_iff, null, flat.null]
  · have length : us.length = as.length := (mapM_eq_ok.1 hus).length_eq.symm
    rw [List.append_assoc, List.take_left' length, ← skipped_iff] at alone
    rw [(flat.first i).2 clear, first i (same ▸ clear) (same ▸ alone), same]

def counted : Frame :=
  ⟨[⟨"count", .int32 #[some 1, none, none]⟩, ⟨"measure", .float64 #[some Double.one, some Double.nan, none]⟩,
    ⟨"note", .string #[some "x", some "y", none]⟩], 3⟩

theorem coalesce_first_counted :
    ∃ c d, (coalesce [column "count", column "measure", column "note"]).eval counted = .ok c ∧
      (coalesce [column "count", coalesce [column "measure", column "note"]]).eval counted = .ok d ∧
      c.dtype = .string ∧ c.present? 0 = some (.string "1") ∧ c.present? 1 = some (.string "y") ∧ c.isNull 2 ∧
      ∀ i < 3, d.present? i = c.present? i := by
  have capped : counted.Capped := ⟨⟨by decide, by decide, fun _ => by decide⟩, by decide⟩
  have given : [column "count", column "measure", column "note"].mapM (·.eval counted) = .ok counted.columns := rfl
  obtain ⟨c, hc, -, ⟨dtype, null, first⟩, regrouped⟩ := coalesce_first capped given nofun
  obtain ⟨ds, d, hds, hd, -, -, -, same⟩ := regrouped [column "count"] [column "measure", column "note"] [] rfl nofun
  have type : c.dtype = .string := dtype
  rw [type] at first same
  cases hds
  have clear : ∀ i < 3, Clear .string i .null counted.columns ∧
      ((∀ u ∈ counted.columns.take 1, u.isNull i) → Clear .string i .null (counted.columns.drop 1))
    | 0, _ => ⟨fun _ _ blurred => blurred.2, fun skipped => absurd (skipped _ List.mem_cons_self) (by decide)⟩
    | 1, _ => ⟨fun _ _ blurred => blurred.2, fun _ _ _ blurred => blurred.2⟩
    | 2, _ => ⟨trivial, fun _ => trivial⟩
  refine ⟨c, d, hc, hd, type, ?_, ?_, ?_, fun i hi => same i (clear i hi).1 (clear i hi).2⟩
  · rw [(first 0).2 (clear 0 (by decide)).1]
    decide
  · rw [(first 1).2 (clear 1 (by decide)).1]
    decide
  · exact (null 2).2 (by decide)

def flagged : Frame :=
  ⟨[⟨"flag", .bool #[some true]⟩, ⟨"count", .int64 #[some 5]⟩, ⟨"note", .string #[some "x"]⟩], 1⟩

/-- On the way to a text the truth value becomes a number, unless the number and the text are put together before. -/
theorem coalesce_flagAsNumber :
    let value (e : Expr) := (e.eval flagged).toOption.map fun c => (c.dtype, c.present? 0)
    [column "flag", column "count", column "note"].mapM (·.eval flagged) = .ok flagged.columns ∧
      value (coalesce [column "flag", column "count", column "note"]) = some (.string, some (.string "1")) ∧
      value (coalesce [column "flag", coalesce [column "count", column "note"]]) =
        some (.string, some (.string "true")) ∧
      first? .string flagged.columns 0 = some (.string "true") :=
  ⟨rfl, by decide +kernel, by decide +kernel, by decide⟩

end Expr

end Columnar
