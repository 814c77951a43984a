import Columnar.Frame
import Columnar.Proofs.Outcome
import Columnar.Proofs.Rows

namespace Columnar.Frame

/-- What the construction of a frame checks. -/
structure Rectangular (f : Frame) : Prop where
  names : f.names.Nodup
  heights : ∀ c ∈ f.columns, c.height = f.height
  limit : f.columns ≠ [] → f.height ≤ maxRows

/-- A frame as it is built that keeps to the greatest height also if it has no columns. -/
structure Capped (f : Frame) : Prop extends Rectangular f where
  short : f.height ≤ maxRows

theorem Rectangular.capped {f : Frame} (hf : f.Rectangular) (nonempty : f.columns ≠ []) : f.Capped :=
  ⟨hf, hf.limit nonempty⟩

theorem checkColumns_eq_ok {n : Nat} {seen : List String} {cs : List Column} :
    checkColumns n seen cs = .ok () ↔
      (cs.map (·.name)).Nodup ∧ (∀ c ∈ cs, c.name ∉ seen) ∧ ∀ c ∈ cs, c.height = n := by
  induction cs generalizing seen with
  | nil => simp [checkColumns]
  | cons c cs ih =>
    rw [checkColumns, List.map_cons, List.nodup_cons, List.forall_mem_cons, List.forall_mem_cons]
    by_cases hs : c.name ∈ seen
    · simp [hs]
    · by_cases hn : c.height = n
      · simp only [hs, hn, ↓reduceIte, ne_eq, not_true_eq_false, ih, List.mem_cons, not_or,
          not_false_eq_true, true_and, List.mem_map, not_exists, not_and]
        constructor
        · rintro ⟨nodup, fresh, heights⟩
          exact ⟨⟨fun d hd => (fresh d hd).1, nodup⟩, fun d hd => (fresh d hd).2, heights⟩
        · rintro ⟨⟨ne, nodup⟩, fresh, heights⟩
          exact ⟨nodup, fun d hd => ⟨ne d hd, fresh d hd⟩, heights⟩
      · simp [hs, hn]

theorem ofColumns_eq_ok {cs : List Column} {f : Frame} :
    ofColumns cs = .ok f ↔ f = ⟨cs, Column.heightOf cs⟩ ∧ (cs.map (·.name)).Nodup ∧
      (∀ c ∈ cs, c.height = Column.heightOf cs) ∧ Column.heightOf cs ≤ maxRows := by
  unfold ofColumns
  by_cases hn : maxRows < Column.heightOf cs
  · simp only [hn, ↓reduceIte]
    exact ⟨nofun, fun h => absurd hn (Nat.not_lt.2 h.2.2.2)⟩
  · simp only [hn, ↓reduceIte, bind_eq_ok, pure_eq_ok]
    constructor
    · rintro ⟨⟨⟩, h, rfl⟩
      obtain ⟨names, -, heights⟩ := checkColumns_eq_ok.1 h
      exact ⟨rfl, names, heights, Nat.not_lt.1 hn⟩
    · rintro ⟨rfl, names, heights, -⟩
      exact ⟨(), checkColumns_eq_ok.2 ⟨names, fun _ _ => List.not_mem_nil, heights⟩, rfl⟩

theorem ofColumns_ok {cs : List Column} {n : Nat} (names : (cs.map (·.name)).Nodup)
    (heights : ∀ c ∈ cs, c.height = n) (limit : cs ≠ [] → n ≤ maxRows) :
    ∃ f, ofColumns cs = .ok f ∧ f.columns = cs ∧ (cs ≠ [] → f.height = n) := by
  have height (nonempty : cs ≠ []) : Column.heightOf cs = n := Column.heightOf_eq nonempty heights
  refine ⟨⟨cs, Column.heightOf cs⟩, ofColumns_eq_ok.2 ⟨rfl, names, fun c hc => ?_, ?_⟩, rfl, height⟩
  · rw [heights c hc, height (List.ne_nil_of_mem hc)]
  · by_cases h : cs = []
    · rw [h]
      exact Nat.zero_le _
    · rw [height h]
      exact limit h

theorem rectangular_ofColumns {cs : List Column} {f : Frame} (h : ofColumns cs = .ok f) :
    f.Rectangular := by
  obtain ⟨rfl, names, heights, limit⟩ := ofColumns_eq_ok.1 h
  exact ⟨names, heights, fun _ => limit⟩

theorem capped_ofColumns {cs : List Column} {f : Frame} (h : ofColumns cs = .ok f) : f.Capped := by
  obtain ⟨rfl, -, -, limit⟩ := ofColumns_eq_ok.1 h
  exact ⟨rectangular_ofColumns h, limit⟩

theorem column_eq_ok {f : Frame} {name : String} {c : Column} :
    f.column name = .ok c ↔ f.column? name = some c := by
  unfold column
  cases f.column? name <;> simp

theorem name_of_column? {f : Frame} {name : String} {c : Column} (h : f.column? name = some c) :
    c.name = name := by
  simpa using List.find?_some h

theorem names_mapM_column {f : Frame} {ns : List String} {cs : List Column}
    (h : ns.mapM f.column = .ok cs) : cs.map (·.name) = ns := by
  rw [← List.map_id ns]
  exact (map_eq_map (mapM_eq_ok.1 h) fun n c hc => (name_of_column? (column_eq_ok.1 hc)).symm).symm

theorem mem_of_column? {f : Frame} {name : String} {c : Column} (h : f.column? name = some c) :
    c ∈ f.columns := List.mem_of_find?_eq_some h

theorem mem_names {f : Frame} {name : String} : name ∈ f.names ↔ ∃ c, f.column? name = some c := by
  simp only [names, List.mem_map, column?, ← Option.isSome_iff_exists, List.find?_isSome,
    beq_iff_eq]

theorem Rectangular.height {f : Frame} (hf : f.Rectangular) {name : String} {c : Column}
    (h : f.column? name = some c) : c.height = f.height := hf.heights c (mem_of_column? h)

theorem Rectangular.column? {f : Frame} (hf : f.Rectangular) {c : Column} (h : c ∈ f.columns) :
    f.column? c.name = some c := by
  obtain ⟨d, hd⟩ := mem_names.1 (List.mem_map_of_mem (f := (·.name)) h)
  rw [hd, List.inj_on_of_nodup_map hf.names (mem_of_column? hd) h (name_of_column? hd)]

end Columnar.Frame
