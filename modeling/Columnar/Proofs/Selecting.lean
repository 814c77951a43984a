import Columnar.Proofs.Serving

namespace Columnar

theorem Column.Draws.alike {rows : List Nat} {c c' d d' : Column} (hc : Draws rows c c')
    (hd : Draws rows d d') (h : c.Alike d) : c'.Alike d' :=
  ⟨by rw [hc.dtype, hd.dtype, h.dtype], by rw [hc.height, hd.height],
    fun i => by rw [hc.reads, hd.reads, funext h.reads], hc.sound h.sound.1, hd.sound h.sound.2⟩

namespace Frame

structure Selects (rows : List Nat) (f f' : Frame) : Prop where
  height : f'.height = rows.length
  columns : List.Forall₂ (fun c d => d.name = c.name ∧ c.Draws rows d) f.columns f'.columns

namespace Selects

variable {rows : List Nat} {f f' g g' : Frame}

theorem names (h : Selects rows f f') : f'.names = f.names :=
  (map_eq_map h.columns fun _ _ h => h.1.symm).symm

theorem schema (h : Selects rows f f') : f'.schema = f.schema :=
  (map_eq_map h.columns fun _ _ h => by rw [h.1, h.2.dtype]).symm

theorem row (h : Selects rows f f') {i j : Nat} (hij : rows[i]? = some j) : f'.row i = f.row j := by
  refine (map_eq_map h.columns fun c d hd => ?_).symm
  rw [Column.scalar_eq, Column.scalar_eq, hd.2.reads, hij, Option.bind_some]

theorem find? {cs ds : List Column} (h : List.Forall₂ (fun c d => d.name = c.name ∧ c.Draws rows d) cs ds)
    (name : String) :
    Option.Rel (fun c d => c.Draws rows d) (cs.find? (·.name == name)) (ds.find? (·.name == name)) := by
  induction h with
  | nil => exact .none
  | @cons c d _ _ hcd _ ih =>
    rw [List.find?_cons, List.find?_cons, hcd.1]
    split
    · exact .some hcd.2
    · exact ih

theorem column? (h : Selects rows f f') (name : String) :
    Option.Rel (fun c d => c.Draws rows d) (f.column? name) (f'.column? name) := find? h.columns name

theorem found (h : Selects rows f f') (hf : f.Rectangular) (name : String) :
    Agrees (Column.Local f.height rows) (f.column name) (f'.column name) := by
  have picks := h.column? name
  unfold Frame.column
  cases hc : f.column? name with
  | none =>
    rw [hc] at picks
    cases hd : f'.column? name with
    | none => exact .error _ _
    | some d =>
      rw [hd] at picks
      cases picks
  | some c =>
    rw [hc] at picks
    cases hd : f'.column? name with
    | none =>
      rw [hd] at picks
      cases picks
    | some d =>
      rw [hd] at picks
      cases picks with
      | some hcd => exact .ok ⟨hf.height hc, hcd.toPicks⟩

theorem rectangular (h : Selects rows f f') (hf : f.Rectangular)
    (limit : f.columns ≠ [] → rows.length ≤ maxRows) : f'.Rectangular where
  names := h.names ▸ hf.names
  heights c hc := by
    obtain ⟨_, _, -, hdraws⟩ := exists_left h.columns c hc
    rw [hdraws.height, h.height]
  limit some := by
    rw [h.height]
    refine limit fun none => some ?_
    have columns := h.columns
    rwa [none, List.forall₂_nil_left_iff] at columns

theorem sane (h : Selects rows f f') (hf : f.Sane) (fewer : rows.length ≤ f.height) : f'.Sane where
  toRectangular := h.rectangular hf.toRectangular fun nonempty => Nat.le_trans fewer (hf.limit nonempty)
  short := h.height ▸ Nat.le_trans fewer hf.short
  sound c hc := by
    obtain ⟨d, hd, -, hdraws⟩ := exists_left h.columns c hc
    exact hdraws.sound (hf.sound d hd)

theorem offers {names : List String} (hf : Selects rows f f') (hg : Selects rows g g')
    (h : Offers names f g) : Offers names f' g' := by
  refine ⟨hf.height.trans hg.height.symm, fun n hn c' hc' => ?_⟩
  have left := hf.column? n
  have right := hg.column? n
  rw [hc'] at left
  cases hc : f.column? n with
  | none => rw [hc] at left; cases left
  | some c =>
    rw [hc] at left
    obtain ⟨d, hd, hcd⟩ := h.columns n hn c hc
    rw [hd] at right
    cases left with
    | some hcc' =>
      cases hd' : g'.column? n with
      | none => rw [hd'] at right; cases right
      | some d' =>
        rw [hd'] at right
        cases right with
        | some hdd' => exact ⟨d', rfl, hcc'.alike hdd' hcd⟩

theorem alike (hf : Selects rows f f') (hg : Selects rows g g') (h : f.Alike g) : f'.Alike g' := by
  refine ⟨hf.height.trans hg.height.symm, ?_⟩
  have columns := h.columns
  have left := hf.columns
  have right := hg.columns
  generalize f.columns = cs at columns left
  generalize g.columns = ds at columns right
  generalize f'.columns = cs' at left
  generalize g'.columns = ds' at right
  induction columns generalizing cs' ds' with
  | nil =>
    rw [List.forall₂_nil_left_iff] at left right
    rw [left, right]
    exact .nil
  | cons hcd _ ih =>
    cases left with
    | cons hc left =>
      cases right with
      | cons hd right =>
        exact .cons ⟨by rw [hc.1, hd.1, hcd.1], hc.2.alike hd.2 hcd.2⟩ (ih _ left _ right)

theorem serves {required : Option (List String)} (hf : Selects rows f f') (hg : Selects rows g g')
    (h : Serves required f g) : Serves required f' g' := by
  cases required with
  | none => exact hf.alike hg h
  | some names => exact hf.offers hg h

end Selects

theorem ofColumnsAt_eq_ok {n : Nat} {cs : List Column} {f : Frame} :
    ofColumnsAt n cs = .ok f ↔ ∃ g, ofColumns cs = .ok g ∧ f = ⟨cs, n⟩ := by
  rw [ofColumnsAt, map_eq_ok]
  constructor
  · rintro ⟨g, hg, rfl⟩
    obtain ⟨rfl, -⟩ := ofColumns_eq_ok.1 hg
    exact ⟨_, hg, rfl⟩
  · rintro ⟨g, hg, rfl⟩
    obtain ⟨rfl, -⟩ := ofColumns_eq_ok.1 hg
    exact ⟨_, hg, rfl⟩

theorem ofColumnsAt_ok {f : Frame} (hf : f.Rectangular) {rows : List Nat}
    (limit : f.columns ≠ [] → rows.length ≤ maxRows) {cs : List Column}
    (h : List.Forall₂ (fun c d => d.name = c.name ∧ c.Draws rows d) f.columns cs) :
    ∃ g, ofColumnsAt rows.length cs = .ok g := by
  have built : Frame.Rectangular ⟨cs, rows.length⟩ := Selects.rectangular ⟨rfl, h⟩ hf limit
  obtain ⟨g, hg, -⟩ := ofColumns_ok built.names built.heights built.limit
  exact ⟨_, ofColumnsAt_eq_ok.2 ⟨g, hg, rfl⟩⟩

theorem draws_columns (f : Frame) (rows : List Nat) :
    List.Forall₂ (fun c d => d.name = c.name ∧ c.Draws rows d) f.columns
      (f.columns.map (·.take (rows.map some).toArray)) := by
  rw [List.forall₂_map_right_iff]
  exact List.forall₂_same.2 fun c _ => ⟨rfl, Column.draws_gather c rows⟩

theorem selects_take {f f' : Frame} {rows : List Nat} (h : f.take (rows.map some).toArray = .ok f') :
    Selects rows f f' := by
  obtain ⟨-, -, rfl⟩ := ofColumnsAt_eq_ok.1 h
  exact ⟨by simp, draws_columns f rows⟩

theorem take_ok {f : Frame} (hf : f.Rectangular) {rows : List Nat}
    (limit : f.columns ≠ [] → rows.length ≤ maxRows) : ∃ f', f.take (rows.map some).toArray = .ok f' := by
  have size : (rows.map some).toArray.size = rows.length := by simp
  rw [take, size]
  exact ofColumnsAt_ok hf limit (draws_columns f rows)

theorem filterColumns_draws {f : Frame} {m : Mask} {cs : List Column}
    (h : f.columns.mapM (·.filter m) = .ok cs) :
    List.Forall₂ (fun c d => d.name = c.name ∧ c.Draws m.kept d) f.columns cs :=
  (mapM_eq_ok.1 h).imp fun _ _ hd => ⟨Column.name_filter hd, (Column.draws_filter hd).2⟩

theorem selects_filter {f f' : Frame} {m : Mask} (h : f.filter m = .ok f') :
    m.size = f.height ∧ Selects m.kept f f' := by
  unfold filter at h
  by_cases size : m.size = f.height
  · simp only [size, ne_eq, not_true_eq_false, ↓reduceIte] at h
    obtain ⟨cs, hcs, h⟩ := bind_eq_ok.1 h
    obtain ⟨-, -, rfl⟩ := ofColumnsAt_eq_ok.1 h
    exact ⟨size, m.count_eq, filterColumns_draws hcs⟩
  · simp only [size, ne_eq, not_false_eq_true, ↓reduceIte] at h
    cases h

theorem filter_ok {f : Frame} (hf : f.Rectangular) {m : Mask} (h : m.size = f.height) :
    ∃ f', f.filter m = .ok f' := by
  obtain ⟨cs, hcs⟩ := mapM_ok fun c hc => Column.filter_ok (h.trans (hf.heights c hc).symm)
  obtain ⟨f', hf'⟩ := ofColumnsAt_ok hf
    (fun nonempty => Nat.le_trans (h ▸ m.length_kept_le) (hf.limit nonempty)) (filterColumns_draws hcs)
  refine ⟨f', ?_⟩
  rw [filter, m.count_eq]
  simp only [h, ne_eq, not_true_eq_false, ↓reduceIte, hcs]
  exact hf'

theorem selects_slice {f : Frame} (hf : f.Rectangular) (offset n : Nat) :
    Selects (List.range' (min offset f.height) (min n (f.height - min offset f.height))) f (f.slice offset n) := by
  refine ⟨by simp [slice], ?_⟩
  simp only [slice]
  rw [List.forall₂_map_right_iff]
  refine List.forall₂_same.2 fun c hc => ⟨rfl, ?_⟩
  have picks := Column.draws_slice c (min offset f.height) (min n (f.height - min offset f.height))
  rw [hf.heights c hc] at picks
  rwa [Nat.min_eq_left (Nat.min_le_right _ _), Nat.min_eq_left (Nat.min_le_right _ _)] at picks

theorem selects_range {f : Frame} (hf : f.Rectangular) : Selects (List.range f.height) f f :=
  ⟨List.length_range.symm, List.forall₂_same.2 fun c hc => ⟨rfl, (Column.local_self (hf.heights c hc)).picks, id⟩⟩

theorem height_slice (f : Frame) (offset n : Nat) :
    (List.range' (min offset f.height) (min n (f.height - min offset f.height))).length ≤ f.height := by
  rw [List.length_range']
  omega

theorem find?_setColumn (c : Column) (cs : List Column) (name : String) :
    (setColumn c cs).find? (·.name == name) =
      if c.name = name then some c else cs.find? (·.name == name) := by
  induction cs with
  | nil => by_cases h : c.name = name <;> simp [setColumn, h]
  | cons d ds ih =>
    rw [setColumn]
    by_cases hd : d.name = c.name
    · rw [if_pos hd]
      by_cases h : c.name = name
      · simp [h]
      · simp [h, hd]
    · rw [if_neg hd, List.find?_cons, List.find?_cons, ih]
      by_cases h : c.name = name
      · simp [h, beq_false_of_ne (h ▸ hd)]
      · simp [h]

theorem names_setColumn (c : Column) (cs : List Column) :
    (setColumn c cs).map (·.name) =
      if (cs.map (·.name)).contains c.name then cs.map (·.name) else cs.map (·.name) ++ [c.name] := by
  induction cs with
  | nil => simp [setColumn]
  | cons d ds ih =>
    rw [setColumn]
    by_cases hd : d.name = c.name
    · simp [hd]
    · rw [if_neg hd, List.map_cons, ih, List.map_cons, List.contains_cons,
        beq_false_of_ne (Ne.symm hd), Bool.false_or]
      split <;> rfl

theorem mem_setColumn {c d : Column} {cs : List Column} (h : d ∈ setColumn c cs) : d = c ∨ d ∈ cs := by
  induction cs with
  | nil => exact .inl (List.mem_singleton.1 h)
  | cons e es ih =>
    rw [setColumn] at h
    split at h
    · exact (List.mem_cons.1 h).imp_right (List.mem_cons_of_mem e)
    · rcases List.mem_cons.1 h with rfl | h
      · exact .inr List.mem_cons_self
      · exact (ih h).imp_right (List.mem_cons_of_mem e)

theorem setColumn_ne_nil (c : Column) (cs : List Column) : setColumn c cs ≠ [] := by
  cases cs with
  | nil => nofun
  | cons d ds =>
    rw [setColumn]
    split <;> nofun

theorem setColumn_alike {c d : Column} (name : c.name = d.name) (h : c.Alike d) {cs ds : List Column}
    (hs : List.Forall₂ (fun c d => c.name = d.name ∧ c.Alike d) cs ds) :
    List.Forall₂ (fun c d => c.name = d.name ∧ c.Alike d) (setColumn c cs) (setColumn d ds) := by
  induction hs with
  | nil => exact .cons ⟨name, h⟩ .nil
  | cons hcd hs ih =>
    rw [setColumn, setColumn, ← hcd.1, ← name]
    split
    · exact .cons ⟨name, h⟩ hs
    · exact .cons hcd ih

theorem withColumn_eq_ok {f f' : Frame} (hf : f.Rectangular) {c : Column} (hc : c.height = f.height) :
    f.withColumn c = .ok f' ↔ f' = ⟨setColumn c f.columns, f.height⟩ ∧ f.height ≤ maxRows := by
  have nonempty := setColumn_ne_nil c f.columns
  have heights : ∀ d ∈ setColumn c f.columns, d.height = f.height := fun d hd => by
    rcases mem_setColumn hd with rfl | hd
    · exact hc
    · exact hf.heights d hd
  have height : Column.heightOf (setColumn c f.columns) = f.height := by
    obtain ⟨d, ds, h⟩ := List.exists_cons_of_ne_nil nonempty
    rw [h]
    exact heights d (h ▸ List.mem_cons_self)
  have names : ((setColumn c f.columns).map (·.name)).Nodup := by
    rw [names_setColumn]
    split
    · exact hf.names
    next fresh =>
      refine List.nodup_append.2 ⟨hf.names, List.nodup_singleton _, fun a ha b hb hab => fresh ?_⟩
      simpa [List.mem_singleton.1 hb ▸ hab] using ha
  unfold withColumn
  rw [if_neg (by simp [hc]), ofColumns_eq_ok, height]
  exact ⟨fun ⟨hf', _, _, limit⟩ => ⟨hf', limit⟩, fun ⟨hf', limit⟩ => ⟨hf', names, heights, limit⟩⟩

theorem rectangular_withColumn {f f' : Frame} {c : Column} (h : f.withColumn c = .ok f') :
    f'.Rectangular := by
  unfold withColumn at h
  split at h
  · cases h
  · exact rectangular_ofColumns h

theorem withColumn_sane {f f' : Frame} (hf : f.Sane) {c : Column} (hc : c.height = f.height)
    (sound : c.Sound) (h : f.withColumn c = .ok f') : f'.Sane := by
  obtain ⟨rfl, -⟩ := (withColumn_eq_ok hf.toRectangular hc).1 h
  refine ⟨⟨rectangular_withColumn h, hf.short⟩, fun d hd => ?_⟩
  rcases mem_setColumn hd with rfl | hd
  · exact sound
  · exact hf.sound d hd

theorem withColumn_spec {f f' : Frame} (hf : f.Sane) {c : Column} (hc : c.height = f.height)
    (sound : c.Sound) (h : f.withColumn c = .ok f') :
    f'.Sane ∧ f'.height = f.height ∧ f.height ≤ maxRows ∧
      ∀ n, f'.column? n = if c.name = n then some c else f.column? n := by
  obtain ⟨rfl, limit⟩ := (withColumn_eq_ok hf.toRectangular hc).1 h
  exact ⟨withColumn_sane hf hc sound h, rfl, limit, find?_setColumn c f.columns⟩

theorem withColumn_serves {required : Option (List String)} {f f' g : Frame} (hf : f.Rectangular)
    (hg : g.Rectangular) {c d : Column} (name : c.name = d.name) (hc : c.height = f.height)
    (hcd : c.Alike d) (h : Serves (required.map fun names => names.filter (· != c.name)) f g)
    (hf' : f.withColumn c = .ok f') : ∃ g', g.withColumn d = .ok g' ∧ Serves required f' g' := by
  obtain ⟨rfl, limit⟩ := (withColumn_eq_ok hf hc).1 hf'
  have hd : d.height = g.height := hcd.height.symm.trans (hc.trans h.height)
  refine ⟨_, (withColumn_eq_ok hg hd).2 ⟨rfl, h.height ▸ limit⟩, ?_⟩
  cases required with
  | none =>
    have all : f.Alike g := h
    exact ⟨all.height, setColumn_alike name hcd all.columns⟩
  | some names =>
    have offered : Offers (names.filter (· != c.name)) f g := h
    refine ⟨offered.height, fun n hn a ha => ?_⟩
    rw [Frame.column?, find?_setColumn] at ha ⊢
    rw [← name]
    split at ha
    next hname =>
      cases ha
      exact ⟨d, by rw [if_pos hname], hcd⟩
    next hname =>
      rw [if_neg hname]
      exact offered.columns n (List.mem_filter.2 ⟨hn, by simpa using Ne.symm hname⟩) a ha

end Frame

end Columnar
