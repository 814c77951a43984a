import Columnar.Proofs.Evaluation

namespace Columnar.Frame

/-- A frame of the greatest height or less, with no text twice in a dictionary. -/
structure Sane (f : Frame) : Prop extends Capped f where
  sound : ∀ c ∈ f.columns, c.Sound

structure Alike (f g : Frame) : Prop where
  height : f.height = g.height
  columns : List.Forall₂ (fun c d => c.name = d.name ∧ c.Alike d) f.columns g.columns

/-- The second frame has those of the named columns that the first one has, with the same rows. -/
structure Offers (names : List String) (f g : Frame) : Prop where
  height : f.height = g.height
  columns : ∀ n ∈ names, ∀ c, f.column? n = some c → ∃ d, g.column? n = some d ∧ c.Alike d

/-- What a frame has to be in order to stand for another one where these columns are needed. -/
def Serves : Option (List String) → Frame → Frame → Prop
  | none => Alike
  | some names => Offers names

theorem Sane.soundOf {f : Frame} (hf : f.Sane) {name : String} {c : Column}
    (h : f.column? name = some c) : c.Sound := hf.sound c (mem_of_column? h)

theorem sane_of_plain {f : Frame} (names : f.names.Nodup)
    (columns : ∀ c ∈ f.columns, c.height = f.height ∧ c.dtype ≠ .categorical) (limit : f.height ≤ maxRows) :
    f.Sane :=
  ⟨⟨⟨names, fun c hc => (columns c hc).1, fun _ => limit⟩, limit⟩, fun c hc => Column.sound_of_dtype (columns c hc).2⟩

namespace Alike

variable {f g h : Frame}

theorem refl (hf : f.Sane) : f.Alike f :=
  ⟨rfl, List.forall₂_same.2 fun c hc => ⟨rfl, .refl (hf.sound c hc)⟩⟩

theorem symm (hfg : f.Alike g) : g.Alike f :=
  ⟨hfg.height.symm, (hfg.columns.imp fun _ _ h => ⟨h.1.symm, h.2.symm⟩ : List.Forall₂
    (fun c d => d.name = c.name ∧ d.Alike c) f.columns g.columns).flip⟩

theorem names (hfg : f.Alike g) : f.names = g.names := map_eq_map hfg.columns fun _ _ h => h.1

theorem schema (hfg : f.Alike g) : f.schema = g.schema :=
  map_eq_map hfg.columns fun _ _ h => Prod.ext h.1 h.2.dtype

theorem row (hfg : f.Alike g) (i : Nat) : f.row i = g.row i :=
  map_eq_map hfg.columns fun _ _ h => h.2.scalar i

theorem trans (hfg : f.Alike g) (hgh : g.Alike h) : f.Alike h := by
  refine ⟨hfg.height.trans hgh.height, ?_⟩
  have fg := hfg.columns
  have gh := hgh.columns
  generalize f.columns = bs at fg
  generalize g.columns = cs at fg gh
  generalize h.columns = ds at gh
  induction fg generalizing ds with
  | nil => exact gh
  | cons hb _ ih =>
    cases gh with
    | cons hc rest => exact .cons ⟨hb.1.trans hc.1, hb.2.trans hc.2⟩ (ih _ rest)

theorem sane (hfg : f.Alike g) (hg : g.Sane) : f.Sane where
  names := hfg.names ▸ hg.names
  heights c hc := by
    obtain ⟨d, hd, -, hcd⟩ := exists_right hfg.columns c hc
    rw [hcd.height, hg.heights d hd, hfg.height]
  limit _ := hfg.height ▸ hg.short
  short := hfg.height ▸ hg.short
  sound c hc := by
    obtain ⟨_, _, -, hcd⟩ := exists_right hfg.columns c hc
    exact hcd.sound.1

theorem find? {cs ds : List Column} (h : List.Forall₂ (fun c d => c.name = d.name ∧ c.Alike d) cs ds)
    (name : String) : ∀ c, cs.find? (·.name == name) = some c →
      ∃ d, ds.find? (·.name == name) = some d ∧ c.Alike d := by
  induction h with
  | nil => nofun
  | @cons c d _ _ hcd _ ih =>
    intro a ha
    rw [List.find?_cons] at ha ⊢
    rw [← hcd.1]
    split at ha
    next hname =>
      cases ha
      exact ⟨d, rfl, hcd.2⟩
    next hname => exact ih a ha

theorem offers (hfg : f.Alike g) (names : List String) : Offers names f g :=
  ⟨hfg.height, fun n _ => find? hfg.columns n⟩

end Alike

theorem Offers.mono {names names' : List String} {f g : Frame} (h : Offers names f g)
    (sub : ∀ n ∈ names', n ∈ names) : Offers names' f g :=
  ⟨h.height, fun n hn => h.columns n (sub n hn)⟩

namespace Serves

variable {required : Option (List String)} {names : List String} {f g : Frame}

theorem height (h : Serves required f g) : f.height = g.height := by
  cases required with
  | none => exact Alike.height h
  | some _ => exact Offers.height h

theorem offers (h : Serves required f g) (sub : ∀ all, required = some all → ∀ n ∈ names, n ∈ all) :
    Offers names f g := by
  cases required with
  | none => exact Alike.offers h names
  | some all => exact Offers.mono h (sub all rfl)

end Serves

namespace Offers

variable {names : List String} {f g : Frame}

theorem column (h : Offers names f g) {n : String} (hn : n ∈ names) :
    Follows Column.Alike (f.column n) (g.column n) := by
  intro c hc
  obtain ⟨d, hd, hcd⟩ := h.columns n hn c (column_eq_ok.1 hc)
  exact ⟨d, column_eq_ok.2 hd, hcd⟩

theorem named (h : Offers names f g) {n : String} (hn : n ∈ names) (hf : n ∈ f.names) : n ∈ g.names := by
  obtain ⟨c, hc⟩ := Frame.mem_names.1 hf
  obtain ⟨d, hd, -⟩ := h.columns n hn c hc
  exact Frame.mem_names.2 ⟨d, hd⟩

theorem mapM_column (h : Offers names f g) {ns : List String} (hns : ∀ n ∈ ns, n ∈ names) :
    Follows (List.Forall₂ Column.Alike) (ns.mapM f.column) (ns.mapM g.column) :=
  .mapM (List.forall₂_same.2 fun n hn => h.column (hns n hn))

end Offers

end Columnar.Frame

namespace Columnar.Column

theorem bind_range_reads {c : Column} {n : Nat} (hn : c.height = n) (i : Nat) :
    (List.range n)[i]?.bind c.reads = c.reads i := by
  by_cases hi : i < n
  · rw [List.getElem?_range hi, Option.bind_some]
  · rw [List.getElem?_eq_none (by simpa using hi), reads_eq_none (hn ▸ Nat.le_of_not_lt hi)]
    rfl

theorem local_self {c : Column} {n : Nat} (hn : c.height = n) : Local n (List.range n) c c :=
  ⟨hn, rfl, by rw [List.length_range, hn], fun i => (bind_range_reads hn i).symm⟩

theorem Alike.local {c d : Column} (h : c.Alike d) {n : Nat} (hn : c.height = n) :
    Local n (List.range n) c d :=
  ⟨hn, h.dtype.symm, by rw [List.length_range, ← h.height, hn],
    fun i => by rw [bind_range_reads hn, h.reads]⟩

theorem Local.alike {c d : Column} {n : Nat} (h : Local n (List.range n) c d) (sound : c.Sound ∧ d.Sound) :
    c.Alike d :=
  ⟨h.picks.dtype.symm, by rw [h.picks.height, List.length_range, h.height],
    fun i => by rw [h.picks.reads, bind_range_reads h.height], sound⟩

theorem Local.picked {c d c' d' : Column} {n m : Nat} {rows : List Nat} (h : Local n (List.range n) c d)
    (hc : Picks rows c c') (hd : Picks rows d d') (hm : c'.height = m) : Local m (List.range m) c' d' :=
  ⟨hm, by rw [hc.dtype, hd.dtype, h.picks.dtype], by rw [hd.height, ← hc.height, hm, List.length_range], fun i => by
    rw [bind_range_reads hm, hc.reads, hd.reads, funext h.picks.reads, funext (bind_range_reads h.height)]⟩

end Columnar.Column

namespace Columnar.Expr

variable {names : List String} {f g : Frame} {e : Expr}

theorem found_of_eval (hf : f.Rectangular) (h : f.Offers names g) (sub : ∀ n ∈ e.columns, n ∈ names)
    {c : Column} (hc : e.eval f = .ok c) (n : String) (hn : .column n ∈ e.nodes) :
    Agrees (Column.Local f.height (List.range f.height)) (f.column n) (g.column n) := by
  obtain ⟨a, ha⟩ := exists_eval_nodes e c hc _ hn
  rw [eval_column] at ha
  obtain ⟨b, hb, hab⟩ := h.column (sub n (mem_columns.2 hn)) a ha
  rw [ha, hb]
  exact .ok (hab.local (hf.height (Frame.column_eq_ok.1 ha)))

theorem sound_of_eval (hf : f.Sane) {c : Column} (hc : e.eval f = .ok c) : c.Sound :=
  eval_sound e (fun _ _ _ ha => hf.soundOf (Frame.column_eq_ok.1 ha)) c hc

theorem eval_alike (hf : f.Capped) (h : f.Offers names g) (sub : ∀ n ∈ e.columns, n ∈ names) :
    Follows (fun c d => c.height = f.height ∧ c.Alike d) (e.eval f) (e.eval g) := by
  intro c hc
  have along := eval_local (by rw [List.length_range, h.height]) (.all hf.short) e
    (found_of_eval hf.toRectangular h sub hc)
  obtain ⟨d, hd, hcd⟩ := Agrees.follows along c hc
  have both (n : String) (hn : .column n ∈ e.nodes) {a : Column} (ha : f.column n = .ok a) :
      ∃ b, g.column n = .ok b ∧ a.Alike b := h.column (sub n (mem_columns.2 hn)) a ha
  refine ⟨d, hd, hcd.height, hcd.alike ⟨eval_sound e (fun n hn a ha => ?_) c hc, eval_sound e (fun n hn b hb => ?_) d hd⟩⟩
  · obtain ⟨_, -, hab⟩ := both n hn ha
    exact hab.sound.1
  · obtain ⟨a, ha⟩ := exists_eval_nodes e c hc _ hn
    rw [eval_column] at ha
    obtain ⟨b', hb', hab⟩ := both n hn ha
    cases hb.symm.trans hb'
    exact hab.sound.2

end Columnar.Expr
