import Columnar.Proofs.Running
import Columnar.Proofs.Schemas

namespace Columnar

/-- What is promised of a source: it gives frames of no more rows than allowed, no dictionary of which has a text
twice, and its columns are those that it knows of. -/
structure Source.Faithful (s : Source) : Prop where
  capped : ∀ wanted f, s.read wanted = .ok f → f.Capped
  dictionaries : ∀ wanted f, s.read wanted = .ok f → ∀ c ∈ f.columns, c.Sound
  names : ∀ f ns, s.names? = some ns → s.read none = .ok f → f.names = ns

theorem Source.Faithful.sane {s : Source} (hs : s.Faithful) {wanted : Option (List String)} {f : Frame}
    (h : s.read wanted = .ok f) : f.Sane := ⟨hs.capped wanted f h, hs.dictionaries wanted f h⟩

/-- Asked for some of its columns, a source gives at least those, as they are when it reads all. -/
def Source.ReadsParts (s : Source) : Prop :=
  ∀ f wanted, s.read none = .ok f → (∀ n ∈ wanted, n ∈ f.names) →
    ∃ g, s.read (some wanted) = .ok g ∧ f.Offers wanted g

theorem Source.faithful_memory {f : Frame} (hf : f.Sane) : (memory f).Faithful where
  capped := by
    rintro _ _ ⟨⟩
    exact hf.toCapped
  dictionaries := by
    rintro _ _ ⟨⟩
    exact hf.sound
  names := by
    rintro _ _ ⟨⟩ ⟨⟩
    simp [Frame.schema, Frame.names]

theorem Source.readsParts_memory {f : Frame} (hf : f.Sane) : (memory f).ReadsParts := by
  rintro _ _ ⟨⟩ -
  exact ⟨f, rfl, (Frame.Alike.refl hf).offers _⟩

namespace Frame

theorem select_spec {f g : Frame} (hf : f.Sane) {ns : List String} (h : f.select ns = .ok g) :
    g.Sane ∧ g.names = ns ∧ f.Offers ns g := by
  have names := names_select h
  obtain ⟨cs, hcs, out, hout, rfl⟩ := select_eq_ok.1 h
  have found := mapM_eq_ok.1 hcs
  have sound : ∀ c ∈ cs, c.Sound ∧ c.height = f.height := fun c hc => by
    obtain ⟨n, -, hn⟩ := exists_left found c hc
    rw [column_eq_ok] at hn
    exact ⟨hf.soundOf hn, hf.height hn⟩
  have sane : (if cs.isEmpty then (⟨cs, f.height⟩ : Frame) else out).Sane ∧
      (if cs.isEmpty then (⟨cs, f.height⟩ : Frame) else out).height = f.height ∧
      (if cs.isEmpty then (⟨cs, f.height⟩ : Frame) else out).columns = cs := by
    cases cs with
    | nil => exact ⟨⟨⟨⟨List.nodup_nil, nofun, fun h => absurd rfl h⟩, hf.short⟩, nofun⟩, rfl, rfl⟩
    | cons c cs =>
      obtain ⟨rfl, -⟩ := ofColumns_eq_ok.1 hout
      exact ⟨⟨capped_ofColumns hout, fun d hd => (sound d hd).1⟩, (sound c List.mem_cons_self).2, rfl⟩
  obtain ⟨sane, height, columns⟩ := sane
  refine ⟨sane, names, height.symm, fun n hn c hc => ⟨c, ?_, .refl (hf.soundOf hc)⟩⟩
  obtain ⟨d, hd, hnd⟩ := exists_right found n hn
  rw [column_eq_ok, hc] at hnd
  cases hnd
  rw [← name_of_column? hc]
  exact sane.toRectangular.column? (by rwa [columns])

theorem select_ok {f : Frame} (hf : f.Rectangular) {ns : List String} (sub : ∀ n ∈ ns, n ∈ f.names)
    (nodup : ns.Nodup) : ∃ g, f.select ns = .ok g := by
  obtain ⟨cs, hcs⟩ : ∃ cs, ns.mapM f.column = .ok cs := mapM_ok fun n hn => by
    obtain ⟨c, hc⟩ := mem_names.1 (sub n hn)
    exact ⟨c, column_eq_ok.2 hc⟩
  have wide : cs ≠ [] → f.columns ≠ [] := fun nonempty none => by
    obtain ⟨n, -, hn⟩ := exists_left (mapM_eq_ok.1 hcs) _ (List.head_mem nonempty)
    have := mem_of_column? (column_eq_ok.1 hn)
    rw [none] at this
    cases this
  have heights : ∀ c ∈ cs, c.height = f.height := fun c hc => by
    obtain ⟨n, -, hn⟩ := exists_left (mapM_eq_ok.1 hcs) c hc
    exact hf.height (column_eq_ok.1 hn)
  obtain ⟨out, hout, -⟩ := ofColumns_ok (names_mapM_column hcs ▸ nodup) heights fun h => hf.limit (wide h)
  exact ⟨_, select_eq_ok.2 ⟨cs, hcs, out, hout, rfl⟩⟩

theorem Offers.trans {ns : List String} {f g h : Frame} (fg : f.Offers ns g) (gh : g.Offers ns h) :
    f.Offers ns h :=
  ⟨fg.height.trans gh.height, fun n hn c hc => by
    obtain ⟨d, hd, hcd⟩ := fg.columns n hn c hc
    obtain ⟨e, he, hde⟩ := gh.columns n hn d hd
    exact ⟨e, he, hcd.trans hde⟩⟩

end Frame

namespace Plan

/-- A plan over faithful sources with deterministic functions. -/
def Faithful : Plan → Prop
  | scan s _ => s.Faithful
  | step op x => op.Deterministic ∧ x.Faithful
  | join _ l r => l.Faithful ∧ r.Faithful
  | cache _ x => x.Faithful

theorem Faithful.truthful {p : Plan} (hp : p.Faithful) : p.Truthful := by
  induction p with
  | scan s proj => exact hp.names
  | step op x ih => exact ih hp.2
  | join s l r ihl ihr => exact ⟨ihl hp.1, ihr hp.2⟩
  | cache id x ih => exact ih hp

theorem readScan_sane {s : Source} (hs : s.Faithful) {proj : Option (List String)} {f : Frame}
    (h : readScan s proj = .ok f) : f.Sane := by
  obtain ⟨g, hg, h⟩ := bind_eq_ok.1 h
  have sane := hs.sane hg
  cases proj with
  | none =>
    obtain rfl := pure_eq_ok.1 h
    exact sane
  | some names => exact (Frame.select_spec sane h).1

theorem eval_sane {host : Host} {p : Plan} (hp : p.Faithful) {f : Frame} (h : p.eval host = .ok f) :
    f.Sane := by
  induction p generalizing f with
  | scan s proj => exact readScan_sane hp h
  | step op x ih =>
    obtain ⟨g, hg, h⟩ := bind_eq_ok.1 h
    exact Operator.run_sane host hp.1 (ih hp.2 hg) h
  | join s l r ihl ihr =>
    obtain ⟨fl, hl, h⟩ := bind_eq_ok.1 h
    obtain ⟨fr, hr, h⟩ := bind_eq_ok.1 h
    exact Join.joined_sane (ihl hp.1 hl) (ihr hp.2 hr) h
  | cache id x ih => exact ih hp h

theorem eval_told {host : Host} {p : Plan} (hp : p.Faithful) {f : Frame} (h : p.eval host = .ok f) :
    f.Sane ∧ Operator.Told p.columns? f := ⟨eval_sane hp h, eval_names hp.truthful h⟩

end Plan

end Columnar
