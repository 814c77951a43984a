import Columnar.Proofs.Keeping
import Columnar.Proofs.Pushing

namespace Columnar

namespace Plan

variable {host : Host}

def Unprojected : Plan → Prop
  | scan _ proj => proj = none
  | step _ x => x.Unprojected
  | join _ l r => l.Unprojected ∧ r.Unprojected
  | cache _ x => x.Unprojected

def ReadsParts : Plan → Prop
  | scan s _ => s.ReadsParts
  | step _ x => x.ReadsParts
  | join _ l r => l.ReadsParts ∧ r.ReadsParts
  | cache _ x => x.ReadsParts

/-- Where pruning keeps what a plan gives: each join of known columns, not all of which are needed, keeps the
names and some column of those that it had. -/
def PrunesSafely : Option (List String) → Plan → Prop
  | _, scan .. => True
  | required, step op x => x.PrunesSafely (op.required? required)
  | required, join s l r =>
    l.PrunesSafely (joinRequirements s l r required).1 ∧ r.PrunesSafely (joinRequirements s l r required).2 ∧
      ∀ needed left right left' right', required = some needed → l.columns? = some left →
        r.columns? = some right → (l.prune (joinRequirements s l r required).1).columns? = some left' →
        (r.prune (joinRequirements s l r required).2).columns? = some right' →
        s.Keeps needed left right left' right'
  | _, cache _ x => x.PrunesSafely none

theorem faithful_prune {p : Plan} (h : p.Faithful) (required : Option (List String)) :
    (p.prune required).Faithful := by
  induction p generalizing required with
  | scan s proj => exact h
  | step op x ih => exact ⟨h.1, ih h.2 _⟩
  | join s l r ihl ihr => exact ⟨ihl h.1 _, ihr h.2 _⟩
  | cache id x ih => exact ih h _

theorem caches_prune (p : Plan) (required : Option (List String)) :
    (p.prune required).caches = p.caches.map fun c => (c.1, c.2.prune none) := by
  induction p generalizing required with
  | scan s proj => rfl
  | step op x ih => exact ih _
  | join s l r ihl ihr => rw [prune, caches, caches, ihl, ihr, List.map_append]
  | cache id x ih => exact congrArg _ (ih none)

theorem isSome_columns?_prune (p : Plan) (required : Option (List String)) (h : p.columns?.isSome) :
    (p.prune required).columns?.isSome := by
  induction p generalizing required with
  | scan s proj =>
    simp only [prune, columns?] at h ⊢
    cases required with
    | none => exact h
    | some needed =>
      cases hn : s.names? with
      | none =>
        rw [hn] at h
        simpa only [prunedScan, hn] using h
      | some names =>
        simp only [prunedScan, hn]
        rfl
  | step op x ih =>
    rw [prune, columns?]
    rw [columns?] at h
    cases op with
    | project | groupBy | melt => rfl
    | pivot => cases h
    | withColumn e =>
      simp only [Operator.columns?, Option.isSome_map] at h ⊢
      exact ih _ h
    | filter | sort | limit | tail | distinct | apply => exact ih _ h
  | join s l r ihl ihr =>
    rw [columns?] at h
    obtain ⟨_, h⟩ := Option.isSome_iff_exists.1 h
    obtain ⟨left, hl, h⟩ := Option.bind_eq_some_iff.1 h
    obtain ⟨right, hr, -⟩ := Option.bind_eq_some_iff.1 h
    obtain ⟨left', hl'⟩ := Option.isSome_iff_exists.1 (ihl (joinRequirements s l r required).1 (by rw [hl]; rfl))
    obtain ⟨right', hr'⟩ := Option.isSome_iff_exists.1 (ihr (joinRequirements s l r required).2 (by rw [hr]; rfl))
    rw [prune, columns?, hl', hr']
    rfl
  | cache id x ih => exact ih none h

theorem scan_serves {s : Source} (hs : s.Faithful) (parts : s.ReadsParts) (required : Option (List String)) :
    Follows (Frame.Serves required) (readScan s none) (readScan s (prunedScan s none required)) := by
  intro f hf
  obtain ⟨f₀, hread, hf⟩ := bind_eq_ok.1 hf
  obtain rfl := pure_eq_ok.1 hf
  have sane := hs.sane hread
  have whole : readScan s none = .ok f₀ := bind_eq_ok.2 ⟨f₀, hread, rfl⟩
  cases required with
  | none => exact ⟨f₀, whole, .refl sane⟩
  | some needed =>
    unfold prunedScan
    cases hnames : s.names? with
    | none => exact ⟨f₀, whole, (Frame.Alike.refl sane).offers _⟩
    | some names =>
      have told := hs.names f₀ names hnames hread
      have within : ∀ n ∈ names.filter fun n => needed.contains n && (none : Option (List String)).all (·.contains n),
          n ∈ f₀.names := fun n hn => told ▸ (List.mem_filter.1 hn).1
      obtain ⟨g₀, hg₀, offers⟩ := parts f₀ _ hread within
      have sane₀ := hs.sane hg₀
      have there : ∀ n ∈ names.filter fun n => needed.contains n && (none : Option (List String)).all (·.contains n),
          n ∈ g₀.names := fun n hn => offers.named hn (within n hn)
      obtain ⟨g, hg⟩ := Frame.select_ok sane₀.toRectangular there ((told ▸ sane.names).filter _)
      obtain ⟨-, -, offers'⟩ := Frame.select_spec sane₀ hg
      have both := offers.trans offers'
      refine ⟨g, bind_eq_ok.2 ⟨g₀, hg₀, hg⟩, both.height, fun n hn c hc => both.columns n ?_ c hc⟩
      have known : n ∈ names := told ▸ Frame.mem_names.2 ⟨c, hc⟩
      exact List.mem_filter.2 ⟨known, by simpa using hn⟩

theorem joinRequirements_cases (s : JoinSpec) (l r : Plan) (required : Option (List String)) :
    joinRequirements s l r required = (none, none) ∨
      ∃ needed left right, required = some needed ∧ l.columns? = some left ∧ r.columns? = some right ∧
        joinRequirements s l r required =
          (some (s.needs left right needed).1, some (s.needs left right needed).2) := by
  cases required with
  | none => exact .inl rfl
  | some needed =>
    cases hl : l.columns? with
    | none => exact .inl (by simp only [joinRequirements, hl])
    | some left =>
      cases hr : r.columns? with
      | none => exact .inl (by simp only [joinRequirements, hl, hr])
      | some right => exact .inr ⟨needed, left, right, rfl, rfl, rfl, by simp only [joinRequirements, hl, hr]; rfl⟩

/-- Where pruning is safe, what is left of a plan gives what is needed. -/
theorem prune_serves {p : Plan} (hp : p.Faithful) (parts : p.ReadsParts) (plain : p.Unprojected)
    {required : Option (List String)} (safe : p.PrunesSafely required) :
    Follows (Frame.Serves required) (p.eval host) ((p.prune required).eval host) := by
  induction p generalizing required with
  | scan s proj =>
    obtain rfl : proj = none := plain
    exact scan_serves hp parts required
  | step op x ih =>
    intro f' hf'
    obtain ⟨f, hf, hf'⟩ := bind_eq_ok.1 hf'
    obtain ⟨g, hg, serves⟩ := ih hp.2 parts plain safe f hf
    have saneF := eval_sane hp.2 hf
    have saneG := eval_sane (faithful_prune hp.2 _) hg
    obtain ⟨g', hg', served⟩ := Operator.run_serves host hp.1 saneF saneG serves f' hf'
    exact ⟨g', bind_eq_ok.2 ⟨g, hg, hg'⟩, served.serves⟩
  | cache id x ih =>
    intro f hf
    obtain ⟨g, hg, serves⟩ := ih hp parts plain safe f hf
    have alike : f.Alike g := serves
    exact ⟨g, hg, alike.serves⟩
  | join s l r ihl ihr =>
    intro out hout
    obtain ⟨fl, hfl, hout⟩ := bind_eq_ok.1 hout
    obtain ⟨fr, hfr, hout⟩ := bind_eq_ok.1 hout
    obtain ⟨safeL, safeR, keeps⟩ := safe
    obtain ⟨gl, hgl, servesL⟩ := ihl hp.1 parts.1 plain.1 safeL fl hfl
    obtain ⟨gr, hgr, servesR⟩ := ihr hp.2 parts.2 plain.2 safeR fr hfr
    obtain ⟨saneL, toldL⟩ := eval_told hp.1 hfl
    obtain ⟨saneR, toldR⟩ := eval_told hp.2 hfr
    obtain ⟨saneL', toldL'⟩ := eval_told (faithful_prune hp.1 _) hgl
    obtain ⟨saneR', toldR'⟩ := eval_told (faithful_prune hp.2 _) hgr
    have made {out' : Frame} (h : Join.joined host gl gr s = .ok out') :
        ((join s l r).prune required).eval host = .ok out' :=
      bind_eq_ok.2 ⟨gl, hgl, bind_eq_ok.2 ⟨gr, hgr, h⟩⟩
    rcases joinRequirements_cases s l r required with none | ⟨needed, left, right, rfl, hl, hr, needs⟩
    · rw [none] at servesL servesR
      obtain ⟨out', hout', built⟩ := Join.joined_built host saneL saneR saneL' saneR' servesL servesR out hout
      exact ⟨out', made hout', built.alike.serves⟩
    · obtain ⟨left', hl'⟩ := Option.isSome_iff_exists.1
        (isSome_columns?_prune l (joinRequirements s l r (some needed)).1 (by rw [hl]; rfl))
      obtain ⟨right', hr'⟩ := Option.isSome_iff_exists.1
        (isSome_columns?_prune r (joinRequirements s l r (some needed)).2 (by rw [hr]; rfl))
      have keeps := keeps needed left right left' right' rfl hl hr hl' hr'
      -- What was known of the columns is what the frames have.
      obtain rfl := toldL left hl
      obtain rfl := toldR right hr
      obtain rfl := toldL' left' hl'
      obtain rfl := toldR' right' hr'
      rw [needs] at servesL servesR
      obtain ⟨out', hout', offers⟩ :=
        Join.joined_offers host saneL saneR saneL' saneR' servesL servesR keeps out hout
      exact ⟨out', made hout', offers⟩

/-- Pruning keeps what a plan gives, if no join loses all its columns and each needed right column has its
name still, for which it is enough that its chain of names is kept. -/
theorem prune_preserves {p : Plan} (faithful : p.Faithful) (parts : p.ReadsParts) (plain : p.Unprojected)
    (settled : p.Settled) (safe : p.PrunesSafely none) {f : Frame} (h : p.result host = .ok f) :
    ∃ g, (p.prune none).result host = .ok g ∧ f.Alike g := by
  rw [result_eq_eval host settled] at h
  rw [result_eq_eval host (settled.map (caches_prune p none))]
  exact prune_serves faithful parts plain safe f h

def secondOfName : Plan :=
  ((read ⟨[⟨"x", .int64 #[some 1]⟩, ⟨"y", .int64 #[some 2]⟩], 1⟩).crossJoin
    (read ⟨[⟨"x", .int64 #[some 3, some 4]⟩], 2⟩) "").select [.column "x_right"]

theorem prune_secondOfName :
    ∃ f g, secondOfName.result Host.hashing = .ok f ∧ (secondOfName.prune none).result Host.hashing = .ok g ∧
      f.Alike g := by
  have left : Frame.Sane ⟨[⟨"x", .int64 #[some 1]⟩, ⟨"y", .int64 #[some 2]⟩], 1⟩ :=
    Frame.sane_of_plain (by decide) (by decide) (by decide)
  have right : Frame.Sane ⟨[⟨"x", .int64 #[some 3, some 4]⟩], 2⟩ :=
    Frame.sane_of_plain (by decide) (by decide) (by decide)
  have faithful : secondOfName.Faithful := ⟨trivial, Source.faithful_memory left, Source.faithful_memory right⟩
  have parts : secondOfName.ReadsParts := ⟨Source.readsParts_memory left, Source.readsParts_memory right⟩
  have safe : secondOfName.PrunesSafely none := by
    refine ⟨trivial, trivial, ?_⟩
    rintro _ _ _ left' right' ⟨⟩ ⟨⟩ ⟨⟩ hl hr
    have keptLeft : ["x"] = left' := Option.some.inj (Eq.trans (by cbv) hl)
    have keptRight : ["x"] = right' := Option.some.inj (Eq.trans (by cbv) hr)
    subst keptLeft keptRight
    exact .of_sublist ⟨by decide, by decide⟩ (by decide)
  have runs : (secondOfName.result Host.hashing).isOk := by cbv
  obtain ⟨f, hf⟩ := isOk_iff.1 runs
  obtain ⟨g, hg, alike⟩ := @prune_preserves Host.hashing _ faithful parts ⟨rfl, rfl⟩ (fun _ _ _ h => by cases h) safe
    f hf
  exact ⟨f, g, hf, hg, alike⟩

def onePerPair : Plan :=
  ((read ⟨[⟨"a", .int64 #[some 1, some 2]⟩], 2⟩).crossJoin
    (read ⟨[⟨"b", .int64 #[some 3, some 4, some 5]⟩], 3⟩) "").select [.literal (.int 1)]

/-- Without any column a join forgets how many pairs it has. -/
theorem prune_onePerPair :
    onePerPair.Faithful ∧ onePerPair.ReadsParts ∧ onePerPair.Unprojected ∧ onePerPair.Settled ∧
      (·.height) <$> onePerPair.result Host.hashing = .ok 6 ∧
      (·.height) <$> (onePerPair.prune none).result Host.hashing = .ok 0 := by
  have left : Frame.Sane ⟨[⟨"a", .int64 #[some 1, some 2]⟩], 2⟩ :=
    Frame.sane_of_plain (by decide) (by decide) (by decide)
  have right : Frame.Sane ⟨[⟨"b", .int64 #[some 3, some 4, some 5]⟩], 3⟩ :=
    Frame.sane_of_plain (by decide) (by decide) (by decide)
  refine ⟨⟨trivial, Source.faithful_memory left, Source.faithful_memory right⟩,
    ⟨Source.readsParts_memory left, Source.readsParts_memory right⟩, ⟨rfl, rfl⟩, nofun, ?_, ?_⟩
  · cbv
  · cbv

def replacedBelow : Plan :=
  ((read ⟨[⟨"x", .bool #[some true]⟩], 1⟩).crossJoin
    ((read ⟨[⟨"x", .bool #[some false]⟩, ⟨"x_right", .bool #[none]⟩], 1⟩).withColumn
      (.named (.literal (.bool true)) "x")) "").select [.column "x_right"]

/-- A replaced column that is not read comes after the ones that are, and gets another name. -/
theorem prune_replacedBelow :
    replacedBelow.Faithful ∧ replacedBelow.ReadsParts ∧ replacedBelow.Unprojected ∧ replacedBelow.Settled ∧
      (·.columns) <$> replacedBelow.result Host.hashing = .ok [⟨"x_right", .bool #[some true]⟩] ∧
      (·.columns) <$> (replacedBelow.prune none).result Host.hashing = .ok [⟨"x_right", .bool #[none]⟩] := by
  have left : Frame.Sane ⟨[⟨"x", .bool #[some true]⟩], 1⟩ :=
    Frame.sane_of_plain (by decide) (by decide) (by decide)
  have right : Frame.Sane ⟨[⟨"x", .bool #[some false]⟩, ⟨"x_right", .bool #[none]⟩], 1⟩ :=
    Frame.sane_of_plain (by decide) (by decide) (by decide)
  refine ⟨⟨trivial, Source.faithful_memory left, trivial, Source.faithful_memory right⟩,
    ⟨Source.readsParts_memory left, Source.readsParts_memory right⟩, ⟨rfl, rfl⟩, nofun, ?_, ?_⟩
  · cbv
  · cbv

end Plan

end Columnar
