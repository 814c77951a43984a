import Columnar.Parallel.Trying
import Columnar.Proofs.Claiming

/-!
Loops whose body may fail, under every schedule of their workers: no error of the body is lost and none is made up, and
where none is returned the body has succeeded on each row once.
-/

namespace Columnar

namespace Claiming

variable {c : Claiming} {s : State}

theorem answers_step {s' : State} {a : Action} (h : c.step s a = some s') :
    s'.answers = s.answers ∨ ∃ w m, s'.answers = s.answers ++ [(w, m)] := by
  obtain ⟨w, seen, -, rfl⟩ | ⟨w, seen, -, -, rfl⟩ | ⟨w, -, rfl⟩ := step_eq_some h
  · exact .inl rfl
  · exact .inr ⟨w, none, rfl⟩
  · exact .inr ⟨w, some _, rfl⟩

end Claiming

namespace Trying

variable {ε : Type u} {t : Trying} {s s' : State ε}

theorem phase_enter (s : State ε) (w : Nat) (p : Phase ε) : (s.enter w p).phase w = p := if_pos rfl

theorem phase_enter_of_ne {w u : Nat} (h : u ≠ w) (p : Phase ε) : (s.enter w p).phase u = s.phase u := if_neg h

theorem enter_self {w : Nat} {p : Phase ε} (h : s.phase w = p) : s.enter w p = s := by
  have same : (s.enter w p).phase = s.phase := by
    funext u
    by_cases hu : u = w
    · rw [hu, phase_enter, h]
    · exact phase_enter_of_ne hu p
  exact congrArg (fun phase => { s with phase }) same

def Phase.hand? : Phase ε → Option Morsel
  | looking m | calling m => some m
  | _ => none

def State.hands (s : State ε) (crew : Nat) : List Morsel := (List.range crew).filterMap fun w => (s.phase w).hand?

theorem hands_succ (s : State ε) (n : Nat) : s.hands (n + 1) = s.hands n ++ (s.phase n).hand?.toList := by
  rw [State.hands, List.range_succ, List.filterMap_append]
  cases hn : (s.phase n).hand? <;> simp [State.hands, hn]

theorem hands_enter_of_le {w crew : Nat} (h : crew ≤ w) (p : Phase ε) : (s.enter w p).hands crew = s.hands crew := by
  refine List.filterMap_congr fun u hu => ?_
  rw [phase_enter_of_ne (Nat.ne_of_lt (Nat.lt_of_lt_of_le (List.mem_range.1 hu) h))]

theorem hands_enter (s : State ε) {w crew : Nat} (h : w < crew) (p : Phase ε) :
    ((s.phase w).hand?.toList ++ (s.enter w p).hands crew).Perm (p.hand?.toList ++ s.hands crew) := by
  induction crew with
  | zero => exact absurd h (Nat.not_lt_zero w)
  | succ n ih =>
    rw [hands_succ, hands_succ]
    rcases Nat.lt_succ_iff_lt_or_eq.1 h with before | rfl
    · rw [phase_enter_of_ne (Nat.ne_of_gt before), ← List.append_assoc, ← List.append_assoc]
      exact (ih before).append_right _
    · rw [hands_enter_of_le (Nat.le_refl w), phase_enter]
      exact (List.perm_append_comm_assoc ..).trans ((List.perm_append_comm.append_left _).trans
        (List.perm_append_comm_assoc ..))

/-- An error that the loop has not lost: it is reported, or a worker is about to do so. -/
def State.Keeps (s : State ε) (e : ε) : Prop := s.reported = some e ∨ ∃ w, s.phase w = .failing e

theorem keeps_enter {w : Nat} {e : ε} (p : Phase ε) (old : ∀ e, s.phase w ≠ .failing e) :
    (s.enter w p).Keeps e ↔ s.Keeps e ∨ p = .failing e := by
  constructor
  · rintro (reported | ⟨u, hu⟩)
    · exact .inl (.inl reported)
    · by_cases same : u = w
      · rw [same, phase_enter] at hu
        exact .inr hu
      · rw [phase_enter_of_ne same] at hu
        exact .inl (.inr ⟨u, hu⟩)
  · rintro ((reported | ⟨u, hu⟩) | rfl)
    · exact .inl reported
    · have other : u ≠ w := fun same => old e (same ▸ hu)
      exact .inr ⟨u, (phase_enter_of_ne other p).trans hu⟩
    · exact .inr ⟨w, phase_enter ..⟩

structure Sound (t : Trying) (s : State ε) : Prop where
  claims : Claiming.Consistent t.toClaiming s.claims
  /-- Each range that was handed out was called, is on the hands of a worker, or was left out, which takes an error. -/
  accounted : ∃ skipped, (s.calls.map (·.1) ++ (s.hands t.crew ++ skipped)).Perm s.claims.ranges ∧
    (s.reported = none → skipped = [])
  origin : ∀ e, s.Keeps e → ∃ m, (m, .error e) ∈ s.calls
  kept : ∀ m e, (m, .error e) ∈ s.calls → ∃ e', s.Keeps e'
  ended : ∀ w, s.phase w = .done → ∃ u, (u, none) ∈ s.claims.answers
  outside : ∀ w, t.crew ≤ w → s.phase w = .claiming

theorem sound_initial (t : Trying) : Sound t (.initial : State ε) where
  claims := Claiming.consistent_initial _
  accounted := by
    refine ⟨[], ?_, fun _ => rfl⟩
    simp [State.initial, State.hands, Phase.hand?, Claiming.State.initial, Claiming.State.ranges]
  origin e h := h.elim nofun fun ⟨_, failing⟩ => nomatch failing
  kept := nofun
  ended := nofun
  outside _ _ := rfl

namespace Sound

variable (hs : Sound t s) {w : Nat}

include hs

theorem below {p : Phase ε} (phase : s.phase w = p) (busy : p ≠ .claiming) : w < t.crew := by
  by_contra outside
  exact busy (phase.symm.trans (hs.outside w (Nat.not_lt.1 outside)))

theorem outside_enter (below : w < t.crew) (p : Phase ε) : ∀ u, t.crew ≤ u → (s.enter w p).phase u = .claiming := by
  intro u hu
  rw [phase_enter_of_ne (Nat.ne_of_gt (Nat.lt_of_lt_of_le below hu))]
  exact hs.outside u hu

theorem ended_enter {p : Phase ε} (more : p ≠ .done) (u : Nat) (hu : (s.enter w p).phase u = .done) :
    ∃ u, (u, none) ∈ s.claims.answers := by
  by_cases same : u = w
  · rw [same, phase_enter] at hu
    exact absurd hu more
  · rw [phase_enter_of_ne same] at hu
    exact hs.ended u hu

theorem enter {p : Phase ε} (below : w < t.crew) (old : ∀ e, s.phase w ≠ .failing e) (new : ∀ e, p ≠ .failing e)
    (more : p ≠ .done)
    (accounted : ∃ skipped, (s.calls.map (·.1) ++ ((s.enter w p).hands t.crew ++ skipped)).Perm s.claims.ranges ∧
      (s.reported = none → skipped = [])) : Sound t (s.enter w p) where
  claims := hs.claims
  accounted := accounted
  origin e he := hs.origin e (((keeps_enter p old).1 he).resolve_right (new e))
  kept m e h := (hs.kept m e h).imp fun _ he => (keeps_enter p old).2 (.inl he)
  ended := hs.ended_enter more
  outside := hs.outside_enter below p

theorem skip {m : Morsel} {e : ε} (phase : s.phase w = .looking m) (reported : s.reported = some e) :
    Sound t (s.enter w .claiming) := by
  have below := hs.below phase nofun
  have hands := hands_enter s below (.claiming : Phase ε)
  rw [phase] at hands
  obtain ⟨skipped, all, -⟩ := hs.accounted
  refine hs.enter below (by simp [phase]) nofun nofun ⟨m :: skipped, ?_, by simp [reported]⟩
  refine List.Perm.trans (List.Perm.append_left _ ?_) all
  exact List.perm_middle.trans (hands.append_right skipped)

theorem call {m : Morsel} (phase : s.phase w = .looking m) : Sound t (s.enter w (.calling m)) := by
  have below := hs.below phase nofun
  have hands := hands_enter s below (.calling m : Phase ε)
  rw [phase] at hands
  obtain ⟨skipped, all, none⟩ := hs.accounted
  refine hs.enter below (by simp [phase]) nofun nofun ⟨skipped, ?_, none⟩
  exact List.Perm.trans (((List.perm_cons m).1 hands).append_right skipped |>.append_left _) all

theorem finish {m : Morsel} (phase : s.phase w = .calling m) (r : Except ε Unit) :
    Sound t ({ s with calls := s.calls ++ [(m, r)] }.enter w (.ofOutcome r)) := by
  have below := hs.below phase nofun
  have old : ∀ e, s.phase w ≠ .failing e := by simp [phase]
  have free : (Phase.ofOutcome r).hand? = none := by cases r <;> rfl
  have hands := hands_enter s below (.ofOutcome r)
  rw [phase, free] at hands
  obtain ⟨skipped, all, none⟩ := hs.accounted
  constructor
  case claims => exact hs.claims
  case accounted =>
    refine ⟨skipped, ?_, none⟩
    rw [State.enter, List.map_append, List.append_assoc]
    exact (List.Perm.append_left _ (hands.append_right skipped)).trans all
  case origin =>
    intro e he
    rcases (keeps_enter (.ofOutcome r) old).1 he with before | now
    · exact (hs.origin e before).imp fun _ => List.mem_append_left _
    · obtain rfl : r = .error e := by cases r <;> cases now; rfl
      exact ⟨m, List.mem_append_right _ (List.mem_singleton_self _)⟩
  case kept =>
    intro m' e h
    rcases List.mem_append.1 h with before | now
    · exact (hs.kept m' e before).imp fun _ he => (keeps_enter _ old).2 (.inl he)
    · cases List.mem_singleton.1 now
      exact ⟨e, (keeps_enter _ old).2 (.inr rfl)⟩
  case ended => exact hs.ended_enter (by cases r <;> nofun)
  case outside => exact hs.outside_enter below _

theorem report {e : ε} (phase : s.phase w = .failing e) :
    Sound t ({ s with reported := s.reported.or (some e) }.enter w .claiming) := by
  have below := hs.below phase nofun
  have hands := hands_enter s below (.claiming : Phase ε)
  rw [phase] at hands
  obtain ⟨skipped, all, -⟩ := hs.accounted
  constructor
  case claims => exact hs.claims
  case accounted =>
    refine ⟨skipped, ?_, fun none => by simp [State.enter] at none⟩
    exact (List.Perm.append_left _ (hands.append_right skipped)).trans all
  case origin =>
    rintro e' (reported | ⟨u, hu⟩)
    · rcases Option.or_eq_some_iff.1 reported with before | ⟨-, now⟩
      · exact hs.origin e' (.inl before)
      · cases now
        exact hs.origin e (.inr ⟨w, phase⟩)
    · by_cases same : u = w
      · rw [same, phase_enter] at hu
        cases hu
      · rw [phase_enter_of_ne same] at hu
        exact hs.origin e' (.inr ⟨u, hu⟩)
  case kept =>
    -- An error that was reported before stands for all later ones.
    intro _ _ _
    cases before : s.reported with
    | none => exact ⟨e, .inl (by simp [State.enter])⟩
    | some e' => exact ⟨e', .inl (by simp [State.enter])⟩
  case ended => exact hs.ended_enter nofun
  case outside => exact hs.outside_enter below _

theorem waits {claims : Claiming.State} (consistent : Claiming.Consistent t.toClaiming claims)
    (same : claims.answers = s.claims.answers) : Sound t { s with claims } where
  claims := consistent
  accounted := by
    have ranges : claims.ranges = s.claims.ranges := by rw [Claiming.State.ranges, same, Claiming.State.ranges]
    exact ranges ▸ hs.accounted
  origin := hs.origin
  kept := hs.kept
  ended w hw := (hs.ended w hw).imp fun _ => (same ▸ ·)
  outside := hs.outside

theorem answered {claims : Claiming.State} {u : Nat} {m : Option Morsel} (below : w < t.crew)
    (phase : s.phase w = .claiming) (consistent : Claiming.Consistent t.toClaiming claims)
    (more : claims.answers = s.claims.answers ++ [(u, m)]) :
    Sound t ({ s with claims }.enter w (.ofAnswer (some (u, m)))) := by
  have old : ∀ e, s.phase w ≠ .failing e := by simp [phase]
  have new : ∀ e : ε, Phase.ofAnswer (some (u, m)) ≠ .failing e := by cases m <;> nofun
  have taken : (Phase.ofAnswer (some (u, m)) : Phase ε).hand? = m := by cases m <;> rfl
  have hands := hands_enter s below (.ofAnswer (some (u, m)))
  rw [phase, taken] at hands
  have ranges : claims.ranges = s.claims.ranges ++ m.toList := by
    rw [Claiming.State.ranges, more, List.filterMap_append]
    cases m <;> rfl
  obtain ⟨skipped, all, none⟩ := hs.accounted
  constructor
  case claims => exact consistent
  case accounted =>
    refine ⟨skipped, ?_, none⟩
    rw [State.enter, ranges]
    refine (List.Perm.append_left _ (hands.append_right skipped)).trans ?_
    rw [List.append_assoc]
    exact (List.perm_append_comm_assoc ..).trans ((all.append_left _).trans List.perm_append_comm)
  case origin =>
    intro e he
    exact hs.origin e (((keeps_enter _ old).1 he).resolve_right (new e))
  case kept =>
    intro m' e h
    exact (hs.kept m' e h).imp fun _ he => (keeps_enter _ old).2 (.inl he)
  case ended =>
    intro v hv
    rw [State.enter, more]
    by_cases same : v = w
    · rw [same, phase_enter] at hv
      cases m with
      | none => exact ⟨u, List.mem_append_right _ (List.mem_singleton_self _)⟩
      | some m => cases hv
    · rw [phase_enter_of_ne same] at hv
      exact (hs.ended v hv).imp fun _ => List.mem_append_left _
  case outside => exact hs.outside_enter below _

theorem claim {a : Claiming.Action} {claims : Claiming.State} (below : a.worker < t.crew)
    (phase : s.phase a.worker = .claiming) (h : t.toClaiming.step s.claims a = some claims) :
    Sound t ({ s with claims }.enter a.worker (.ofAnswer claims.answers[s.claims.answers.length]?)) := by
  have consistent := hs.claims.step h
  rcases Claiming.answers_step h with same | ⟨u, m, more⟩
  · have waits := hs.waits consistent same
    rw [same, List.getElem?_eq_none (Nat.le_refl _)]
    rwa [enter_self (by exact phase)]
  · rw [more, List.getElem?_concat_length]
    exact hs.answered below phase consistent more

theorem step {a : Action ε} (h : t.step s a = some s') : Sound t s' := by
  cases a with
  | claim a =>
    simp only [Trying.step] at h
    split at h
    next phase =>
      obtain ⟨below, h⟩ := Option.ite_none_right_eq_some.1 h
      obtain ⟨claims, hc, rfl⟩ := Option.map_eq_some_iff.1 h
      exact hs.claim below phase hc
    · cases h
  | skip w =>
    simp only [Trying.step] at h
    split at h
    next m e phase reported =>
      cases h
      exact hs.skip phase reported
    · cases h
  | call w =>
    simp only [Trying.step] at h
    split at h
    next m phase =>
      cases h
      exact hs.call phase
    · cases h
  | finish w r =>
    simp only [Trying.step] at h
    split at h
    next m phase =>
      cases h
      exact hs.finish phase r
    · cases h
  | report w =>
    simp only [Trying.step] at h
    split at h
    next e phase =>
      cases h
      exact hs.report phase
    · cases h

end Sound

theorem Sound.run {schedule : List (Action ε)} (hs : Sound t s) (h : schedule.foldlM t.step s = some s') :
    Sound t s' := by
  induction schedule generalizing s with
  | nil =>
    cases h
    exact hs
  | cons a schedule ih =>
    obtain ⟨s₁, h₁, h⟩ := Option.bind_eq_some_iff.1 h
    exact ih (hs.step h₁) h

namespace Sound

variable (hs : Sound t s) (finished : t.Finished s)

include hs finished

omit hs in
theorem hands_of_finished : s.hands t.crew = [] := by
  refine List.filterMap_eq_nil_iff.2 fun w hw => ?_
  rw [finished w (List.mem_range.1 hw)]
  rfl

theorem reported_of_keeps {e : ε} (h : s.Keeps e) : s.reported = some e := by
  refine h.resolve_right fun ⟨w, failing⟩ => ?_
  have done := finished w (hs.below failing nofun)
  rw [failing] at done
  cases done

theorem ranges_of_finished : s.claims.ranges = Morsel.tiles t.total.toNat t.size.toNat := by
  obtain ⟨u, ended⟩ := hs.ended 0 (finished 0 t.crew_pos)
  exact hs.claims.ranges_of_ended ended

theorem mem_tiles_of_call {call : Morsel × Except ε Unit} (h : call ∈ s.calls) :
    call.1 ∈ Morsel.tiles t.total.toNat t.size.toNat := by
  obtain ⟨skipped, all, -⟩ := hs.accounted
  rw [← hs.ranges_of_finished finished]
  exact all.mem_iff.1 (List.mem_append_left _ (List.mem_map_of_mem h))

theorem error_of_call {m : Morsel} {e : ε} (h : (m, .error e) ∈ s.calls) : ∃ e', s.outcome = .error e' := by
  obtain ⟨e', keeps⟩ := hs.kept m e h
  exact ⟨e', by rw [State.outcome, hs.reported_of_keeps finished keeps]⟩

omit finished in
theorem call_of_error {e : ε} (h : s.outcome = .error e) : ∃ m, (m, .error e) ∈ s.calls := by
  unfold State.outcome at h
  split at h
  next reported =>
    cases h
    exact hs.origin e (.inl reported)
  · cases h

theorem calls_of_ok (h : s.outcome = .ok ()) :
    (∀ call ∈ s.calls, call.2 = .ok ()) ∧ (s.calls.map (·.1)).Perm (Morsel.tiles t.total.toNat t.size.toNat) := by
  constructor
  · rintro ⟨m, _ | _⟩ hm
    · obtain ⟨e', failed⟩ := hs.error_of_call finished hm
      cases h.symm.trans failed
    · rfl
  · obtain ⟨skipped, all, none⟩ := hs.accounted
    have silent : s.reported = .none := by
      cases reported : s.reported with
      | none => rfl
      | some e => simp [State.outcome, reported] at h
    rwa [none silent, hands_of_finished finished, List.append_nil, List.append_nil,
      hs.ranges_of_finished finished] at all

end Sound

end Trying

namespace Pool

variable {ε : Type u} {p : Pool} {total : UInt64} {calls : List (Morsel × Except ε Unit)} {r : Except ε Unit}

theorem forM_eq_ok {f : α → Except ε Unit} {xs : List α} : xs.forM f = .ok () ↔ ∀ x ∈ xs, f x = .ok () := by
  induction xs with
  | nil => simp [pure, Except.pure]
  | cons x xs ih =>
    rw [List.forall_mem_cons, ← ih]
    change (f x >>= fun _ => xs.forM f) = .ok () ↔ _
    cases f x with
    | error e => simp [bind, Except.bind]
    | ok => simp [bind, Except.bind]

theorem coverage_of_spread {t : Trying} (spread : p.spreads total.toNat)
    (rows : t.toClaiming = ⟨total, p.settings.morselSize⟩) :
    p.coverage total.toNat = Morsel.tiles t.total.toNat t.size.toNat := by
  rw [coverage, if_pos spread, rows]

namespace Tries

variable (h : p.Tries total calls r)

include h

theorem mem_coverage : ∀ call ∈ calls, call.1 ∈ p.coverage total.toNat := by
  intro call hc
  cases h with
  | alone alone r => simp [List.mem_singleton.1 hc, coverage, alone]
  | @spread spread t rows schedule s run finished =>
    rw [coverage_of_spread spread rows]
    exact ((Trying.sound_initial t).run run).mem_tiles_of_call finished hc

theorem ok (hr : r = .ok ()) : (∀ call ∈ calls, call.2 = .ok ()) ∧ (calls.map (·.1)).Perm (p.coverage total.toNat) := by
  cases h with
  | alone alone r => simp [hr, coverage, alone]
  | @spread spread t rows schedule s run finished =>
    rw [coverage_of_spread spread rows]
    exact ((Trying.sound_initial t).run run).calls_of_ok finished hr

theorem call_of_error {e : ε} (hr : r = .error e) : ∃ m, (m, .error e) ∈ calls := by
  cases h with
  | alone alone r => exact ⟨_, List.mem_singleton.2 (by rw [hr])⟩
  | @spread spread t rows schedule s run finished => exact ((Trying.sound_initial t).run run).call_of_error hr

theorem error_of_call {m : Morsel} {e : ε} (hc : (m, .error e) ∈ calls) : ∃ e', r = .error e' := by
  cases h with
  | alone alone r =>
    cases List.mem_singleton.1 hc
    exact ⟨e, rfl⟩
  | @spread spread t rows schedule s run finished =>
    exact ((Trying.sound_initial t).run run).error_of_call finished hc

theorem ok_iff {f : Morsel → Except ε Unit} (honest : ∀ call ∈ calls, call.2 = f call.1) :
    r = .ok () ↔ p.tryForRows total.toNat f = .ok () := by
  rw [tryForRows, forM_eq_ok]
  constructor
  · intro hr m hm
    obtain ⟨succeed, all⟩ := h.ok hr
    obtain ⟨call, hc, rfl⟩ := List.mem_map.1 (all.mem_iff.2 hm)
    rw [← honest call hc, succeed call hc]
  · intro succeed
    cases hr : r with
    | ok => rfl
    | error e =>
      obtain ⟨m, hc⟩ := h.call_of_error hr
      have failed : .error e = f m := honest _ hc
      rw [succeed m (h.mem_coverage _ hc)] at failed
      cases failed

end Tries

end Pool

end Columnar
