import Columnar.Proofs.Trying

namespace Columnar

namespace Trying

variable {ε : Type u} {t : Trying} {s s' s'' : State ε} {w : Nat} {m : Morsel}

def Reaches (t : Trying) (s s' : State ε) : Prop := ∃ schedule : List (Action ε), schedule.foldlM t.step s = some s'

theorem Reaches.refl : Reaches t s s := ⟨[], rfl⟩

theorem Reaches.trans (h : Reaches t s s') (h' : Reaches t s' s'') : Reaches t s s'' := by
  obtain ⟨schedule, h⟩ := h
  obtain ⟨schedule', h'⟩ := h'
  exact ⟨schedule ++ schedule', by rw [List.foldlM_append, h]; exact h'⟩

theorem Reaches.of_step {a : Action ε} (h : t.step s a = some s') : Reaches t s s' :=
  ⟨[a], by rw [List.foldlM_cons, h]; rfl⟩

theorem enter_enter (s : State ε) (w : Nat) (p q : Phase ε) : (s.enter w p).enter w q = s.enter w q := by
  have same : ((s.enter w p).enter w q).phase = (s.enter w q).phase := by
    funext u
    by_cases hu : u = w
    · rw [hu, phase_enter, phase_enter]
    · rw [phase_enter_of_ne hu, phase_enter_of_ne hu, phase_enter_of_ne hu]
  exact congrArg (fun phase => { s with phase }) same

structure Idle (s : State ε) : Prop where
  phase : ∀ w, s.phase w = .claiming
  held : ∀ w, s.claims.held w = none

def nextRange (t : Trying) (s : State ε) : Morsel := ⟨s.claims.cursor.toNat, (t.stop s.claims.cursor).toNat⟩

def handedOut (t : Trying) (s : State ε) (w : Nat) : Claiming.State :=
  ((s.claims.hold w (some s.claims.cursor)).advance (t.stop s.claims.cursor)).answer w (some (t.nextRange s))

theorem step_claim {a : Claiming.Action} {claims : Claiming.State} (below : w < t.crew)
    (phase : s.phase w = .claiming) (h : t.toClaiming.step s.claims a = some claims) (own : a.worker = w) :
    t.step s (.claim a) = some ({ s with claims }.enter w (.ofAnswer claims.answers[s.claims.answers.length]?)) := by
  subst own
  simp only [step, phase, below, ↓reduceIte, h, Option.map_some]

theorem step_load (below : w < t.crew) (phase : s.phase w = .claiming) (held : s.claims.held w = none) :
    t.step s (.claim (.load w s.claims.cursor)) =
      some { s with claims := s.claims.hold w (some s.claims.cursor) } := by
  have loaded : t.toClaiming.step s.claims (.load w s.claims.cursor) =
      some (s.claims.hold w (some s.claims.cursor)) := by simp [Claiming.step, held, Claiming.State.shown]
  have waiting : (s.claims.hold w (some s.claims.cursor)).answers[s.claims.answers.length]? = none :=
    List.getElem?_eq_none (Nat.le_refl _)
  have still : { s with claims := s.claims.hold w (some s.claims.cursor) }.phase w = .claiming := phase
  rw [step_claim below phase loaded rfl, waiting]
  exact congrArg some (enter_self still)

theorem hold_held (s : Claiming.State) (w : Nat) (seen : Option UInt64) : (s.hold w seen).held w = seen := if_pos rfl

theorem reaches_looking (below : w < t.crew) (phase : s.phase w = .claiming) (held : s.claims.held w = none)
    (more : s.claims.cursor < t.total) :
    Reaches t s ({ s with claims := t.handedOut s w }.enter w (.looking (t.nextRange s))) := by
  refine (Reaches.of_step (step_load below phase held)).trans (Reaches.of_step (a := .claim (.exchange w)) ?_)
  have exchanged : t.toClaiming.step (s.claims.hold w (some s.claims.cursor)) (.exchange w) =
      some (t.handedOut s w) := by
    simp only [Claiming.step, hold_held]
    exact if_pos ⟨more, rfl⟩
  have answered : (t.handedOut s w).answers[s.claims.answers.length]? = some (w, some (t.nextRange s)) :=
    List.getElem?_concat_length
  have still : { s with claims := s.claims.hold w (some s.claims.cursor) }.phase w = .claiming := phase
  refine (step_claim below still exchanged rfl).trans (congrArg some ?_)
  exact congrArg (State.enter _ w) (congrArg Phase.ofAnswer answered)

theorem reaches_done (below : w < t.crew) (phase : s.phase w = .claiming) (held : s.claims.held w = none)
    (no_more : t.total ≤ s.claims.cursor) :
    Reaches t s ({ s with claims := (s.claims.hold w (some s.claims.cursor)).answer w none }.enter w .done) := by
  refine (Reaches.of_step (step_load below phase held)).trans (Reaches.of_step (a := .claim (.leave w)) ?_)
  have left : t.toClaiming.step (s.claims.hold w (some s.claims.cursor)) (.leave w) =
      some ((s.claims.hold w (some s.claims.cursor)).answer w none) := by
    simp only [Claiming.step, hold_held]
    exact if_pos no_more
  have answered : ((s.claims.hold w (some s.claims.cursor)).answer w none).answers[s.claims.answers.length]? =
      some (w, none) := List.getElem?_concat_length
  have still : { s with claims := s.claims.hold w (some s.claims.cursor) }.phase w = .claiming := phase
  refine (step_claim below still left rfl).trans (congrArg some ?_)
  exact congrArg (State.enter _ w) (congrArg Phase.ofAnswer answered)

theorem reaches_skipped {e : ε} (phase : s.phase w = .claiming) (reported : s.reported = some e) :
    Reaches t (s.enter w (.looking m)) s := by
  refine .of_step (a := .skip w) ?_
  have seen : (s.enter w (.looking m)).reported = some e := reported
  simp only [step, phase_enter, seen, enter_enter]
  rw [enter_self phase]

theorem reaches_finished (s : State ε) (r : Except ε Unit) :
    Reaches t (s.enter w (.looking m)) ({ s with calls := s.calls ++ [(m, r)] }.enter w (.ofOutcome r)) := by
  have call : t.step (s.enter w (.looking m)) (.call w) = some (s.enter w (.calling m)) := by
    simp only [step, phase_enter, enter_enter]
  refine (Reaches.of_step call).trans (Reaches.of_step (a := .finish w r) ?_)
  simp only [step, phase_enter]
  exact congrArg some (enter_enter { s with calls := s.calls ++ [(m, r)] } w (.calling m) (.ofOutcome r))

theorem reaches_reported {e : ε} (phase : s.phase w = .claiming) :
    Reaches t (s.enter w (.failing e)) { s with reported := s.reported.or (some e) } := by
  refine .of_step (a := .report w) ?_
  simp only [step, phase_enter]
  refine congrArg some ((enter_enter { s with reported := s.reported.or (some e) } w (.failing e) .claiming).trans ?_)
  exact enter_self phase

def failure? : Except ε Unit → Option ε
  | .ok () => none
  | .error e => some e

section

variable (below : w < t.crew) (phase : s.phase w = .claiming) (held : s.claims.held w = none)
  (more : s.claims.cursor < t.total)

include below phase held more

theorem reaches_leftOut {e : ε} (reported : s.reported = some e) :
    Reaches t s { s with claims := t.handedOut s w } :=
  (reaches_looking below phase held more).trans (reaches_skipped phase reported)

theorem reaches_called (r : Except ε Unit) :
    Reaches t s { s with
      claims := t.handedOut s w
      reported := s.reported.or (failure? r)
      calls := s.calls ++ [(t.nextRange s, r)] } := by
  let s₁ : State ε := { s with claims := t.handedOut s w, calls := s.calls ++ [(t.nextRange s, r)] }
  have called : Reaches t s (s₁.enter w (.ofOutcome r)) :=
    (reaches_looking below phase held more).trans (reaches_finished { s with claims := t.handedOut s w } r)
  cases r with
  | ok =>
    have still : s₁.phase w = .claiming := phase
    have silent : s.reported.or (failure? (.ok ())) = s.reported := Option.or_none
    rw [silent]
    exact (congrArg (Reaches t s) (enter_self still)).mp called
  | error e =>
    have still : s₁.phase w = .claiming := phase
    exact called.trans (reaches_reported still)

end

theorem Idle.handOut (idle : Idle s) (w : Nat) (reported : Option ε) (calls : List (Morsel × Except ε Unit)) :
    Idle { s with claims := t.handedOut s w, reported, calls } where
  phase := idle.phase
  held u := by
    by_cases same : u = w
    · exact if_pos same
    · exact (if_neg same).trans ((if_neg same).trans (idle.held u))

theorem toNat_handedOut (t : Trying) (s : State ε) (w : Nat) :
    (t.handedOut s w).cursor.toNat = min (s.claims.cursor.toNat + max t.size.toNat 1) t.total.toNat :=
  Claiming.toNat_stop ..

theorem reaches_exhausted (t : Trying) (s : State ε) {e : ε} (idle : Idle s) (reported : s.reported = some e) :
    ∃ s', Reaches t s s' ∧ Idle s' ∧ t.total ≤ s'.claims.cursor ∧ s'.reported = some e ∧ s'.calls = s.calls := by
  by_cases more : s.claims.cursor < t.total
  · have leftOut := reaches_leftOut t.crew_pos (idle.phase 0) (idle.held 0) more reported
    obtain ⟨s', exhausted, rest⟩ :=
      reaches_exhausted t { s with claims := t.handedOut s 0 } (idle.handOut 0 _ _) reported
    exact ⟨s', leftOut.trans exhausted, rest⟩
  · exact ⟨s, .refl, idle, UInt64.not_lt.1 more, reported, rfl⟩
termination_by t.total.toNat - s.claims.cursor.toNat
decreasing_by
  have next := toNat_handedOut t s 0
  have here := UInt64.lt_iff_toNat_lt.1 more
  omega

section

variable {k : Nat} {rest : List Morsel} (place : s.claims.cursor.toNat = min (k * max t.size.toNat 1) t.total.toNat)

include place

theorem no_more_of_left (left : (Morsel.tiles t.total.toNat t.size.toNat).drop k = []) :
    t.total ≤ s.claims.cursor := by
  have all := List.drop_eq_nil_iff.1 left
  rw [Morsel.length_tiles] at all
  have reached := mt MorselCursor.lt_count.2 (Nat.not_lt.2 all)
  exact UInt64.le_iff_toNat_le.2 (by omega)

theorem nextRange_of_left (left : (Morsel.tiles t.total.toNat t.size.toNat).drop k = m :: rest) :
    s.claims.cursor < t.total ∧ t.nextRange s = m ∧
      (t.handedOut s w).cursor.toNat = min ((k + 1) * max t.size.toNat 1) t.total.toNat := by
  have first := Morsel.getElem?_tiles t.total.toNat t.size.toNat k
  rw [← List.head?_drop, left] at first
  obtain ⟨inside, here⟩ := Option.ite_none_right_eq_some.1 first.symm
  have place : s.claims.cursor.toNat = k * max t.size.toNat 1 := by omega
  refine ⟨UInt64.lt_iff_toNat_lt.2 (by omega), ?_, ?_⟩
  · rw [← Option.some.inj here, nextRange, Claiming.toNat_stop, place]
  · rw [toNat_handedOut, place, Nat.add_one_mul]

theorem reaches_inOrder (f : Morsel → Except ε Unit) (idle : Idle s) (silent : s.reported = none)
    (left : (Morsel.tiles t.total.toNat t.size.toNat).drop k = rest) (honest : ∀ call ∈ s.calls, call.2 = f call.1) :
    ∃ s', Reaches t s s' ∧ Idle s' ∧ t.total ≤ s'.claims.cursor ∧ s'.outcome = rest.forM f ∧
      ∀ call ∈ s'.calls, call.2 = f call.1 := by
  -- Over the tiles that are left: the cursor is where the first of these starts.
  induction rest generalizing s k with
  | nil => exact ⟨s, .refl, idle, no_more_of_left place left, by rw [State.outcome, silent]; rfl, honest⟩
  | cons m rest ih =>
    obtain ⟨more, rfl, place⟩ := nextRange_of_left place left (w := 0)
    have called := reaches_called t.crew_pos (idle.phase 0) (idle.held 0) more (f (t.nextRange s))
    have idle := idle.handOut (t := t) 0 (failure? (f (t.nextRange s)))
      (s.calls ++ [(t.nextRange s, f (t.nextRange s))])
    have honest : ∀ call ∈ s.calls ++ [(t.nextRange s, f (t.nextRange s))], call.2 = f call.1 :=
      List.forall_mem_append.2 ⟨honest, List.forall_mem_singleton.2 rfl⟩
    have forM : (t.nextRange s :: rest).forM f = f (t.nextRange s) >>= fun _ => rest.forM f := rfl
    rw [silent, Option.none_or] at called
    rw [forM]
    generalize f (t.nextRange s) = r at called idle honest
    cases r with
    | ok =>
      have left : (Morsel.tiles t.total.toNat t.size.toNat).drop (k + 1) = rest := by
        rw [← List.tail_drop, left, List.tail_cons]
      obtain ⟨s', inOrder, spec⟩ := ih place idle rfl left honest
      exact ⟨s', called.trans inOrder, spec⟩
    | error e =>
      -- The loop in order stops here; the worker has to claim what is left nevertheless.
      obtain ⟨s', exhausted, idle, no_more, reported, calls⟩ := reaches_exhausted t _ idle rfl
      refine ⟨s', called.trans exhausted, idle, no_more, ?_, ?_⟩
      · rw [State.outcome, reported]
        rfl
      · rwa [calls]

end

theorem reaches_dismissed (idle : Idle s) (no_more : t.total ≤ s.claims.cursor) (n : Nat) (all : n ≤ t.crew) :
    ∃ s', Reaches t s s' ∧ (∀ w < n, s'.phase w = .done) ∧ (∀ w, n ≤ w → s'.phase w = .claiming) ∧
      (∀ w, s'.claims.held w = none) ∧ s'.claims.cursor = s.claims.cursor ∧ s'.reported = s.reported ∧
      s'.calls = s.calls := by
  induction n with
  | zero => exact ⟨s, .refl, nofun, fun w _ => idle.phase w, idle.held, rfl, rfl, rfl⟩
  | succ n ih =>
    obtain ⟨s₁, dismissed, done, waiting, held, cursor, reported, calls⟩ := ih (Nat.le_of_succ_le all)
    have last := reaches_done all (waiting n (Nat.le_refl n)) (held n) (cursor ▸ no_more)
    refine ⟨_, dismissed.trans last, ?_, ?_, ?_, cursor, reported, calls⟩
    · intro w hw
      rcases Nat.lt_succ_iff_lt_or_eq.1 hw with before | rfl
      · exact (phase_enter_of_ne (Nat.ne_of_lt before) _).trans (done w before)
      · exact phase_enter ..
    · intro w hw
      exact (phase_enter_of_ne (Nat.ne_of_gt hw) _).trans (waiting w (Nat.le_of_succ_le hw))
    · intro w
      by_cases same : w = n
      · exact if_pos same
      · exact (if_neg same).trans ((if_neg same).trans (held w))

theorem run_inOrder (t : Trying) (f : Morsel → Except ε Unit) :
    ∃ (schedule : List (Action ε)) (s : State ε), t.run schedule = some s ∧ t.Finished s ∧
      s.outcome = (Morsel.tiles t.total.toNat t.size.toNat).forM f ∧ ∀ call ∈ s.calls, call.2 = f call.1 := by
  have idle : Idle (.initial : State ε) := ⟨fun _ => rfl, fun _ => rfl⟩
  have place : (State.initial : State ε).claims.cursor.toNat = min (0 * max t.size.toNat 1) t.total.toNat := by
    rw [Nat.zero_mul, Nat.zero_min]
    rfl
  obtain ⟨s, inOrder, idle, no_more, outcome, honest⟩ := reaches_inOrder place f idle rfl List.drop_zero nofun
  obtain ⟨s', dismissed, done, -, -, -, reported, calls⟩ := reaches_dismissed idle no_more t.crew (Nat.le_refl _)
  obtain ⟨schedule, run⟩ := inOrder.trans dismissed
  refine ⟨schedule, s', run, done, ?_, ?_⟩
  · rw [← outcome, State.outcome, reported, State.outcome]
  · rwa [calls]

end Trying

namespace Pool

variable {ε : Type u} (p : Pool) (total : UInt64)

theorem exists_tries (f : Morsel → Except ε Unit) :
    ∃ calls, p.Tries total calls (p.tryForRows total.toNat f) ∧ ∀ call ∈ calls, call.2 = f call.1 := by
  rw [tryForRows]
  cases spread : p.spreads total.toNat with
  | false =>
    have alone : [(⟨0, total.toNat⟩ : Morsel)].forM f = f ⟨0, total.toNat⟩ := by
      change (f ⟨0, total.toNat⟩ >>= fun _ => pure ()) = _
      cases f ⟨0, total.toNat⟩ <;> rfl
    rw [coverage, if_neg (by simp [spread]), alone]
    exact ⟨_, .alone spread _, List.forall_mem_singleton.2 rfl⟩
  | true =>
    let t : Trying := ⟨⟨total, p.settings.morselSize⟩, crew p.workers.toNat (p.coverage total.toNat).length, by
      unfold crew; omega⟩
    obtain ⟨schedule, s, run, finished, outcome, honest⟩ := t.run_inOrder f
    rw [coverage_of_spread spread (t := t) rfl, ← outcome]
    exact ⟨s.calls, .spread spread rfl run finished, honest⟩

/-- Whatever the workers, their schedule and the body do, the loop returns no error only after calls that succeeded on
all rows, each row in one of them, and returns an error only if a call did, but always when one did. With a body that
answers alike whenever it is called, it fails exactly when the loop in order fails, and some schedule returns what the
loop in order does. -/
theorem tries_faithful :
    (∀ (calls : List (Morsel × Except ε Unit)) (r : Except ε Unit), p.Tries total calls r →
      (r = .ok () → (∀ call ∈ calls, call.2 = .ok ()) ∧
        ((calls.map (·.1)).flatMap Morsel.rows).Perm (List.range total.toNat)) ∧
      (∀ e, r = .error e → ∃ m, (m, .error e) ∈ calls) ∧
      ((∃ m e, (m, .error e) ∈ calls) → ∃ e, r = .error e) ∧
      ∀ f : Morsel → Except ε Unit, (∀ call ∈ calls, call.2 = f call.1) →
        (r = .ok () ↔ p.tryForRows total.toNat f = .ok ())) ∧
    ∀ f : Morsel → Except ε Unit,
      ∃ calls, p.Tries total calls (p.tryForRows total.toNat f) ∧ ∀ call ∈ calls, call.2 = f call.1 := by
  refine ⟨fun calls r h => ⟨?_, ?_, ?_, ?_⟩, p.exists_tries total⟩
  · intro hr
    obtain ⟨succeed, all⟩ := h.ok hr
    refine ⟨succeed, ?_⟩
    rw [← p.flatMap_rows_coverage total.toNat]
    exact all.flatMap_right Morsel.rows
  · exact fun e hr => h.call_of_error hr
  · rintro ⟨m, e, hc⟩
    exact h.error_of_call hc
  · exact fun f honest => h.ok_iff honest

/-- Two workers are in the body at once and both come to an error. The one that entered it later reports first, and the
other, whose error is dropped, leaves out the last range. -/
def bothFail : List (Trying.Action String) :=
  [.claim (.load 0 0), .claim (.load 1 0), .claim (.exchange 0), .claim (.retry 1 2), .call 0, .claim (.exchange 1),
    .call 1, .finish 0 (.error "early"), .finish 1 (.error "late"), .report 1, .report 0, .claim (.load 0 4),
    .claim (.exchange 0), .skip 0, .claim (.load 0 5), .claim (.leave 0), .claim (.load 1 0), .claim (.retry 1 5),
    .claim (.leave 1)]

theorem tries_faithful_bothFail :
    let p : Pool := ⟨.eager 2 2, 2, id⟩
    let calls : List (Morsel × Except String Unit) := [(⟨0, 2⟩, .error "early"), (⟨2, 4⟩, .error "late")]
    (p.Tries 5 calls (.error "late") ∧ (∃ m, (m, .error "late") ∈ calls)) ∧
      ∃ calls : List (Morsel × Except String Unit), p.Tries 5 calls (.ok ()) ∧
        ((calls.map (·.1)).flatMap Morsel.rows).Perm (List.range 5) := by
  intro p calls
  have tries : p.Tries 5 calls (.error "late") := by
    let t : Trying := ⟨⟨5, 2⟩, 2, by decide⟩
    have ran : ∃ s, t.run bothFail = some s ∧ t.Finished s ∧ s.calls = calls ∧ s.outcome = .error "late" := by
      refine ⟨_, rfl, fun w hw => ?_, rfl, rfl⟩
      match w, hw with
      | 0, _ => rfl
      | 1, _ => rfl
    obtain ⟨s, run, finished, made, returned⟩ := ran
    rw [← made, ← returned]
    exact .spread (by decide) rfl run finished
  obtain ⟨faithful, inOrder⟩ := tries_faithful (ε := String) p 5
  obtain ⟨-, origin, -, -⟩ := faithful calls _ tries
  obtain ⟨passed, succeeds, -⟩ := inOrder fun _ => .ok ()
  have silent : p.tryForRows 5 (fun _ => .ok ()) = (.ok () : Except String Unit) := forM_eq_ok.2 fun _ _ => rfl
  obtain ⟨covers, -⟩ := faithful passed _ succeeds
  exact ⟨⟨tries, origin "late" rfl⟩, passed, silent ▸ succeeds, (covers silent).2⟩

end Pool

end Columnar
