import Columnar.Parallel.Claiming
import Columnar.Parallel.Pool

/-!
Workers that share a loop over rows whose body may fail: the atomic steps in which they claim ranges, look for an error
before they work on one, and report their own, and what the loop returns when all of them have come to an end.
-/

namespace Columnar

def Claiming.Action.worker : Claiming.Action → Nat
  | load w _ | leave w | exchange w | retry w _ => w

structure Trying extends Claiming where
  crew : Nat
  crew_pos : 0 < crew

namespace Trying

inductive Phase (ε : Type u)
  | claiming
  | looking (m : Morsel)
  | calling (m : Morsel)
  | failing (e : ε)
  | done

inductive Action (ε : Type u)
  | claim (step : Claiming.Action)
  /-- Leaves a range out, because an error is reported. -/
  | skip (worker : Nat)
  /-- Enters the body, because no error is seen; one that another worker has just reported may be overlooked. -/
  | call (worker : Nat)
  /-- Comes out of the body, which may do this in either way at any time. -/
  | finish (worker : Nat) (outcome : Except ε Unit)
  | report (worker : Nat)

structure State (ε : Type u) where
  claims : Claiming.State
  phase : Nat → Phase ε
  reported : Option ε
  calls : List (Morsel × Except ε Unit)

def Phase.ofAnswer : Option (Nat × Option Morsel) → Phase ε
  | some (_, some m) => .looking m
  | some (_, none) => .done
  | none => .claiming

def Phase.ofOutcome : Except ε Unit → Phase ε
  | .ok () => .claiming
  | .error e => .failing e

namespace State

def initial : State ε := ⟨.initial, fun _ => .claiming, none, []⟩

def enter (s : State ε) (worker : Nat) (p : Phase ε) : State ε :=
  { s with phase := fun w => if w = worker then p else s.phase w }

def outcome (s : State ε) : Except ε Unit :=
  match s.reported with
  | some e => .error e
  | none => .ok ()

end State

def step (t : Trying) (s : State ε) : Action ε → Option (State ε)
  | .claim a =>
    match s.phase a.worker with
    | .claiming =>
      if a.worker < t.crew then
        (t.toClaiming.step s.claims a).map fun claims =>
          { s with claims }.enter a.worker (.ofAnswer claims.answers[s.claims.answers.length]?)
      else none
    | _ => none
  | .skip w =>
    match s.phase w, s.reported with
    | .looking _, some _ => some (s.enter w .claiming)
    | _, _ => none
  | .call w =>
    match s.phase w with
    | .looking m => some (s.enter w (.calling m))
    | _ => none
  | .finish w r =>
    match s.phase w with
    | .calling m => some ({ s with calls := s.calls ++ [(m, r)] }.enter w (.ofOutcome r))
    | _ => none
  | .report w =>
    match s.phase w with
    | .failing e => some ({ s with reported := s.reported.or (some e) }.enter w .claiming)
    | _ => none

def run (t : Trying) (schedule : List (Action ε)) : Option (State ε) := schedule.foldlM t.step .initial

def Finished (t : Trying) (s : State ε) : Prop := ∀ w < t.crew, s.phase w = .done

end Trying

/-- What a loop over rows with a body that may fail can return, together with the calls that it makes: one for all rows
when the loop is not spread, and elsewhere those of any schedule of any number of workers. -/
inductive Pool.Tries (p : Pool) (total : UInt64) : List (Morsel × Except ε Unit) → Except ε Unit → Prop
  | alone (h : p.spreads total.toNat = false) (r : Except ε Unit) : Tries p total [(⟨0, total.toNat⟩, r)] r
  | spread (h : p.spreads total.toNat) {t : Trying} (rows : t.toClaiming = ⟨total, p.settings.morselSize⟩)
    {schedule : List (Trying.Action ε)} {s : Trying.State ε} (run : t.run schedule = some s) (finished : t.Finished s) :
    Tries p total s.calls s.outcome

end Columnar
