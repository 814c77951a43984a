import Columnar.Plan.Run
import Columnar.Proofs.Rejoining

namespace Columnar.Plan

/-- The frame that a plan gives, where each cached subplan is computed whenever it is needed. -/
def eval (host : Host) : Plan → Except Error Frame
  | scan s proj => readScan s proj
  | step op x => x.eval host >>= (op.run host)
  | join s l r => do
    let f ← l.eval host
    let g ← r.eval host
    Join.joined host f g s
  | cache _ x => x.eval host

def caches : Plan → List (Nat × Plan)
  | scan .. => []
  | step _ x => x.caches
  | join _ l r => l.caches ++ r.caches
  | cache id x => (id, x) :: x.caches

/-- No number stands for two subplans. -/
def Settled (p : Plan) : Prop := ∀ id x y, (id, x) ∈ p.caches → (id, y) ∈ p.caches → x = y

def Kept (host : Host) (all : List (Nat × Plan)) (t : Trace) : Prop :=
  ∀ id f, t.cached.lookup id = some f → ∃ x, (id, x) ∈ all ∧ x.eval host = .ok f

theorem kept_empty (host : Host) (all : List (Nat × Plan)) : Kept host all .empty := nofun

theorem lookup_filter_ne {entries : List (Nat × Frame)} {id id' : Nat} (h : id' ≠ id) :
    (entries.filter (·.1 != id)).lookup id' = entries.lookup id' := by
  induction entries with
  | nil => rfl
  | cons e es ih =>
    by_cases hid : e.1 = id
    · rw [List.filter_cons_of_neg (by simpa using hid), ih, List.lookup_cons, beq_false_of_ne (hid ▸ h)]
    · rw [List.filter_cons_of_pos (by simpa using hid), List.lookup_cons, List.lookup_cons, ih]

theorem Kept.keep {host : Host} {all : List (Nat × Plan)} {t : Trace} (h : Kept host all t) {id : Nat}
    {x : Plan} {f : Frame} (hx : (id, x) ∈ all) (hf : x.eval host = .ok f) : Kept host all (t.keep id f) := by
  intro id' f' hf'
  by_cases hid : id' = id
  · subst hid
    rw [Trace.keep, List.lookup_cons_self] at hf'
    cases hf'
    exact ⟨x, hx, hf⟩
  · rw [Trace.keep, List.lookup_cons, beq_false_of_ne hid] at hf'
    exact h id' f' (lookup_filter_ne hid ▸ hf')

def Yields (host : Host) (all : List (Nat × Plan)) (x : Run α) (out : Except Error α) : Prop :=
  ∀ t, Kept host all t → (x.run.run t).1 = out ∧ Kept host all (x.run.run t).2

namespace Yields

variable {host : Host} {all : List (Nat × Plan)}

theorem bind {x : Run α} {out : Except Error α} {k : α → Run β} {k' : α → Except Error β}
    (hx : Yields host all x out) (hk : ∀ a, out = .ok a → Yields host all (k a) (k' a)) :
    Yields host all (x >>= k) (out >>= k') := by
  intro t ht
  obtain ⟨hout, kept⟩ := hx t ht
  simp only [ExceptT.run_bind, StateT.run_bind]
  cases hr : x.run.run t with
  | mk res t' =>
    rw [hr] at hout kept
    subst hout
    cases res with
    | ok a => exact hk a rfl t' kept
    | error e => exact ⟨rfl, kept⟩

theorem pure (a : α) : Yields host all (Pure.pure a) (.ok a) := fun _ ht => ⟨rfl, ht⟩

theorem ofExcept (x : Except Error α) : Yields host all (Run.ofExcept x) x := fun _ ht => ⟨rfl, ht⟩

theorem after {change : Trace → Trace} (h : ∀ t, Kept host all t → Kept host all (change t))
    {k : Unit → Run α} {out : Except Error α} (hk : Yields host all (k ()) out) :
    Yields host all (modify change >>= k) out := fun t ht => hk (change t) (h t ht)

theorem finish (name : String) (rows : Nat) (out : Except Error Frame) :
    Yields host all (Run.finish name rows out) out := by
  have h : Yields host all (Run.finish name rows out) (out >>= .ok) :=
    (ofExcept out).bind fun f _ => by
      refine after (fun t ht => ?_) (pure f)
      exact ht
  cases out <;> exact h

theorem input (id : Nat) {x : Run Frame} {out : Except Error Frame} (hx : Yields host all x out) :
    Yields host all (Run.input id x) out := by
  have h : Yields host all (Run.input id x) (out >>= .ok) :=
    hx.bind fun f _ => by
      refine after (fun t ht => ?_) (pure f)
      exact ht
  cases out <;> exact h

end Yields

theorem run_cache (host : Host) (id : Nat) (x : Plan) (t : Trace) :
    ((cache id x).run host).run.run t = match t.cached.lookup id with
      | some f => (Run.finish "cache" f.height (.ok f)).run.run t
      | none => ((Run.input id (x.run host) >>= fun f => modify (·.keep id f) >>= fun _ =>
        Run.finish "cache" f.height (.ok f)) : Run Frame).run.run t := by
  rw [run]
  change ((match t.cached.lookup id with | some f => _ | none => _) : Run Frame).run.run t = _
  cases t.cached.lookup id <;> rfl

theorem run_yields (host : Host) {all : List (Nat × Plan)}
    (one : ∀ id x y, (id, x) ∈ all → (id, y) ∈ all → x = y) (p : Plan) (h : ∀ c ∈ p.caches, c ∈ all) :
    Yields host all (p.run host) (p.eval host) := by
  induction p with
  | scan s proj =>
    have finished : Yields host all ((scan s proj).run host) (readScan s proj >>= .ok) :=
      (Yields.ofExcept _).bind fun f _ => .finish "scan" f.height (.ok f)
    rw [eval]
    cases hr : readScan s proj <;> rw [hr] at finished <;> exact finished
  | step op x ih =>
    refine (ih h).bind fun f _ => .after (fun t ht => ?_) (.finish op.name f.height (op.run host f))
    exact ht
  | join s l r ihl ihr =>
    obtain ⟨hl, hr⟩ := List.forall_mem_append.1 h
    refine (ihl hl).bind fun f _ => (ihr hr).bind fun g _ => ?_
    change Yields host all (Run.ofExcept (Join.run host f g s) >>= fun out =>
      (modify fun t => { t with strategies := t.strategies.push out.1 }) >>= fun _ =>
        Run.finish "join" (f.height + g.height) (.ok out.2)) _
    have joined : Join.joined host f g s = Join.run host f g s >>= fun out => .ok out.2 := by
      rw [Join.joined]
      cases Join.run host f g s <;> rfl
    rw [joined]
    refine (Yields.ofExcept _).bind fun out _ => .after (fun t ht => ?_) (.finish _ _ _)
    exact ht
  | cache id x ih =>
    obtain ⟨here, below⟩ := List.forall_mem_cons.1 h
    intro t ht
    rw [run_cache, eval]
    cases hl : t.cached.lookup id with
    | some f =>
      obtain ⟨y, hy, hf⟩ := ht id f hl
      rw [one id x y here hy, hf]
      exact Yields.finish _ _ _ t ht
    | none =>
      have computed : Yields host all (Run.input id (x.run host) >>= fun f => modify (·.keep id f) >>= fun _ =>
          Run.finish "cache" f.height (.ok f)) (x.eval host >>= .ok) :=
        ((ih below).input id).bind fun f hf => .after (fun t ht => ht.keep here hf) (.finish _ _ _)
      cases hx : x.eval host <;> rw [hx] at computed <;> exact computed t ht

/-- A plan gives what its nodes give, if no number stands for two of its subplans. -/
theorem result_eq_eval (host : Host) {p : Plan} (h : p.Settled) : p.result host = p.eval host :=
  (run_yields host h p (fun _ hc => hc) .empty (kept_empty host _)).1

end Columnar.Plan
