import Columnar.Proofs.Caching
import Columnar.Session

namespace Columnar

/-- What is asked of an engine: the frame of a plan, or to forget what it has kept. -/
inductive Request
  | execute (p : Plan)
  | clear

theorem Run.run_bind (x : Run α) (k : α → Run β) (t : Trace) :
    (x >>= k).run.run t =
      match x.run.run t with
      | (.ok a, t') => (k a).run.run t'
      | (.error e, t') => (.error e, t') := by
  rw [ExceptT.run_bind, StateT.run_bind]
  cases x.run.run t with
  | mk out t' => cases out <;> rfl

def Trace.resume (kept : List (Nat × Frame)) : Trace := { Trace.empty with cached := kept }

namespace Plan

/-- The outcome of a plan with frames kept from before, and the frames that are kept afterwards. -/
def answer (host : Host) (kept : List (Nat × Frame)) (p : Plan) : Except Error Frame × List (Nat × Frame) :=
  let (out, t) := (p.run host).run.run (.resume kept)
  (out, t.cached)

/-- The numbers of the cached nodes whose inputs a plan executes with success, with frames kept from before. -/
def executed (host : Host) (kept : List (Nat × Frame)) (p : Plan) : List Nat :=
  ((p.run host).run.run (.resume kept)).2.executed.toList

/-- A run that preserves a property of what is kept and what was executed. -/
def Lasts (I : List (Nat × Frame) → Array Nat → Prop) (x : Run α) : Prop :=
  ∀ t, I t.cached t.executed → I (x.run.run t).2.cached (x.run.run t).2.executed

section

variable {I : List (Nat × Frame) → Array Nat → Prop} {host : Host}

theorem Lasts.ofExcept (x : Except Error α) : Lasts I (Run.ofExcept x) := fun _ h => h

theorem Lasts.bind {x : Run α} {k : α → Run β} (hx : Lasts I x) (hk : ∀ a, Lasts I (k a)) : Lasts I (x >>= k) := by
  intro t h
  have first := hx t h
  rw [Run.run_bind]
  cases hr : x.run.run t with
  | mk out t' =>
    rw [hr] at first
    cases out with
    | ok a => exact hk a t' first
    | error e => exact first

theorem Lasts.modify {change : Trace → Trace} (kept : ∀ t, (change t).cached = t.cached)
    (executed : ∀ t, (change t).executed = t.executed) : Lasts I (MonadState.modifyGet fun t => ((), change t)) := by
  intro t h
  change I (change t).cached (change t).executed
  rwa [kept, executed]

theorem Lasts.finish (name : String) (rows : Nat) (out : Except Error Frame) : Lasts I (Run.finish name rows out) :=
  (ofExcept out).bind fun _ => .bind (.modify (fun _ => rfl) fun _ => rfl) fun _ _ h => h

theorem run_miss (host : Host) (id : Nat) (x : Plan) {t : Trace} (absent : t.cached.lookup id = none) :
    ∃ t', ((cache id x).run host).run.run t = (((x.run host).run.run t).1, t') ∧
      match (x.run host).run.run t with
      | (.ok f, u) => t'.cached = (u.keep id f).cached ∧ t'.executed = u.executed.push id
      | (.error _, u) => t' = u := by
  rw [run_cache, absent]
  simp only [Run.input, Run.run_bind]
  cases (x.run host).run.run t with
  | mk out t' => cases out <;> exact ⟨_, rfl, by trivial⟩

/-- A property lasts over a plan if it does over each input that is executed because it is not kept. -/
theorem lasts_run (p : Plan)
    (miss : ∀ id x, (id, x) ∈ p.caches → ∀ t f u, t.cached.lookup id = none → (x.run host).run.run t = (.ok f, u) →
      I t.cached t.executed → I u.cached u.executed → I (u.keep id f).cached (u.executed.push id)) :
    Lasts I (p.run host) := by
  induction p with
  | scan s proj => exact (Lasts.ofExcept _).bind fun _ => .finish _ _ _
  | step op x ih => exact (ih miss).bind fun _ => .bind (.modify (fun _ => rfl) fun _ => rfl) fun _ => .finish _ _ _
  | join s l r ihl ihr =>
    have left := ihl fun id x hx => miss id x (List.mem_append_left _ hx)
    have right := ihr fun id x hx => miss id x (List.mem_append_right _ hx)
    refine left.bind fun f => right.bind fun g => ?_
    exact (Lasts.ofExcept (Join.run host f g s)).bind fun _ =>
      .bind (.modify (fun _ => rfl) fun _ => rfl) fun _ => .finish _ _ _
  | cache id x ih =>
    intro t h
    have inner := ih (fun id y hy => miss id y (List.mem_cons_of_mem _ hy)) t h
    cases found : t.cached.lookup id with
    | some f =>
      rw [run_cache, found]
      exact Lasts.finish _ _ _ t h
    | none =>
      obtain ⟨t', ran, left⟩ := run_miss host id x found
      rw [ran]
      cases hx : (x.run host).run.run t with
      | mk out u =>
        rw [hx] at left inner
        cases out with
        | ok f =>
          obtain ⟨kept, executed⟩ := left
          change I t'.cached t'.executed
          rw [kept, executed]
          exact miss id x List.mem_cons_self t f u found hx h inner
        | error e =>
          change t' = u at left
          exact left ▸ inner

theorem sizeOf_of_mem_caches {p x : Plan} {id : Nat} (h : (id, x) ∈ p.caches) : sizeOf x < sizeOf p := by
  induction p with
  | scan s proj => cases h
  | step op y ih =>
    have := ih h
    simp only [step.sizeOf_spec]
    omega
  | join s l r ihl ihr =>
    simp only [join.sizeOf_spec]
    rcases List.mem_append.1 h with h | h
    · have := ihl h
      omega
    · have := ihr h
      omega
  | cache id' y ih =>
    simp only [cache.sizeOf_spec]
    rcases List.mem_cons.1 h with h | h
    · cases h
      omega
    · have := ih h
      omega

theorem exists_of_mem_executed {p : Plan} {t : Trace} {id : Nat}
    (h : id ∈ ((p.run host).run.run t).2.executed) : id ∈ t.executed ∨ ∃ x, (id, x) ∈ p.caches := by
  have own : Lasts (fun _ executed => ∀ id ∈ executed, id ∈ t.executed ∨ ∃ x, (id, x) ∈ p.caches) (p.run host) := by
    refine lasts_run p fun id x hx t f u _ _ _ inner id' hid' => ?_
    rcases Array.mem_push.1 hid' with before | rfl
    · exact inner id' before
    · exact .inr ⟨x, hx⟩
  exact own t (fun _ => .inl) id h

theorem mem_caches_trans {p x : Plan} {id : Nat} (h : (id, x) ∈ p.caches) : ∀ c ∈ x.caches, c ∈ p.caches := by
  induction p with
  | scan s proj => cases h
  | step op y ih => exact ih h
  | join s l r ihl ihr =>
    rcases List.mem_append.1 h with h | h
    · exact fun c hc => List.mem_append_left _ (ihl h c hc)
    · exact fun c hc => List.mem_append_right _ (ihr h c hc)
  | cache id' y ih =>
    rcases List.mem_cons.1 h with h | h
    · cases h
      exact fun c hc => List.mem_cons_of_mem _ hc
    · exact fun c hc => List.mem_cons_of_mem _ (ih h c hc)

theorem mem_executed_of_below {all : List (Nat × Plan)} (one : ∀ id x y, (id, x) ∈ all → (id, y) ∈ all → x = y)
    {id : Nat} {x : Plan} (here : (id, x) ∈ all) (below : ∀ c ∈ x.caches, c ∈ all) {t : Trace}
    (h : id ∈ ((x.run host).run.run t).2.executed) : id ∈ t.executed := by
  rcases exists_of_mem_executed h with before | ⟨y, hy⟩
  · exact before
  · have lt := sizeOf_of_mem_caches hy
    rw [one id y x (below _ hy) here] at lt
    exact absurd lt (Nat.lt_irrefl _)

theorem lookup_eq_none {entries : List (Nat × Frame)} {id : Nat} :
    entries.lookup id = none ↔ id ∉ entries.map (·.1) := by
  rw [List.lookup_eq_none_iff, List.mem_map]
  constructor
  · rintro h ⟨e, he, rfl⟩
    simpa using h e he
  · intro h e he
    exact bne_iff_ne.2 fun hid => h ⟨e, he, hid.symm⟩

theorem map_fst_keep {t : Trace} {id : Nat} (fresh : id ∉ t.cached.map (·.1)) (f : Frame) :
    (t.keep id f).cached.map (·.1) = id :: t.cached.map (·.1) := by
  have all : t.cached.filter (·.1 != id) = t.cached := by
    rw [List.filter_eq_self]
    intro e he
    exact bne_iff_ne.2 fun hid => fresh (List.mem_map.2 ⟨e, he, hid⟩)
  rw [Trace.keep, all, List.map_cons]

/-- What is kept is what was kept before and, above it, what was executed since, nothing twice. -/
structure Recorded (before : List Nat) (kept : List (Nat × Frame)) (executed : Array Nat) : Prop where
  names : kept.map (·.1) = executed.toList.reverse ++ before
  distinct : (kept.map (·.1)).Nodup

theorem recorded_run {all : List (Nat × Plan)} (one : ∀ id x y, (id, x) ∈ all → (id, y) ∈ all → x = y) (p : Plan)
    (sub : ∀ c ∈ p.caches, c ∈ all) (before : List Nat) : Lasts (Recorded before) (p.run host) := by
  refine lasts_run p fun id x hx t f u absent ran start inner => ?_
  have fresh : id ∉ u.cached.map (·.1) := by
    have new := lookup_eq_none.1 absent
    rw [start.names, List.mem_append, List.mem_reverse, not_or] at new
    rw [inner.names, List.mem_append, List.mem_reverse, not_or]
    refine ⟨fun again => new.1 (Array.mem_def.1 ?_), new.2⟩
    have below := fun c hc => sub c (mem_caches_trans hx c hc)
    exact mem_executed_of_below one (sub _ hx) below (by rw [ran]; exact Array.mem_def.2 again)
  have kept := map_fst_keep fresh f
  constructor
  · rw [kept, inner.names, Array.toList_push, List.reverse_concat]
    rfl
  · rw [kept]
    exact List.nodup_cons.2 ⟨fresh, inner.distinct⟩

end

end Plan

theorem Session.collect_eq_answer {s : Session} {p q : Plan} (h : s.plan p = .ok q) :
    (s.collect p).1 = (q.answer s.host s.cached).1 ∧ (s.collect p).2.cached = (q.answer s.host s.cached).2 := by
  rw [Session.collect, h]
  exact ⟨rfl, rfl⟩

namespace Request

def caches : Request → List (Nat × Plan)
  | execute p => p.caches
  | clear => []

def serve (host : Host) (kept : List (Nat × Frame)) : Request → List (Nat × Frame)
  | execute p => (p.answer host kept).2
  | clear => []

def kept (host : Host) (rs : List Request) : List (Nat × Frame) := rs.foldl (serve host) []

def executed (host : Host) (kept : List (Nat × Frame)) : List Plan → List Nat
  | [] => []
  | p :: ps => p.executed host kept ++ executed host (p.answer host kept).2 ps

/-- Frames under distinct numbers, each what the subplan of its number gives. -/
structure Coherent (host : Host) (all : List (Nat × Plan)) (kept : List (Nat × Frame)) : Prop where
  right : ∀ id f, kept.lookup id = some f → ∃ x, (id, x) ∈ all ∧ x.eval host = .ok f
  distinct : (kept.map (·.1)).Nodup

variable {host : Host} {all : List (Nat × Plan)} {kept : List (Nat × Frame)}

theorem coherent_nil : Coherent host all [] := ⟨nofun, .nil⟩

theorem Coherent.recorded (one : ∀ id x y, (id, x) ∈ all → (id, y) ∈ all → x = y) (h : Coherent host all kept)
    {p : Plan} (sub : ∀ c ∈ p.caches, c ∈ all) :
    Plan.Recorded (kept.map (·.1)) (p.answer host kept).2 (p.executed host kept).toArray :=
  Plan.recorded_run one p sub (kept.map (·.1)) (.resume kept) ⟨rfl, h.distinct⟩

theorem Coherent.answer (one : ∀ id x y, (id, x) ∈ all → (id, y) ∈ all → x = y) (h : Coherent host all kept)
    {p : Plan} (sub : ∀ c ∈ p.caches, c ∈ all) :
    (p.answer host kept).1 = p.eval host ∧ Coherent host all (p.answer host kept).2 := by
  obtain ⟨out, right⟩ := Plan.run_yields host one p sub (.resume kept) h.right
  exact ⟨out, right, (h.recorded one sub).distinct⟩

theorem Coherent.serve (one : ∀ id x y, (id, x) ∈ all → (id, y) ∈ all → x = y) (h : Coherent host all kept)
    {r : Request} (sub : ∀ c ∈ r.caches, c ∈ all) : Coherent host all (r.serve host kept) := by
  cases r with
  | execute p => exact (h.answer one sub).2
  | clear => exact coherent_nil

theorem coherent_kept (one : ∀ id x y, (id, x) ∈ all → (id, y) ∈ all → x = y) (rs : List Request)
    (sub : ∀ c ∈ rs.flatMap caches, c ∈ all) : Coherent host all (Request.kept host rs) := by
  suffices served : ∀ k, Coherent host all k → Coherent host all (rs.foldl (Request.serve host) k) from
    served [] coherent_nil
  induction rs with
  | nil => exact fun k h => h
  | cons r rs ih =>
    rw [List.flatMap_cons, List.forall_mem_append] at sub
    exact fun k h => ih sub.2 _ (h.serve one sub.1)

end Request

end Columnar
