import Columnar.Proofs.Naming
import Columnar.Proofs.Schemas
import Columnar.Proofs.Chaining

/-!
The names of hidden columns. Each is the first free one from the number of those before it on, so that two
columns meet in one name if the first of them had to pass over a taken one.
-/

namespace Columnar

namespace Sharing

theorem fresh_spec (s : Sharing) (count : Nat) :
    ∃ n, s.fresh count = hiddenName n ∧ count ≤ n ∧ hiddenName n ∉ s.taken ∧
      ∀ m, count ≤ m → m < n → hiddenName m ∈ s.taken := by
  obtain ⟨name, hname, free⟩ := exists_fresh (f := hiddenName) (fun _ _ => hiddenName_injective) s.taken count
  obtain ⟨k, hk, rfl⟩ := List.mem_map.1 hname
  have found : ((List.range' count (s.taken.length + 1)).find? fun n => !s.taken.contains (hiddenName n)).isSome :=
    List.find?_isSome.2 ⟨k, hk, by simpa using free⟩
  obtain ⟨n, hn⟩ := Option.isSome_iff_exists.1 found
  have fresh : s.fresh count = hiddenName n := by
    rw [Sharing.fresh, List.find?_map]
    exact congrArg (fun found => (found.map hiddenName).getD (hiddenName count)) hn
  obtain ⟨notTaken, mem, before⟩ := List.find?_range'_eq_some.1 hn
  refine ⟨n, fresh, (List.mem_range'_1.1 mem).1, by simpa using notTaken, fun m lower upper => ?_⟩
  simpa using before m lower upper

theorem fresh_not_taken (s : Sharing) (count : Nat) : s.fresh count ∉ s.taken := by
  obtain ⟨n, fresh, -, free, -⟩ := s.fresh_spec count
  exact fresh ▸ free

theorem fresh_of_free {s : Sharing} {n : Nat} (free : hiddenName n ∉ s.taken) : s.fresh n = hiddenName n := by
  obtain ⟨i, hi, lower, -, before⟩ := s.fresh_spec n
  rcases Nat.lt_or_eq_of_le lower with lt | rfl
  · exact absurd (before n (Nat.le_refl n) lt) free
  · exact hi

theorem fresh_of_taken {s : Sharing} {n : Nat} (taken : hiddenName n ∈ s.taken) :
    s.fresh n = s.fresh (n + 1) := by
  obtain ⟨i, hi, lower, free, before⟩ := s.fresh_spec n
  obtain ⟨j, hj, lower', free', before'⟩ := s.fresh_spec (n + 1)
  have past : i ≠ n := fun h => free (h ▸ taken)
  rcases Nat.lt_trichotomy i j with lt | rfl | lt
  · exact absurd (before' i (by omega) lt) free
  · rw [hi, hj]
  · exact absurd (before j (by omega) lt) free'

theorem nodup_fresh_iff (s : Sharing) (total : Nat) :
    ((List.range total).map s.fresh).Nodup ↔ ∀ n, n + 1 < total → hiddenName n ∉ s.taken := by
  constructor
  · intro nodup n hn taken
    have next := List.inj_on_of_nodup_map nodup (List.mem_range.2 (Nat.lt_of_succ_lt hn)) (List.mem_range.2 hn)
      (fresh_of_taken taken)
    omega
  · intro free
    -- A count before the last one gets its own number, and the last one no smaller number.
    have apart {m n : Nat} (hmn : m < n) (hn : n < total) : s.fresh m ≠ s.fresh n := by
      obtain ⟨j, hj, lower, -, -⟩ := s.fresh_spec n
      rw [fresh_of_free (free m (by omega)), hj]
      intro same
      have := hiddenName_injective same
      omega
    refine List.nodup_range.map_on fun m hm n hn same => ?_
    rcases Nat.lt_trichotomy m n with lt | rfl | lt
    · exact absurd same (apart lt (List.mem_range.1 hn))
    · rfl
    · exact absurd same.symm (apart lt (List.mem_range.1 hm))

def Counted (s : Sharing) (hidden : Hidden) : Prop :=
  hidden.map (·.1) = (List.range hidden.length).map s.fresh

def KeepsCount (s : Sharing) (m : StateM Hidden α) : Prop :=
  ∀ before, s.Counted before → s.Counted (m.run before).2

namespace KeepsCount

variable {s : Sharing}

theorem pure (a : α) : s.KeepsCount (Pure.pure a) := fun _ h => h

theorem bind {m : StateM Hidden α} {k : α → StateM Hidden β} (hm : s.KeepsCount m)
    (hk : ∀ a, s.KeepsCount (k a)) : s.KeepsCount (m >>= k) :=
  fun before h => hk (m.run before).1 (m.run before).2 (hm before h)

theorem map {m : StateM Hidden α} (f : α → β) (hm : s.KeepsCount m) : s.KeepsCount (f <$> m) := by
  rw [map_eq_pure_bind]
  exact hm.bind fun a => pure (f a)

theorem mapM {f : α → StateM Hidden β} {xs : List α} (h : ∀ x ∈ xs, s.KeepsCount (f x)) :
    s.KeepsCount (xs.mapM f) := by
  induction xs with
  | nil =>
    rw [List.mapM_nil]
    exact pure []
  | cons x xs ih =>
    rw [List.forall_mem_cons] at h
    rw [List.mapM_cons]
    exact h.1.bind fun y => (ih h.2).bind fun ys => pure (y :: ys)

end KeepsCount

theorem share_keepsCount (s : Sharing) (e : Expr) : s.KeepsCount (s.share e) := by
  intro before counted
  cases found : before.find? (·.2.text == e.text) with
  | some h =>
    rw [run_share_found s found]
    exact counted
  | none =>
    rw [run_share_new s found, Counted, List.map_append, counted, List.length_append, List.length_singleton,
      List.range_succ, List.map_append]
    rfl

theorem replace_keepsCount (s : Sharing) (blocked : List String) (e : Expr) :
    s.KeepsCount (s.replace blocked e) := by
  induction e using Expr.parts_induction with
  | step e ih =>
    rw [replace_eq]
    split
    · exact s.share_keepsCount e
    · exact (KeepsCount.mapM ih).map _

theorem replaceNamed_keepsCount (s : Sharing) (blocked : List String) (e : Expr) :
    s.KeepsCount (s.replaceNamed blocked e) :=
  (s.replace_keepsCount blocked e).bind fun _ => .pure _

end Sharing

theorem Operator.replaceShared_keepsCount (s : Sharing) (blocked : List String) (op : Operator) :
    s.KeepsCount (op.replaceShared s blocked) := by
  cases op with
  | project es => exact (Sharing.KeepsCount.mapM fun e _ => s.replaceNamed_keepsCount blocked e).map _
  | groupBy keys aggs => exact (Sharing.KeepsCount.mapM fun e _ => s.replaceNamed_keepsCount blocked e).map _
  | filter e => exact (s.replace_keepsCount blocked e).map _
  | withColumn e => exact (s.replaceNamed_keepsCount blocked e).map _
  | sort | limit | tail | distinct | pivot | melt | apply => exact .pure _

namespace Plan

variable {ops : List Operator} {base : Plan}

def sharing (ops : List Operator) (base : Plan) : Sharing :=
  ⟨repeatedTexts (blockedBelow ops), base.columns?.getD [] ++ ops.filterMap (·.defines?)⟩

def hiddenColumns (ops : List Operator) (base : Plan) : Sharing.Hidden :=
  (replaceChain (sharing ops base) (blockedBelow ops)).2

theorem shareChain_hides (ops : List Operator) (output : Option (List String)) (base : Plan) :
    shareChain ops output base = stack ops base ∨
      ∃ top, shareChain ops output base = stack top (hide (hiddenColumns ops base) base) := by
  unfold shareChain
  simp only
  split
  · exact .inl rfl
  · split
    · exact .inr ⟨.project _ :: (replaceChain (sharing ops base) (blockedBelow ops)).1, rfl⟩
    · exact .inr ⟨_, rfl⟩

theorem hiddenColumns_counted (ops : List Operator) (base : Plan) :
    (sharing ops base).Counted (hiddenColumns ops base) :=
  Sharing.KeepsCount.mapM (fun c _ => c.1.replaceShared_keepsCount (sharing ops base) c.2) [] rfl

theorem exists_fresh_of_hidden {h : String × Expr} (mem : h ∈ hiddenColumns ops base) :
    ∃ count, (sharing ops base).fresh count = h.1 := by
  have counted : h.1 ∈ (hiddenColumns ops base).map (·.1) := List.mem_map_of_mem mem
  rw [hiddenColumns_counted] at counted
  obtain ⟨count, -, fresh⟩ := List.mem_map.1 counted
  exact ⟨count, fresh⟩

theorem hiddenColumns_not_taken {h : String × Expr} (mem : h ∈ hiddenColumns ops base) :
    h.1 ∉ base.columns?.getD [] ∧ h.1 ∉ ops.filterMap (·.defines?) := by
  obtain ⟨count, fresh⟩ := exists_fresh_of_hidden mem
  have free := (sharing ops base).fresh_not_taken count
  rw [fresh] at free
  exact ⟨fun here => free (List.mem_append_left _ here), fun here => free (List.mem_append_right _ here)⟩

/-- Two hidden columns get one name exactly if a name before that of the last one was taken. -/
theorem nodup_hiddenColumns_iff (ops : List Operator) (base : Plan) :
    ((hiddenColumns ops base).map (·.1)).Nodup ↔ ∀ n, n + 1 < (hiddenColumns ops base).length →
      Sharing.hiddenName n ∉ base.columns?.getD [] ++ ops.filterMap (·.defines?) := by
  rw [hiddenColumns_counted]
  exact (sharing ops base).nodup_fresh_iff _

/-- The hidden columns of a chain have names of their own, apart from those that the chain sets and from those
that its base gives, if no name before that of the last one was taken and a base that does not tell of its
columns gives none of such a name. -/
theorem hiddenColumns_fresh (truthful : base.Truthful)
    (free : ∀ n, n + 1 < (hiddenColumns ops base).length →
      Sharing.hiddenName n ∉ base.columns?.getD [] ++ ops.filterMap (·.defines?)) :
    (∀ output, shareChain ops output base = stack ops base ∨
      ∃ top, shareChain ops output base = stack top (hide (hiddenColumns ops base) base)) ∧
    ((hiddenColumns ops base).map (·.1)).Nodup ∧
    (∀ name ∈ (hiddenColumns ops base).map (·.1), ∃! e, (name, e) ∈ hiddenColumns ops base) ∧
    (∀ h ∈ hiddenColumns ops base, h.1 ∉ ops.filterMap (·.defines?)) ∧
    ∀ host f, base.eval host = .ok f → (base.columns? = none → ∀ n, Sharing.hiddenName n ∉ f.names) →
      ∀ h ∈ hiddenColumns ops base, h.1 ∉ f.names := by
  have nodup := (nodup_hiddenColumns_iff ops base).2 free
  refine ⟨fun output => shareChain_hides ops output base, nodup, fun name mem => ?_,
    fun h mem => (hiddenColumns_not_taken mem).2, fun host f hf unknown h mem here => ?_⟩
  · obtain ⟨h, here, rfl⟩ := List.mem_map.1 mem
    refine ⟨h.2, here, fun e he => ?_⟩
    have same : (h.1, e) = h := List.inj_on_of_nodup_map nodup he here rfl
    exact congrArg (·.2) same
  · cases told : base.columns? with
    | none =>
      obtain ⟨count, hcount⟩ := exists_fresh_of_hidden mem
      obtain ⟨n, fresh, -⟩ := (sharing ops base).fresh_spec count
      exact unknown told n (fresh ▸ hcount ▸ here)
    | some names =>
      have notTaken := (hiddenColumns_not_taken mem).1
      rw [told, Option.getD_some] at notTaken
      exact notTaken (eval_names truthful hf names told ▸ here)

def usedTwice : Operator :=
  .project [.named (.binary .or (.not (.column "a")) (.isNull (.column "a"))) "x",
    .named (.binary .and (.not (.column "a")) (.isNull (.column "a"))) "y"]

def besideNamed (name : String) : Plan :=
  read ⟨[⟨"a", .bool #[some false]⟩, ⟨name, .int64 #[some 7]⟩], 1⟩

theorem hiddenColumns_pastLast :
    (hiddenColumns [usedTwice] (besideNamed "__cse_1")).map (·.1) = ["__cse_0", "__cse_2"] ∧
    ∀ h ∈ hiddenColumns [usedTwice] (besideNamed "__cse_1"), h.1 ∉ ["a", "__cse_1"] := by
  have names : (hiddenColumns [usedTwice] (besideNamed "__cse_1")).map (·.1) = ["__cse_0", "__cse_2"] := by
    decide +kernel
  have truthful : (besideNamed "__cse_1").Truthful := by
    rintro _ _ ⟨⟩ ⟨⟩
    rfl
  have free : ∀ n, n + 1 < (hiddenColumns [usedTwice] (besideNamed "__cse_1")).length →
      Sharing.hiddenName n ∉ (besideNamed "__cse_1").columns?.getD [] ++ [usedTwice].filterMap (·.defines?) := by
    intro n hn
    have length : (hiddenColumns [usedTwice] (besideNamed "__cse_1")).length = 2 := by
      simpa using congrArg List.length names
    obtain rfl : n = 0 := by omega
    decide +kernel
  refine ⟨names, ?_⟩
  exact (hiddenColumns_fresh truthful free).2.2.2.2 Host.hashing _ rfl nofun

/-- A column of the first hidden name is there already, so that both hidden columns get the second one. -/
theorem hiddenColumns_oneName :
    ¬ ∀ (ops : List Operator) (base : Plan), base.Truthful → ((hiddenColumns ops base).map (·.1)).Nodup := by
  intro all
  have truthful : (besideNamed "__cse_0").Truthful := by
    rintro _ _ ⟨⟩ ⟨⟩
    rfl
  have names : (hiddenColumns [usedTwice] (besideNamed "__cse_0")).map (·.1) = ["__cse_1", "__cse_1"] := by
    decide +kernel
  have := all [usedTwice] (besideNamed "__cse_0") truthful
  rw [names] at this
  revert this
  decide

def untold : Plan :=
  ofSource ⟨"untold", none, none, none, fun _ =>
    .ok ⟨[⟨"a", .bool #[some false]⟩, ⟨"__cse_0", .int64 #[some 7]⟩], 1⟩⟩

theorem hiddenColumns_untold :
    ∃ f, untold.eval Host.hashing = .ok f ∧ ∃ h ∈ hiddenColumns [usedTwice] untold, h.1 ∈ f.names := by
  have first : (hiddenColumns [usedTwice] untold).head? = some ("__cse_0", .not (.column "a")) := by rfl
  exact ⟨_, rfl, _, List.mem_of_mem_head? first, by decide⟩

end Plan

end Columnar
