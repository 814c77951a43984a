import Columnar.Proofs.Carrying
import Columnar.Proofs.Pushing
import Mathlib.Data.List.Induction

namespace Columnar

theorem Sharing.hiddenName_injective {m n : Nat} (h : hiddenName m = hiddenName n) : m = n :=
  Operator.numbered_injective _ h

theorem Sharing.Tidy.nodup {kind : Expr → Prop} {hidden : Hidden} (h : Tidy kind hidden) :
    (hidden.map (·.1)).Nodup := by
  rw [h.names]
  exact List.nodup_range.map fun _ _ => hiddenName_injective

theorem Sharing.Tidy.exists_name {kind : Expr → Prop} {hidden : Hidden} (h : Tidy kind hidden) {name : String}
    {x : Expr} (mem : (name, x) ∈ hidden) : ∃ n, name = hiddenName n := by
  have mem : name ∈ hidden.map (·.1) := List.mem_map_of_mem mem
  rw [h.names] at mem
  obtain ⟨n, -, rfl⟩ := List.mem_map.1 mem
  exact ⟨n, rfl⟩

namespace Plan

variable {host : Host} {hidden : Sharing.Hidden} {ops ops' : List Operator} {base base' : Plan}

theorem hide_append (hidden : Sharing.Hidden) (h : String × Expr) (base : Plan) :
    hide (hidden ++ [h]) base = step (.withColumn (.named h.2 h.1)) (hide hidden base) := by
  rw [hide, List.foldl_append]
  rfl

theorem hide_carries {b b' : Frame} (hb : b.Sane) (hbase : base'.eval host = .ok b') (alike : b.Alike b')
    (nodup : (hidden.map (·.1)).Nodup) (free : ∀ h ∈ hidden, h.1 ∉ b.names)
    (values : ∀ h ∈ hidden, ∃ c, h.2.eval b = .ok c) :
    ∃ g, (hide hidden base').eval host = .ok g ∧ b.Carries hidden [] g := by
  induction hidden using List.reverseRecOn with
  | nil => exact ⟨b', hbase, ⟨hb, alike.symm.sane hb⟩, alike.offers _, nofun⟩
  | append_singleton hs h ih =>
    obtain ⟨name, x⟩ := h
    rw [List.forall_mem_append, List.forall_mem_singleton] at free values
    rw [List.map_append, List.nodup_append] at nodup
    obtain ⟨g, hg, carries⟩ := ih nodup.1 free.1 values.1
    obtain ⟨c, hc⟩ := values.2
    obtain ⟨d, hd, height, hcd⟩ := Expr.eval_alike hb.toCapped (carries.offers.whole x.columns)
      (fun _ hn => hn) c hc
    have tall : d.height = g.height := hcd.height.symm.trans (height.trans carries.offers.height)
    obtain ⟨g', hg'⟩ := Operator.setNamed_ok carries.sane.2 tall (carries.offers.height ▸ hb.short) name
    obtain ⟨sane, -, sets⟩ := Operator.setNamed_spec carries.sane.2 tall hcd.sound.2 hg'
    refine ⟨g', ?_, ⟨hb, sane⟩, ⟨carries.offers.height.trans sets.height.symm, fun n hn a ha => ?_⟩, ?_⟩
    · rw [hide_append]
      refine bind_eq_ok.2 ⟨g, hg, bind_eq_ok.2 ⟨d.rename name, ?_, hg'⟩⟩
      rw [Expr.evaluate, Expr.eval, hd]
      rfl
    · have apart : name ≠ n := by
        rintro rfl
        exact free.2 hn
      rw [sets.others n apart]
      exact carries.offers.columns n hn a ha
    · intro name' x' mem candidate
      rcases List.mem_append.1 mem with mem | mem
      · have apart : name ≠ name' := fun same =>
          nodup.2.2 name' (List.mem_map_of_mem mem) name List.mem_cons_self same.symm
        have held := carries.held name' x' mem candidate
        simp only [Expr.Alongside, Expr.eval, Frame.column] at held ⊢
        rwa [sets.others name' apart]
      · obtain ⟨rfl, rfl⟩ := Prod.mk.inj (List.mem_singleton.1 mem)
        simp only [Expr.Alongside, Expr.eval, Frame.column]
        rw [sets.found, hc]
        exact .ok ((hcd.rename _ name').local height)

theorem filterMap_defines (op : Operator) (ops : List Operator) :
    (op :: ops).filterMap (·.defines?) = op.defines?.toList ++ ops.filterMap (·.defines?) := by
  rw [List.filterMap_cons]
  cases op.defines? <;> rfl

theorem faithful_stack : (stack ops base).Faithful ↔ (∀ op ∈ ops, op.Deterministic) ∧ base.Faithful := by
  induction ops with
  | nil => simp [stack]
  | cons op ops ih =>
    rw [List.forall_mem_cons, and_assoc, ← ih]
    rfl

theorem stack_carries (chains : ∀ op ∈ ops, op.chains) (det : ∀ op ∈ ops, op.Deterministic)
    (shares : List.Forall₂ (fun c op' => c.1.Shares hidden c.2 op') (blockedBelow ops) ops')
    (free : ∀ name x, (name, x) ∈ hidden → ∀ op ∈ ops, op.defines? ≠ some name)
    (h : Follows (Frame.Carries hidden []) (base.eval host) (base'.eval host)) :
    Follows (Frame.Carries hidden (ops.filterMap (·.defines?))) ((stack ops base).eval host)
      ((stack ops' base').eval host) := by
  induction ops generalizing ops' with
  | nil =>
    cases shares
    exact h
  | cons op ops ih =>
    rw [List.forall_mem_cons] at chains det
    rw [blockedBelow] at shares
    cases shares with
    | cons hop rest =>
      have below := ih chains.2 det.2 rest fun name x mem op hop => free name x mem op (List.mem_cons_of_mem _ hop)
      refine below.bind fun f g hfg => (Operator.run_moved det.1 chains.1 hfg hop).mono fun f' g' _ _ moved => ?_
      rw [filterMap_defines]
      refine hfg.moved (fun name x mem defined => ?_) moved
      exact free name x mem op List.mem_cons_self (Option.mem_toList.1 defined)

section

variable {b f : Frame} (faithful : (stack ops base).Faithful) (hb : base.eval host = .ok b)
  (hf : (stack ops base).eval host = .ok f)

include faithful hb hf

theorem exists_eval_below (chains : ∀ op ∈ ops, op.chains) {x : Expr}
    (free : ∀ n ∈ x.columns, n ∉ ops.filterMap (·.defines?)) (hx : ∃ c, x.eval f = .ok c) :
    ∃ c, x.eval b = .ok c := by
  induction ops generalizing f with
  | nil =>
    obtain rfl : b = f := Except.ok.inj (hb.symm.trans hf)
    exact hx
  | cons op ops ih =>
    rw [List.forall_mem_cons] at chains
    simp only [filterMap_defines, List.mem_append, not_or] at free
    obtain ⟨f₁, hf₁, hf⟩ := bind_eq_ok.1 hf
    have sane : f₁.Sane := eval_sane faithful.2 hf₁
    obtain ⟨f₂, _, -, -, rows, moves, -⟩ := Operator.run_moved faithful.1 chains.1 (.self sane []) (.refl op) f hf
    obtain ⟨c, hc⟩ := hx
    obtain ⟨d, hd, -⟩ := (Expr.eval_moves moves x fun n hn => (free n hn).1).follows_back c hc
    exact ih faithful.2 hf₁ chains.2 (fun n hn => (free n hn).2) ⟨d, hd⟩

theorem exists_eval_candidate (chains : ∀ op ∈ ops.tail, op.chains) {c : Operator × List String}
    (hc : c ∈ blockedBelow ops) {e : Expr} (he : e ∈ c.1.sharingExprs) {x : Expr} (hx : x ∈ e.nodes)
    (candidate : x.isCandidate c.2) : ∃ v, x.eval b = .ok v := by
  induction ops generalizing f with
  | nil => cases hc
  | cons op ops ih =>
    obtain ⟨f₁, hf₁, hf⟩ := bind_eq_ok.1 hf
    rcases List.mem_cons.1 hc with rfl | hc
    · obtain ⟨worth, free⟩ := Expr.candidate_iff.1 candidate
      exact exists_eval_below faithful.2 hb hf₁ chains free (Operator.exists_eval_of_run hf he hx worth)
    · exact ih faithful.2 hf₁ (fun op hop => chains op (List.mem_of_mem_tail hop)) hc

end

theorem exists_eval_base {f : Frame} (hf : (stack ops base).eval host = .ok f) :
    ∃ b, base.eval host = .ok b := by
  induction ops generalizing f with
  | nil => exact ⟨f, hf⟩
  | cons op ops ih =>
    obtain ⟨f₁, hf₁, -⟩ := bind_eq_ok.1 hf
    exact ih hf₁

theorem stack_follows (faithful : (stack ops base).Faithful) (faithful' : base'.Faithful)
    (h : Follows Frame.Alike (base.eval host) (base'.eval host)) :
    Follows Frame.Alike ((stack ops base).eval host) ((stack ops base').eval host) := by
  induction ops with
  | nil => exact h
  | cons op ops ih =>
    have det := (faithful_stack.1 faithful).1
    exact step_follows faithful.1 faithful.2
      (faithful_stack.2 ⟨fun op hop => det op (List.mem_cons_of_mem _ hop), faithful'⟩) (ih faithful.2)

theorem stack_headed {op : Operator} (heads : op.heads) (chains : ∀ op ∈ ops, op.chains)
    (det : ∀ op ∈ ops, op.Deterministic)
    (shares : List.Forall₂ (fun c op' => c.1.Shares hidden c.2 op') (blockedBelow (op :: ops)) ops')
    (free : ∀ name x, (name, x) ∈ hidden → ∀ op ∈ ops, op.defines? ≠ some name)
    (apart : ∀ n ∈ op.named, ∀ k, n ≠ Operator.helperName k)
    (apart' : ∀ name x, (name, x) ∈ hidden → ∀ k, name ≠ Operator.helperName k)
    (h : Follows (Frame.Carries hidden []) (base.eval host) (base'.eval host)) :
    Follows Frame.Alike ((stack (op :: ops) base).eval host) ((stack ops' base').eval host) := by
  rw [blockedBelow] at shares
  cases shares with
  | cons hop rest =>
    exact (stack_carries chains det rest free h).bind fun f g hfg => Operator.run_headed heads hfg hop apart apart'

theorem project_carries {blocked : List String} {f g : Frame} (grounded : f.Grounded)
    (h : f.Carries hidden blocked g) :
    ∃ f', Operator.runProject host g (f.names.map .column) = .ok f' ∧ f.Alike f' := by
  have same := Operator.matches_self h.sane.1.toCapped
    (h.offers.whole (Operator.columnsOf (f.names.map .column))) fun e he => Operator.mem_columnsOf he
  obtain ⟨f', hf', built⟩ := Expr.project_built host same f (Expr.project_names host h.sane.1 grounded)
  exact ⟨f', hf', built.alike⟩

theorem fst_blockedBelow {c : Operator × List String} (h : c ∈ blockedBelow ops) : c.1 ∈ ops := by
  induction ops with
  | nil => cases h
  | cons op ops ih =>
    rcases List.mem_cons.1 h with rfl | h
    · exact List.mem_cons_self
    · exact List.mem_cons_of_mem _ (ih h)

end Plan

end Columnar
