import Columnar.Proofs.Chaining

namespace Columnar

/-- A name that is neither that of a hidden column nor of one that is computed for an aggregation. -/
def Unreserved (name : String) : Prop := ∀ n, name ≠ Sharing.hiddenName n ∧ name ≠ Operator.helperName n

theorem Unreserved.of_head {name : String} (h : name.toList.head? ≠ some '_') : Unreserved name := by
  have head (before after : String) (hb : before.toList.head? = some '_') :
      (before ++ after).toList.head? = some '_' := by
    rw [String.toList_append, List.head?_append, hb]
    rfl
  refine fun n => ⟨?_, ?_⟩
  · rintro rfl
    exact h (head "__cse_" (toString n) rfl)
  · rintro rfl
    exact h (head "__agg_" (toString n) rfl)

theorem Sharing.hiddenName_ne_helperName (m n : Nat) : hiddenName m ≠ Operator.helperName n := by
  have third (c : Char) (before after : String) (h : before.toList[2]? = some c) :
      (before ++ after).toList[2]? = some c := by
    rw [String.toList_append, List.getElem?_append_left (List.getElem?_eq_some_iff.1 h).1, h]
  intro same
  have here : (Operator.helperName n).toList[2]? = some 'a' := third 'a' "__agg_" (toString n) rfl
  rw [← same] at here
  cases here.symm.trans (third 'c' "__cse_" (toString m) rfl)

namespace Plan

def NamesUnreserved (host : Host) : Plan → Prop
  | scan s proj => ∀ f, readScan s proj = .ok f → ∀ n ∈ f.names, Unreserved n
  | step op x => x.NamesUnreserved host ∧ (∀ n ∈ op.named, Unreserved n) ∧
    ∀ f, (step op x).eval host = .ok f → ∀ n ∈ f.names, Unreserved n
  | join s l r => l.NamesUnreserved host ∧ r.NamesUnreserved host ∧
    ∀ f, (join s l r).eval host = .ok f → ∀ n ∈ f.names, Unreserved n
  | cache _ x => x.NamesUnreserved host

/-- Each scan gives a column. -/
def Wide : Plan → Prop
  | scan s proj => ∀ f, readScan s proj = .ok f → f.columns ≠ []
  | step _ x => x.Wide
  | join _ l r => l.Wide ∧ r.Wide
  | cache _ x => x.Wide

def parts : Plan → List Expr
  | scan .. => []
  | step op x => op.sharingExprs.flatMap Expr.nodes ++ x.parts
  | join _ l r => l.parts ++ r.parts
  | cache _ x => x.parts

structure Fit (host : Host) (kind : Expr → Prop) (p : Plan) : Prop where
  faithful : p.Faithful
  names : p.NamesUnreserved host
  wide : p.Wide
  kinds : ∀ x ∈ p.parts, kind x

variable {host : Host} {kind : Expr → Prop} {ops : List Operator} {op : Operator} {p x base base' : Plan}

theorem Fit.step (h : (step op x).Fit host kind) : x.Fit host kind :=
  ⟨h.faithful.2, h.names.1, h.wide, fun e he => h.kinds e (List.mem_append_right _ he)⟩

theorem Fit.left {s : JoinSpec} {l r : Plan} (h : (join s l r).Fit host kind) : l.Fit host kind :=
  ⟨h.faithful.1, h.names.1, h.wide.1, fun e he => h.kinds e (List.mem_append_left _ he)⟩

theorem Fit.right {s : JoinSpec} {l r : Plan} (h : (join s l r).Fit host kind) : r.Fit host kind :=
  ⟨h.faithful.2, h.names.2.1, h.wide.2, fun e he => h.kinds e (List.mem_append_right _ he)⟩

theorem Fit.cached {id : Nat} (h : (cache id x).Fit host kind) : x.Fit host kind :=
  ⟨h.faithful, h.names, h.wide, h.kinds⟩

theorem Fit.of_stack (h : (stack ops x).Fit host kind) : x.Fit host kind := by
  induction ops with
  | nil => exact h
  | cons op ops ih => exact ih h.step

theorem Fit.named (h : (stack ops x).Fit host kind) : ∀ op ∈ ops, ∀ n ∈ op.named, Unreserved n := by
  induction ops with
  | nil => nofun
  | cons op ops ih => exact List.forall_mem_cons.2 ⟨h.names.2.1, ih h.step⟩

theorem Fit.kind_of_part (h : (stack ops x).Fit host kind) :
    ∀ op ∈ ops, ∀ e ∈ op.sharingExprs, ∀ y ∈ e.nodes, kind y := by
  induction ops with
  | nil => nofun
  | cons op ops ih =>
    refine List.forall_mem_cons.2 ⟨fun e he y hy => h.kinds y ?_, ih h.step⟩
    exact List.mem_append_left _ (List.mem_flatMap.2 ⟨e, he, hy⟩)

theorem NamesUnreserved.names (h : p.NamesUnreserved host) {f : Frame} (hf : p.eval host = .ok f) :
    ∀ n ∈ f.names, Unreserved n := by
  induction p with
  | scan s proj => exact h f hf
  | step op x => exact h.2.2 f hf
  | join s l r => exact h.2.2 f hf
  | cache id x ih => exact ih h hf

theorem eval_grounded (hp : p.Faithful) (wide : p.Wide) {f : Frame} (h : p.eval host = .ok f) : f.Grounded := by
  induction p generalizing f with
  | scan s proj => exact fun none => absurd none (wide f h)
  | step op x ih =>
    obtain ⟨g, hg, h⟩ := bind_eq_ok.1 h
    exact Operator.run_grounded host hp.1 (eval_sane hp.2 hg) (ih hp.2 wide hg) h
  | join s l r =>
    obtain ⟨fl, hl, h⟩ := bind_eq_ok.1 h
    obtain ⟨fr, hr, h⟩ := bind_eq_ok.1 h
    have saneL := eval_sane hp.1 hl
    have saneR := eval_sane hp.2 hr
    obtain ⟨_, _, built⟩ := Join.joined_built host saneL saneR saneL saneR (.refl saneL) (.refl saneR) f h
    exact built.grounded
  | cache id x ih => exact ih hp wide h

structure Linked (ops : List Operator) : Prop where
  head : ∀ op ∈ ops.head?, op.chains ∨ op.heads
  tail : ∀ op ∈ ops.tail, op.chains

theorem Linked.nil : Linked [] := ⟨nofun, nofun⟩

theorem Linked.push (h : Linked ops) (hop : op.chains || op.heads && ops.isEmpty) : Linked (ops ++ [op]) := by
  cases ops with
  | nil =>
    refine ⟨fun o ho => ?_, nofun⟩
    cases ho
    simpa using hop
  | cons o ops =>
    refine ⟨h.head, fun o' ho' => ?_⟩
    rcases List.mem_append.1 ho' with ho' | ho'
    · exact h.tail o' ho'
    · rw [List.mem_singleton.1 ho']
      simpa using hop

theorem Linked.chains (h : Linked ops) (unheaded : ops.head?.any (·.heads) = false) : ∀ op ∈ ops, op.chains := by
  cases ops with
  | nil => nofun
  | cons op ops =>
    refine List.forall_mem_cons.2 ⟨(h.head op rfl).resolve_right ?_, h.tail⟩
    simpa using unheaded

theorem deterministic_replaceShared (s : Sharing) (blocked : List String) (h : op.Deterministic)
    (before : Sharing.Hidden) : ((op.replaceShared s blocked).run before).1.Deterministic := by
  cases op with
  | apply => exact h
  | _ => trivial

theorem forall_mem_mapM {m : α → StateM σ β} {good : β → Prop} {xs : List α}
    (h : ∀ x ∈ xs, ∀ s, good ((m x).run s).1) (s : σ) : ∀ y ∈ ((xs.mapM m).run s).1, good y := by
  induction xs generalizing s with
  | nil => nofun
  | cons x xs ih =>
    rw [List.forall_mem_cons] at h
    rw [List.mapM_cons]
    exact List.forall_mem_cons.2 ⟨h.1 s, ih h.2 _⟩

theorem faithful_hide {hidden : Sharing.Hidden} (h : base.Faithful) : (hide hidden base).Faithful := by
  induction hidden generalizing base with
  | nil => exact h
  | cons e hidden ih => exact ih ⟨trivial, h⟩

theorem faithful_shareChain {output : Option (List String)} (det : ∀ op ∈ ops, op.Deterministic)
    (h : base.Faithful) : (shareChain ops output base).Faithful := by
  unfold shareChain
  simp only
  split
  · exact faithful_stack.2 ⟨det, h⟩
  · have shared : (stack (replaceChain ⟨repeatedTexts (blockedBelow ops),
        base.columns?.getD [] ++ ops.filterMap (·.defines?)⟩ (blockedBelow ops)).1
        (hide (replaceChain ⟨repeatedTexts (blockedBelow ops),
          base.columns?.getD [] ++ ops.filterMap (·.defines?)⟩ (blockedBelow ops)).2 base)).Faithful := by
      refine faithful_stack.2 ⟨forall_mem_mapM (fun c hc before => ?_) [], faithful_hide h⟩
      exact deterministic_replaceShared _ _ (det c.1 (fst_blockedBelow hc)) before
    split
    · exact ⟨trivial, shared⟩
    · exact shared

theorem faithful_shareFrom {output : Option (List String)} (det : ∀ op ∈ ops, op.Deterministic)
    (h : p.Faithful) : (shareFrom ops output p).Faithful := by
  induction p generalizing ops output with
  | scan s proj => exact faithful_shareChain det h
  | step op x ih =>
    rw [shareFrom]
    split
    · exact ih (List.forall_mem_append.2 ⟨det, List.forall_mem_singleton.2 h.1⟩) h.2
    · split
      · exact faithful_shareChain det (ih (List.forall_mem_singleton.2 h.1) h.2)
      · exact faithful_shareChain det ⟨h.1, ih nofun h.2⟩
  | join s l r ihl ihr => exact faithful_shareChain det ⟨ihl nofun h.1, ihr nofun h.2⟩
  | cache id x ih => exact faithful_shareChain det (@ih [] _ nofun h)

theorem caches_stack (ops : List Operator) (base : Plan) : (stack ops base).caches = base.caches := by
  induction ops with
  | nil => rfl
  | cons op ops ih => exact ih

theorem caches_hide (hidden : Sharing.Hidden) (base : Plan) : (hide hidden base).caches = base.caches := by
  induction hidden generalizing base with
  | nil => rfl
  | cons e hidden ih => exact ih _

theorem caches_shareChain (ops : List Operator) (output : Option (List String)) (base : Plan) :
    (shareChain ops output base).caches = base.caches := by
  unfold shareChain
  simp only
  split
  · exact caches_stack ops base
  · split
    · rw [caches, caches_stack, caches_hide]
    · rw [caches_stack, caches_hide]

theorem caches_shareFrom (ops : List Operator) (output : Option (List String)) (p : Plan) :
    (shareFrom ops output p).caches = p.caches.map fun c => (c.1, c.2.shareSubexprs) := by
  induction p generalizing ops output with
  | scan s proj => exact caches_shareChain ..
  | step op x ih =>
    rw [shareFrom]
    split
    · exact ih _ _
    · split
      · exact (caches_shareChain ..).trans (ih _ _)
      · exact (caches_shareChain ..).trans (ih _ _)
  | join s l r ihl ihr =>
    rw [shareFrom, caches_shareChain, caches, caches, ihl, ihr, List.map_append]
  | cache id x ih =>
    rw [shareFrom, caches_shareChain, caches, caches, ih]
    rfl

theorem replaceChain_spec (texts : ∀ x y, kind x → kind y → x.text = y.text → x = y) (linked : Linked ops)
    (fit : (stack ops base).Fit host kind) {F b : Frame} (hF : (stack ops base).eval host = .ok F)
    (hb : base.eval host = .ok b) {s : Sharing} (free : ∀ n, Sharing.hiddenName n ∉ s.taken)
    {ops' : List Operator} {hidden : Sharing.Hidden} (hs : replaceChain s (blockedBelow ops) = (ops', hidden)) :
    Sharing.Tidy (fun x => kind x ∧ ∃ c, x.eval b = .ok c) hidden ∧
      List.Forall₂ (fun c op' => c.1.Shares hidden c.2 op') (blockedBelow ops) ops' := by
  have hides : Sharing.Hides (fun x => kind x ∧ ∃ c, x.eval b = .ok c)
      ((blockedBelow ops).mapM fun c : Operator × List String => c.1.replaceShared s c.2)
      fun all ops' => List.Forall₂ (fun c op' => c.1.Shares all c.2 op') (blockedBelow ops) ops' := by
    refine .mapM fun c hc => ?_
    refine Operator.replaceShared_hides free (fun x y hx hy => texts x y hx.1 hy.1) c.1 fun e he x hx candidate => ?_
    exact ⟨fit.kind_of_part c.1 (fst_blockedBelow hc) e he x hx,
      exists_eval_candidate fit.faithful hb hF linked.tail hc he hx candidate⟩
  obtain ⟨tidy, post⟩ := hides [] (.empty _)
  have run : ((blockedBelow ops).mapM fun c : Operator × List String => c.1.replaceShared s c.2).run [] =
      (ops', hidden) := hs
  rw [run] at tidy post
  exact ⟨tidy, (post hidden (List.Subset.refl _)).2⟩

theorem hiddenName_not_taken (fit : (stack ops base).Fit host kind) (faithful' : base'.Faithful) {b b' : Frame}
    (hb : base.eval host = .ok b) (hb' : base'.eval host = .ok b') (alike : b.Alike b') (n : Nat) :
    Sharing.hiddenName n ∉ base'.columns?.getD [] ++ ops.filterMap (·.defines?) := by
  have names := fit.of_stack.names.names hb
  intro hn
  rcases List.mem_append.1 hn with hn | hn
  · cases hc : base'.columns? with
    | none =>
      rw [hc] at hn
      cases hn
    | some ns =>
      rw [hc] at hn
      rw [alike.names, (eval_told faithful' hb').2 ns hc] at names
      exact (names _ hn n).1 rfl
  · obtain ⟨op, hop, defined⟩ := List.mem_filterMap.1 hn
    exact (fit.named op hop _ (List.mem_append_left _ (Option.mem_toList.2 defined)) n).1 rfl

theorem hide_follows (fit : (stack ops base).Fit host kind) {b b' : Frame} (hb : base.eval host = .ok b)
    (hb' : base'.eval host = .ok b') (alike : b.Alike b') {hidden : Sharing.Hidden}
    (tidy : Sharing.Tidy (fun x => kind x ∧ ∃ c, x.eval b = .ok c) hidden) :
    Follows (Frame.Carries hidden []) (base.eval host) ((hide hidden base').eval host) := by
  have sane := eval_sane fit.of_stack.faithful hb
  have free : ∀ h ∈ hidden, h.1 ∉ b.names := fun h mem here => by
    obtain ⟨n, hn⟩ := tidy.exists_name mem
    exact (fit.of_stack.names.names hb _ here n).1 hn
  obtain ⟨g, hg, carries⟩ := hide_carries sane hb' alike tidy.nodup free fun h mem => (tidy.kinds h mem).2
  rw [hb, hg]
  exact .ok carries

/-- A chain that shares gives what it gave over a base that gives what it gave. -/
theorem shareChain_follows (texts : ∀ x y, kind x → kind y → x.text = y.text → x = y) (linked : Linked ops)
    (fit : (stack ops base).Fit host kind) (faithful' : base'.Faithful)
    (h : Follows Frame.Alike (base.eval host) (base'.eval host)) :
    Follows Frame.Alike ((stack ops base).eval host)
      ((shareChain ops (stack ops base).columns? base').eval host) := by
  unfold shareChain
  simp only
  split
  · exact stack_follows fit.faithful faithful' h
  next share =>
    intro F hF
    obtain ⟨b, hb⟩ := exists_eval_base hF
    obtain ⟨b', hb', alike⟩ := h b hb
    have det := (faithful_stack.1 fit.faithful).1
    have free := hiddenName_not_taken fit faithful' hb hb' alike
    cases hs : replaceChain ⟨repeatedTexts (blockedBelow ops), base'.columns?.getD [] ++ ops.filterMap (·.defines?)⟩
        (blockedBelow ops) with
    | mk ops' hidden =>
      obtain ⟨tidy, shares⟩ := replaceChain_spec texts linked fit hF hb free hs
      have below := hide_follows fit hb hb' alike tidy
      have undefined : ∀ name x, (name, x) ∈ hidden → ∀ op ∈ ops, op.defines? ≠ some name := by
        intro name x mem op hop defined
        obtain ⟨n, rfl⟩ := tidy.exists_name mem
        exact free n (List.mem_append_right _ (List.mem_filterMap.2 ⟨op, hop, defined⟩))
      cases headed : ops.head?.any (·.heads) with
      | true =>
        cases ops with
        | nil => cases headed
        | cons op ops =>
          rw [List.forall_mem_cons] at det
          refine stack_headed (by simpa using headed) linked.tail det.2 shares
            (fun name x mem op hop => undefined name x mem op (List.mem_cons_of_mem _ hop))
            (fun n hn k => (fit.named op List.mem_cons_self n hn k).2) (fun name x mem k => ?_) below F hF
          obtain ⟨n, rfl⟩ := tidy.exists_name mem
          exact Sharing.hiddenName_ne_helperName n k
      | false =>
        obtain ⟨g, hg, carries⟩ := stack_carries (linked.chains headed) det shares undefined below F hF
        cases hc : (stack ops base).columns? with
        | none => simp [headed, hc] at share
        | some names =>
          have told := (eval_told fit.faithful hF).2 names hc
          obtain ⟨f', hf', same⟩ := project_carries (eval_grounded fit.faithful fit.wide hF) carries
          rw [told] at hf'
          exact ⟨f', bind_eq_ok.2 ⟨g, hg, hf'⟩, same⟩

theorem shareFrom_follows (texts : ∀ x y, kind x → kind y → x.text = y.text → x = y) (p : Plan)
    {ops : List Operator} (linked : Linked ops) (fit : (stack ops p).Fit host kind) :
    Follows Frame.Alike ((stack ops p).eval host) ((shareFrom ops (stack ops p).columns? p).eval host) := by
  induction p generalizing ops with
  | scan s proj =>
    refine shareChain_follows texts linked fit fit.of_stack.faithful fun f hf => ⟨f, hf, .refl ?_⟩
    exact eval_sane fit.of_stack.faithful hf
  | step op x ih =>
    have here := fit.of_stack
    rw [shareFrom]
    split
    next hop =>
      have longer : stack (ops ++ [op]) x = stack ops (step op x) := by rw [stack, List.foldr_append]; rfl
      rw [← longer] at fit ⊢
      exact ih (linked.push hop) fit
    next =>
      split
      next heads =>
        have one : Linked [op] := ⟨fun _ h => .inr (Option.some.inj h ▸ heads), List.forall_mem_nil _⟩
        refine shareChain_follows texts linked fit (faithful_shareFrom ?_ here.faithful.2) (ih one here)
        exact List.forall_mem_singleton.2 here.faithful.1
      next =>
        have faithful' := @faithful_shareFrom [] x x.columns? (List.forall_mem_nil _) here.faithful.2
        refine shareChain_follows texts linked fit ⟨here.faithful.1, faithful'⟩ ?_
        exact step_follows here.faithful.1 here.faithful.2 faithful' (ih .nil here.step)
  | join s l r ihl ihr =>
    have here := fit.of_stack
    have faithfulL := @faithful_shareFrom [] l l.columns? (List.forall_mem_nil _) here.left.faithful
    have faithfulR := @faithful_shareFrom [] r r.columns? (List.forall_mem_nil _) here.right.faithful
    refine shareChain_follows texts linked fit ⟨faithfulL, faithfulR⟩ ?_
    exact join_follows here.left.faithful here.right.faithful faithfulL faithfulR (ihl .nil here.left)
      (ihr .nil here.right)
  | cache id x ih =>
    have here := fit.of_stack.cached
    have faithful' := @faithful_shareFrom [] x x.columns? (List.forall_mem_nil _) here.faithful
    exact shareChain_follows texts linked fit faithful' (ih .nil here)

/-- Where no two parts of expressions have one text, hiding repeated ones changes nothing in what a plan
gives, and no hidden column comes out. -/
theorem shareSubexprs_preserves {p : Plan} (faithful : p.Faithful) (settled : p.Settled) (wide : p.Wide)
    (names : p.NamesUnreserved host) (texts : ∀ x ∈ p.parts, ∀ y ∈ p.parts, x.text = y.text → x = y)
    {f : Frame} (h : p.result host = .ok f) :
    ∃ g, p.shareSubexprs.result host = .ok g ∧ f.Alike g ∧ ∀ n ∈ g.names, Unreserved n := by
  rw [result_eq_eval host settled] at h
  rw [shareSubexprs, result_eq_eval host (settled.map (caches_shareFrom [] p.columns? p))]
  have fit : (stack [] p).Fit host (· ∈ p.parts) := ⟨faithful, names, wide, fun _ hx => hx⟩
  obtain ⟨g, hg, alike⟩ := shareFrom_follows (fun x y hx hy => texts x hx y hy) p .nil fit f h
  exact ⟨g, hg, alike, alike.names ▸ names.names h⟩

def repeatedNegation : Plan :=
  ((read ⟨[⟨"a", .bool #[some true, some false, none]⟩], 3⟩).withColumn
    (.named (.binary .or (.not (.column "a")) (.column "a")) "b")).filter
      (.binary .and (.not (.column "a")) (.column "b"))

theorem shareSubexprs_repeatedNegation :
    ∃ f g, repeatedNegation.result Host.hashing = .ok f ∧
      repeatedNegation.shareSubexprs.result Host.hashing = .ok g ∧ f.Alike g ∧ ∀ n ∈ g.names, Unreserved n := by
  have faithful : repeatedNegation.Faithful :=
    ⟨trivial, trivial, Source.faithful_memory (Frame.sane_of_plain (by decide) (by decide) (by decide))⟩
  have told {p : Plan} {ns : List String} (hp : p.Faithful) (hns : p.columns? = some ns)
      (plain : ∀ n ∈ ns, n.toList.head? ≠ some '_') :
      ∀ f, p.eval Host.hashing = .ok f → ∀ n ∈ f.names, Unreserved n := fun f hf n hn =>
    .of_head (plain n ((eval_told hp hf).2 ns hns ▸ hn))
  have plain {ns : List String} (h : ∀ n ∈ ns, n.toList.head? ≠ some '_') : ∀ n ∈ ns, Unreserved n :=
    fun n hn => .of_head (h n hn)
  have wide : repeatedNegation.Wide := by
    rintro _ ⟨⟩
    exact List.cons_ne_nil _ _
  have names : repeatedNegation.NamesUnreserved Host.hashing :=
    ⟨⟨told faithful.2.2 rfl (by decide), plain (by decide), told faithful.2 rfl (by decide)⟩,
      plain (by decide), told faithful rfl (by decide)⟩
  have texts : ∀ x ∈ repeatedNegation.parts, ∀ y ∈ repeatedNegation.parts, x.text = y.text → x = y := by
    have found : ∀ x ∈ repeatedNegation.parts, repeatedNegation.parts.find? (·.text == x.text) = some x := by
      iterate 9 refine List.forall_mem_cons.2 ⟨rfl, ?_⟩
      nofun
    intro x hx y hy same
    exact Option.some.inj ((found x hx).symm.trans (same ▸ found y hy))
  have runs : (repeatedNegation.result Host.hashing).isOk := by cbv
  obtain ⟨f, hf⟩ := isOk_iff.1 runs
  obtain ⟨g, hg, alike, visible⟩ := @shareSubexprs_preserves Host.hashing _ faithful (fun _ _ _ h => by cases h) wide
    names texts f hf
  exact ⟨f, g, hf, hg, alike, visible⟩

end Plan

end Columnar
