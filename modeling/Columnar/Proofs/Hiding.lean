import Columnar.Pass.Sharing
import Columnar.Proofs.Operators

namespace Columnar

namespace Expr

variable {hidden : Sharing.Hidden} {blocked : List String} {e e' : Expr}

/-- An expression, and one that has hidden columns in the place of parts of it. -/
inductive Shares (hidden : Sharing.Hidden) (blocked : List String) : Expr → Expr → Prop
  | hidden {name : String} {e : Expr} (mem : (name, e) ∈ hidden) (candidate : e.isCandidate blocked) :
      Shares hidden blocked e (.column name)
  | parts {e : Expr} {cs : List Expr} (length : e.children.length = cs.length)
      (each : ∀ p ∈ e.children.zip cs, Shares hidden blocked p.1 p.2) :
      Shares hidden blocked e (e.withChildren cs)

theorem Shares.of_parts {cs : List Expr} (h : List.Forall₂ (Shares hidden blocked) e.children cs) :
    Shares hidden blocked e (e.withChildren cs) :=
  .parts h.length_eq fun _ hp => (List.forall₂_iff_zip.1 h).2 hp

theorem Shares.refl (e : Expr) : Shares hidden blocked e e := by
  induction e using parts_induction with
  | step e ih =>
    have parts := Shares.of_parts (List.forall₂_same.2 ih)
    rwa [withChildren_children] at parts

theorem withChildren_eq_literal {cs : List Expr} {v : Scalar} : e.withChildren cs = .literal v ↔ e = .literal v := by
  unfold withChildren
  split <;> simp

theorem withChildren_eq_column {cs : List Expr} {c : String} : e.withChildren cs = .column c ↔ e = .column c := by
  unfold withChildren
  split <;> simp

@[simp] theorem isShareable_column (c : String) : (column c).isShareable = false := rfl

@[simp] theorem isShareable_literal (v : Scalar) : (literal v).isShareable = false := rfl

@[simp] theorem isShareable_named (e : Expr) (name : String) : (named e name).isShareable = false := by
  simp [isShareable]

@[simp] theorem isShareable_aggregate (op : Aggregation) (e : Expr) : (aggregate op e).isShareable = false := by
  simp [isShareable, containsAggregate, nodes, isAggregate]

theorem candidate_iff : e.isCandidate blocked ↔ e.isShareable ∧ ∀ n ∈ e.columns, n ∉ blocked := by
  simp [isCandidate]

theorem shareable_of_candidate (h : e.isCandidate blocked) : e.isShareable := (candidate_iff.1 h).1

theorem Shares.literal_iff (h : Shares hidden blocked e e') (v : Scalar) : e = .literal v ↔ e' = .literal v := by
  cases h with
  | hidden _ candidate =>
    refine ⟨fun he => ?_, nofun⟩
    subst he
    cases shareable_of_candidate candidate
  | parts => exact withChildren_eq_literal.symm

theorem Shares.column (h : Shares hidden blocked e e') {c : String} (he : e' = .column c) :
    e = .column c ∨ (c, e) ∈ hidden ∧ e.isCandidate blocked := by
  cases h with
  | hidden mem candidate =>
    cases he
    exact .inr ⟨mem, candidate⟩
  | parts => exact .inl (withChildren_eq_column.1 he)

theorem Shares.eq_column {c : String} (h : Shares hidden blocked (.column c) e') : e' = .column c := by
  cases h with
  | hidden _ candidate => cases shareable_of_candidate candidate
  | parts => exact withChildren_eq_column.2 rfl

/-- An expression that shares gives what it gave, if the hidden columns hold what they stand for. -/
theorem Shares.alongside {rows : List Nat} {f g : Frame} (height : rows.length = g.height)
    (picking : Picking f.height rows) (h : Shares hidden blocked e e')
    (found : ∀ name, .column name ∈ e.nodes → Agrees (Column.Local f.height rows) (f.column name) (g.column name))
    (held : ∀ name x, (name, x) ∈ hidden → x.isCandidate blocked → Alongside rows f g x (.column name)) :
    Alongside rows f g e e' := by
  induction h with
  | hidden mem candidate => exact held _ _ mem candidate
  | @parts e cs length each ih =>
    refine .withChildren height picking (List.forall₂_iff_zip.2 ⟨length, fun {x y} hp => ⟨ih (x, y) hp fun name hn => ?_, ?_⟩⟩)
      fun name he => found name (he ▸ mem_nodes_self e)
    · exact found name (mem_nodes_of_child (List.of_mem_zip hp).1 hn)
    · exact (each (x, y) hp).literal_iff

def SharesNamed (hidden : Sharing.Hidden) (blocked : List String) (e e' : Expr) : Prop :=
  ∃ x, Shares hidden blocked e x ∧ e' = if x.outputName = e.outputName then x else .named x e.outputName

theorem SharesNamed.refl (e : Expr) : SharesNamed hidden blocked e e := ⟨e, .refl e, by simp⟩

theorem SharesNamed.outputName (h : SharesNamed hidden blocked e e') : e.outputName = e'.outputName := by
  obtain ⟨x, -, rfl⟩ := h
  split
  next same => exact same.symm
  · rfl

theorem candidate_append {more : List String} (h : e.isCandidate (more ++ blocked)) :
    e.isCandidate blocked ∧ ∀ n ∈ e.columns, n ∉ more := by
  obtain ⟨worth, free⟩ := candidate_iff.1 h
  refine ⟨candidate_iff.2 ⟨worth, fun n hn below => free n hn ?_⟩, fun n hn above => free n hn ?_⟩
  · exact List.mem_append_right _ below
  · exact List.mem_append_left _ above

end Expr

namespace Sharing

structure Tidy (kind : Expr → Prop) (hidden : Hidden) : Prop where
  names : hidden.map (·.1) = (List.range hidden.length).map hiddenName
  kinds : ∀ h ∈ hidden, kind h.2

theorem Tidy.empty (kind : Expr → Prop) : Tidy kind [] := ⟨rfl, nofun⟩

/-- A step that hides expressions of a kind, and what holds of its outcome whatever else is hidden later. -/
def Hides (kind : Expr → Prop) (m : StateM Hidden α) (post : Hidden → α → Prop) : Prop :=
  ∀ before, Tidy kind before → Tidy kind (m.run before).2 ∧
    ∀ all, (m.run before).2 ⊆ all → before ⊆ all ∧ post all (m.run before).1

namespace Hides

variable {kind : Expr → Prop}

theorem pure {a : α} {post : Hidden → α → Prop} (h : ∀ all, post all a) : Hides kind (Pure.pure a) post :=
  fun _ tidy => ⟨tidy, fun all sub => ⟨sub, h all⟩⟩

theorem bind {m : StateM Hidden α} {k : α → StateM Hidden β} {mid : Hidden → α → Prop}
    {post : Hidden → β → Prop} (hm : Hides kind m mid)
    (hk : ∀ a, Hides kind (k a) fun all b => mid all a → post all b) : Hides kind (m >>= k) post := by
  intro before tidy
  obtain ⟨tidyMid, hmid⟩ := hm before tidy
  obtain ⟨tidyAfter, hpost⟩ := hk (m.run before).1 (m.run before).2 tidyMid
  refine ⟨tidyAfter, fun all sub => ?_⟩
  obtain ⟨subMid, hb⟩ := hpost all sub
  obtain ⟨subBefore, ha⟩ := hmid all subMid
  exact ⟨subBefore, hb ha⟩

theorem map {m : StateM Hidden α} {f : α → β} {mid : Hidden → α → Prop} {post : Hidden → β → Prop}
    (hm : Hides kind m mid) (h : ∀ all a, mid all a → post all (f a)) : Hides kind (f <$> m) post := by
  rw [map_eq_pure_bind]
  exact hm.bind fun a => .pure fun all => h all a

theorem mapM {f : α → StateM Hidden β} {post : Hidden → α → β → Prop} {xs : List α}
    (h : ∀ x ∈ xs, Hides kind (f x) fun all y => post all x y) :
    Hides kind (xs.mapM f) fun all ys => List.Forall₂ (post all) xs ys := by
  induction xs with
  | nil =>
    rw [List.mapM_nil]
    exact .pure fun _ => .nil
  | cons x xs ih =>
    rw [List.forall_mem_cons] at h
    rw [List.mapM_cons]
    refine h.1.bind fun y => (ih h.2).bind fun ys => .pure fun all hys hy => ?_
    exact .cons hy hys

end Hides

theorem fresh_eq {s : Sharing} (free : ∀ n, hiddenName n ∉ s.taken) (count : Nat) :
    s.fresh count = hiddenName count := by
  rw [fresh, List.range'_succ, List.map_cons, List.find?_cons_of_pos (by simpa using free count)]
  rfl

theorem run_share_found (s : Sharing) {e x : Expr} {name : String} {before : Hidden}
    (h : before.find? (·.2.text == e.text) = some (name, x)) : (s.share e).run before = (.column name, before) := by
  simp only [share, StateT.run_bind, StateT.run_get, pure_bind, h, StateT.run_pure]
  rfl

theorem run_share_new (s : Sharing) {e : Expr} {before : Hidden}
    (h : before.find? (·.2.text == e.text) = none) :
    (s.share e).run before = (.column (s.fresh before.length), before ++ [(s.fresh before.length, e)]) := by
  simp only [share, StateT.run_bind, StateT.run_get, pure_bind, h, StateT.run_set, StateT.run_pure]
  rfl

section

variable {kind : Expr → Prop} {s : Sharing} {blocked : List String} {e : Expr}
  (free : ∀ n, hiddenName n ∉ s.taken) (texts : ∀ x y, kind x → kind y → x.text = y.text → x = y)

include free texts

theorem share_hides (he : kind e) :
    Hides kind (s.share e) fun all e' => ∃ name, e' = .column name ∧ (name, e) ∈ all := by
  intro before tidy
  cases hfind : before.find? (·.2.text == e.text) with
  | some h =>
    obtain ⟨name, x⟩ := h
    rw [run_share_found s hfind]
    have mem := List.mem_of_find?_eq_some hfind
    obtain rfl : x = e := texts x e (tidy.kinds _ mem) he (by simpa using List.find?_some hfind)
    exact ⟨tidy, fun all sub => ⟨sub, name, rfl, sub mem⟩⟩
  | none =>
    rw [run_share_new s hfind]
    refine ⟨⟨?_, fun h hh => ?_⟩, fun all sub => ⟨fun _ hx => sub (List.mem_append_left _ hx), _, rfl, ?_⟩⟩
    · rw [List.map_append, tidy.names, List.length_append, List.length_singleton, List.range_succ,
        List.map_append, fresh_eq free]
      rfl
    · rcases List.mem_append.1 hh with hh | hh
      · exact tidy.kinds h hh
      · rwa [List.mem_singleton.1 hh]
    · exact sub (List.mem_append_right _ List.mem_cons_self)

omit free texts in
theorem replaceAll_eq (s : Sharing) (blocked : List String) (es : List Expr) :
    s.replaceAll blocked es = es.mapM (s.replace blocked) := by
  induction es with
  | nil =>
    rw [replaceAll, List.mapM_nil]
  | cons e es ih =>
    rw [replaceAll, List.mapM_cons, ih]
    simp only [map_eq_pure_bind]

omit free texts in
theorem replace_eq (s : Sharing) (blocked : List String) (e : Expr) :
    s.replace blocked e = if s.isShared blocked e then s.share e
      else e.withChildren <$> e.children.mapM (s.replace blocked) := by
  rw [replace.eq_def]
  congr 1
  cases e <;> simp [Expr.children, replaceAll_eq] <;> rfl

theorem replace_hides (h : ∀ x ∈ e.nodes, x.isCandidate blocked → kind x) :
    Hides kind (s.replace blocked e) fun all e' => e.Shares all blocked e' := by
  induction e using Expr.parts_induction with
  | step e ih =>
    rw [replace_eq]
    split
    next shared =>
      have candidate : e.isCandidate blocked := (Bool.and_eq_true_iff.1 shared).1
      refine fun before tidy => ?_
      obtain ⟨tidy', post⟩ := share_hides free texts (h e (Expr.mem_nodes_self e) candidate) before tidy
      refine ⟨tidy', fun all sub => ?_⟩
      obtain ⟨sub', name, hname, mem⟩ := post all sub
      rw [hname]
      exact ⟨sub', .hidden mem candidate⟩
    · exact (Hides.mapM fun x hx => ih x hx fun y hy => h y (Expr.mem_nodes_of_child hx hy)).map
        fun _ _ => .of_parts

theorem replaceNamed_hides (h : ∀ x ∈ e.nodes, x.isCandidate blocked → kind x) :
    Hides kind (s.replaceNamed blocked e) fun all e' => e.SharesNamed all blocked e' :=
  (replace_hides free texts h).bind fun x => .pure fun _ hx => ⟨x, hx, rfl⟩

end

end Sharing

namespace Operator

def Shares (hidden : Sharing.Hidden) (blocked : List String) : Operator → Operator → Prop
  | project es, op' => ∃ es', op' = project es' ∧ List.Forall₂ (Expr.SharesNamed hidden blocked) es es'
  | groupBy keys aggs, op' =>
    ∃ aggs', op' = groupBy keys aggs' ∧ List.Forall₂ (Expr.SharesNamed hidden blocked) aggs aggs'
  | filter e, op' => ∃ e', op' = filter e' ∧ e.Shares hidden blocked e'
  | withColumn e, op' => ∃ e', op' = withColumn e' ∧ e.SharesNamed hidden blocked e'
  | op, op' => op' = op

theorem Shares.refl {hidden : Sharing.Hidden} {blocked : List String} (op : Operator) :
    op.Shares hidden blocked op := by
  cases op with
  | project es => exact ⟨es, rfl, List.forall₂_same.2 fun e _ => .refl e⟩
  | groupBy keys aggs => exact ⟨aggs, rfl, List.forall₂_same.2 fun e _ => .refl e⟩
  | filter e => exact ⟨e, rfl, .refl e⟩
  | withColumn e => exact ⟨e, rfl, .refl e⟩
  | sort | limit | tail | distinct | pivot | melt | apply => rfl

theorem replaceShared_hides {kind : Expr → Prop} {s : Sharing} {blocked : List String}
    (free : ∀ n, Sharing.hiddenName n ∉ s.taken) (texts : ∀ x y, kind x → kind y → x.text = y.text → x = y)
    (op : Operator) (h : ∀ e ∈ op.sharingExprs, ∀ x ∈ e.nodes, x.isCandidate blocked → kind x) :
    Sharing.Hides kind (op.replaceShared s blocked) fun all op' => op.Shares all blocked op' := by
  cases op with
  | project es =>
    exact (Sharing.Hides.mapM fun e he => Sharing.replaceNamed_hides free texts (h e he)).map
      fun _ es' hes => ⟨es', rfl, hes⟩
  | groupBy keys aggs =>
    exact (Sharing.Hides.mapM fun e he => Sharing.replaceNamed_hides free texts (h e he)).map
      fun _ es' hes => ⟨es', rfl, hes⟩
  | filter e =>
    exact (Sharing.replace_hides free texts (h e List.mem_cons_self)).map fun _ e' he => ⟨e', rfl, he⟩
  | withColumn e =>
    exact (Sharing.replaceNamed_hides free texts (h e List.mem_cons_self)).map fun _ e' he => ⟨e', rfl, he⟩
  | sort | limit | tail | distinct | pivot | melt | apply => exact .pure fun _ => rfl

end Operator

end Columnar
