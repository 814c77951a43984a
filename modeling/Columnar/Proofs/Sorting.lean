import Columnar.Proofs.Operators
import Columnar.Proofs.Ranks

namespace Columnar

section Stable

variable (cmp : α → α → Ordering) [Std.TransCmp cmp]

theorem transCmp_comap (f : β → α) : Std.TransCmp fun a b => cmp (f a) (f b) where
  eq_swap := Std.OrientedCmp.eq_swap
  isLE_trans := Std.TransCmp.isLE_trans

theorem isLE_total (a b : α) : ((cmp a b).isLE || (cmp b a).isLE) = true := by
  rw [@Std.OrientedCmp.eq_swap _ cmp _ b]
  cases cmp a b <;> rfl

structure TotalPreorder (cmp : α → α → Ordering) : Prop where
  refl : ∀ a, cmp a a = .eq
  swap : ∀ a b, cmp b a = (cmp a b).swap
  trans : ∀ a b c o, cmp a b = o → cmp b c = o → cmp a c = o
  le_trans : ∀ a b c, cmp a b ≠ .gt → cmp b c ≠ .gt → cmp a c ≠ .gt

theorem totalPreorder_of_transCmp : TotalPreorder cmp where
  refl _ := Std.ReflCmp.compare_self
  swap _ _ := Std.OrientedCmp.eq_swap
  trans a b c o hab hbc := by
    cases o with
    | lt => exact Std.TransCmp.lt_trans hab hbc
    | eq => exact Std.TransCmp.eq_trans hab hbc
    | gt => exact Std.TransCmp.gt_trans hab hbc
  le_trans a b c hab hbc :=
    Ordering.ne_gt_iff_isLE.2
      (Std.TransCmp.isLE_trans (Ordering.ne_gt_iff_isLE.1 hab) (Ordering.ne_gt_iff_isLE.1 hbc))

theorem mergeSort_stable {R : α → α → Prop} {xs : List α} (h : xs.Pairwise R) :
    (xs.mergeSort fun a b => (cmp a b).isLE).Pairwise fun a b => cmp a b = .lt ∨ cmp a b = .eq ∧ R a b := by
  have trans (a b c : α) : (cmp a b).isLE → (cmp b c).isLE → (cmp a c).isLE := Std.TransCmp.isLE_trans
  have sorted := List.pairwise_mergeSort trans (isLE_total cmp) xs
  rw [List.pairwise_iff_forall_sublist] at sorted ⊢
  intro a b hab
  cases hcmp : cmp a b with
  | lt => exact .inl rfl
  | gt => simpa [hcmp] using sorted hab
  | eq =>
    refine .inr ⟨rfl, List.pairwise_iff_forall_sublist.1 h ?_⟩
    -- The entries that are not told apart from the first one are a sublist before and after.
    have alike : (xs.filter (cmp a · == .eq)).Sublist
        ((xs.mergeSort fun a b => (cmp a b).isLE).filter (cmp a · == .eq)) := by
      have one : (xs.filter (cmp a · == .eq)).Pairwise fun x y => (cmp x y).isLE := by
        refine List.pairwise_filter.2 (h.imp fun _ hx hy => ?_)
        rw [beq_iff_eq] at hx hy
        rw [← Std.TransCmp.congr_left hx, hy]
        rfl
      simpa using (List.sublist_mergeSort trans (isLE_total cmp) one List.filter_sublist).filter (cmp a · == .eq)
    have same := alike.eq_of_length ((List.mergeSort_perm xs _).filter _).length_eq.symm
    have pair := hab.filter (cmp a · == .eq)
    rw [← same] at pair
    simpa [hcmp, Std.ReflCmp.compare_self] using pair.trans List.filter_sublist

end Stable

namespace Rank

def orderIn (descending : Bool) (a b : Rank) : Ordering :=
  (compare a.last b.last).then (if descending then order b a else order a b)

instance (descending : Bool) : Std.TransCmp (orderIn descending) := by
  cases descending with
  | false => exact inferInstanceAs (Std.TransCmp (compareLex (compareOn Rank.last) order))
  | true => exact inferInstanceAs (Std.TransCmp (compareLex (compareOn Rank.last) fun a b => order b a))

theorem orderIn_null_left (descending : Bool) {a : Rank} (h : a.last = false) : orderIn descending null a = .gt := by
  rw [orderIn, h]
  rfl

theorem orderIn_null_right (descending : Bool) {a : Rank} (h : a.last = false) :
    orderIn descending a null = .lt := by
  rw [orderIn, h]
  rfl

theorem orderIn_of_last (descending : Bool) {a b : Rank} (ha : a.last = false) (hb : b.last = false) :
    orderIn descending a b = if descending then order b a else order a b := by
  rw [orderIn, ha, hb]
  rfl

end Rank

namespace SortKey

theorem orderRows_eq_rank (k : SortKey) (i j : Nat) :
    k.orderRows i j = Rank.orderIn k.descending (k.column.rank i) (k.column.rank j) := by
  unfold orderRows Column.rank
  cases hi : k.column.value? i with
  | none =>
    cases k.column.value? j with
    | none => cases k.descending <;> rfl
    | some w => exact (Rank.orderIn_null_left _ w.rank_last).symm
  | some v =>
    cases hj : k.column.value? j with
    | none => exact (Rank.orderIn_null_right _ v.rank_last).symm
    | some w =>
      refine Eq.trans ?_ (Rank.orderIn_of_last _ v.rank_last w.rank_last).symm
      rw [orderValues, Column.order_eq_rank hi hj, Column.order_eq_rank hj hi]

instance transCmp_order (keys : List SortKey) : Std.TransCmp fun i j => order i j keys := by
  induction keys with
  | nil => exact inferInstanceAs (Std.TransCmp (compareOn fun _ => ()))
  | cons k ks ih =>
    have first : Std.TransCmp k.orderRows := by
      rw [funext fun i => funext (k.orderRows_eq_rank i)]
      exact transCmp_comap _ _
    exact inferInstanceAs (Std.TransCmp (compareLex k.orderRows fun i j => order i j ks))

theorem argsort_eq (n : Nat) (keys : List SortKey) :
    argsort n keys = (List.range n).mergeSort fun i j => (order i j keys).isLE := by
  have le (i j : Nat) : (order i j keys != .gt) = (order i j keys).isLE := by
    cases order i j keys <;> rfl
  simp only [argsort, le]

theorem pairwise_argsort (n : Nat) (keys : List SortKey) :
    (argsort n keys).Pairwise fun i j => order i j keys = .lt ∨ order i j keys = .eq ∧ i < j :=
  argsort_eq n keys ▸ mergeSort_stable _ List.pairwise_lt_range

theorem order_append (i j : Nat) (before after : List SortKey) :
    order i j (before ++ after) = (order i j before).then (order i j after) := by
  induction before with
  | nil => rfl
  | cons k before ih => rw [List.cons_append, order, order, ih, Ordering.then_assoc]

theorem orderRows_null_left {k : SortKey} {i j : Nat} (hi : k.column.isNull i) (hj : ¬k.column.isNull j) :
    k.orderRows i j = .gt := by
  rw [Column.isNull, Option.isNone_iff_eq_none] at hi hj
  obtain ⟨v, hv⟩ := Option.ne_none_iff_exists'.1 hj
  rw [orderRows, hi, hv]
  rfl

/-- Keys with directions order the rows as a sort asks for, and where the first key that tells two rows apart is null in
one of them, this one comes last whatever the direction is. -/
theorem order_totalPreorder (keys : List SortKey) :
    TotalPreorder (fun i j => order i j keys) ∧
      ∀ (before after : List SortKey) (k : SortKey) (i j : Nat), keys = before ++ k :: after →
        order i j before = .eq → k.column.isNull i → ¬k.column.isNull j →
          order i j keys = .gt ∧ order j i keys = .lt := by
  refine ⟨totalPreorder_of_transCmp _, ?_⟩
  rintro before after k i j rfl tied hi hj
  have behind : order i j (before ++ k :: after) = .gt := by
    rw [order_append, tied, order, orderRows_null_left hi hj]
    rfl
  refine ⟨behind, ?_⟩
  rw [(transCmp_order (before ++ k :: after)).eq_swap, behind]
  rfl

def balances : List SortKey :=
  [⟨⟨"name", .string #[some "a", some "a", none, some "a"]⟩, false⟩,
    ⟨⟨"balance", .float64 #[some Double.nan, some Double.negativeZero, some Double.zero, some Double.zero]⟩, true⟩]

theorem order_balances :
    TotalPreorder (fun i j => order i j balances) ∧ order 0 1 balances = .gt ∧ order 1 0 balances = .lt := by
  obtain ⟨preorder, nulls⟩ := order_totalPreorder balances
  exact ⟨preorder, nulls [⟨⟨"name", .string #[some "a", some "a", none, some "a"]⟩, false⟩] []
    ⟨⟨"balance", .float64 #[some Double.nan, some Double.negativeZero, some Double.zero, some Double.zero]⟩, true⟩
    0 1 rfl (by decide) (by decide) (by decide)⟩

end SortKey

namespace Column

variable {c : Column} {i j : Nat}

/-- The first row belongs before the second one: its value comes before the other in this direction, or the other
row is null. -/
def Ahead (c : Column) (descending : Bool) (i j : Nat) : Prop :=
  match c.value? i, c.value? j with
  | some v, some w => if descending then w.order v = .lt else v.order w = .lt
  | some _, none => True
  | none, _ => False

/-- Both rows are null, or they hold values that the order does not tell apart; it does so with zeros of opposite
sign. -/
def Tied (c : Column) (i j : Nat) : Prop :=
  match c.value? i, c.value? j with
  | some v, some w => v.order w = .eq
  | none, none => True
  | _, _ => False

theorem ahead_iff (descending : Bool) : c.Ahead descending i j ↔ SortKey.orderRows ⟨c, descending⟩ i j = .lt := by
  unfold Ahead SortKey.orderRows
  cases c.value? i with
  | none => cases c.value? j <;> simp [SortKey.orderValues, orderOptional]
  | some v =>
    cases c.value? j with
    | none => simp [SortKey.orderValues, orderOptional]
    | some w => cases descending <;> rfl

theorem tied_iff (descending : Bool) : c.Tied i j ↔ SortKey.orderRows ⟨c, descending⟩ i j = .eq := by
  unfold Tied SortKey.orderRows
  cases hi : c.value? i with
  | none => cases c.value? j <;> simp [SortKey.orderValues, orderOptional]
  | some v =>
    cases hj : c.value? j with
    | none => simp [SortKey.orderValues, orderOptional]
    | some w =>
      cases descending with
      | false => rfl
      | true =>
        change v.order w = .eq ↔ w.order v = .eq
        rw [order_eq_rank hi hj, order_eq_rank hj hi]
        exact Std.OrientedCmp.eq_comm

end Column

namespace Frame

variable {f g : Frame} {rows : List Nat}

/-- The first row belongs before the second one by some keys with their directions: the first key that tells them
apart decides, and where none does the row that came first. -/
def Precedes (f : Frame) : List (String × Bool) → Nat → Nat → Prop
  | [], i, j => i < j
  | (name, descending) :: keys, i, j =>
    ∃ c, f.column name = .ok c ∧ (c.Ahead descending i j ∨ c.Tied i j ∧ f.Precedes keys i j)

theorem precedes_of_order {names : List String} {descending : List Bool} {cs : List Column}
    (h : names.mapM f.column = .ok cs) (length : names.length = descending.length) {i j : Nat}
    (horder : SortKey.order i j (cs.zipWith SortKey.mk descending) = .lt ∨
      SortKey.order i j (cs.zipWith SortKey.mk descending) = .eq ∧ i < j) :
    f.Precedes (names.zip descending) i j := by
  replace h := mapM_eq_ok.1 h
  induction h generalizing descending with
  | nil => exact horder.elim nofun And.right
  | @cons name c names cs hc _ ih =>
    cases descending with
    | nil => cases length
    | cons d ds =>
      rw [List.zipWith_cons_cons, SortKey.order, Ordering.then_eq_lt, Ordering.then_eq_eq, ← Column.ahead_iff,
        ← Column.tied_iff] at horder
      refine ⟨c, hc, ?_⟩
      rcases horder with (ahead | ⟨tied, rest⟩) | ⟨⟨tied, rest⟩, hij⟩
      · exact .inl ahead
      · exact .inr ⟨tied, ih (Nat.succ.inj length) (.inl rest)⟩
      · exact .inr ⟨tied, ih (Nat.succ.inj length) (.inr ⟨rest, hij⟩)⟩

/-- The second frame holds these rows of the first one: each of them once and as it was, in the order of the keys with
their directions, those that no key tells apart in the order in which they came. -/
structure SortedAs (f g : Frame) (keys : List (String × Bool)) (rows : List Nat) : Prop where
  perm : rows.Perm (List.range f.height)
  height : g.height = f.height
  schema : g.schema = f.schema
  row : ∀ i j, rows[i]? = some j → g.row i = f.row j
  order : rows.Pairwise (f.Precedes keys)

theorem heightOf_of_mapM (hf : f.Rectangular) {names : List String} (grounded : names = [] → f.height = 0)
    {cs : List Column} (h : names.mapM f.column = .ok cs) : Column.heightOf cs = f.height := by
  cases cs with
  | nil => exact (grounded (List.forall₂_nil_right_iff.1 (mapM_eq_ok.1 h))).symm
  | cons c cs => exact heights_of_mapM hf h c List.mem_cons_self

/-- Sorting by known columns, as many directions as keys, loses no row and is stable, if there is a key at all or
nothing to sort. -/
theorem sortBy_sorts (hf : f.Rectangular) {names : List String} {descending : List Bool}
    (known : ∀ name ∈ names, name ∈ f.names) (length : names.length = descending.length)
    (grounded : names = [] → f.height = 0) :
    ∃ g rows, f.sortBy names descending = .ok g ∧ f.SortedAs g (names.zip descending) rows := by
  obtain ⟨cs, hcs⟩ := mapM_ok fun name h => by
    obtain ⟨c, hc⟩ := mem_names.1 (known name h)
    exact ⟨c, column_eq_ok.2 hc⟩
  obtain ⟨g, hg⟩ := @take_ok f hf (argsort f.height (cs.zipWith SortKey.mk descending)) fun grounded => by
    rw [length_argsort]
    exact hf.limit grounded
  have selects := selects_take hg
  refine ⟨g, _, ?_, List.mergeSort_perm .., selects.height.trans (length_argsort ..), selects.schema,
    fun i j => selects.row, ?_⟩
  · rw [sortBy, if_neg (not_not_intro length)]
    refine bind_eq_ok.2 ⟨cs, hcs, ?_⟩
    rwa [heightOf_of_mapM hf grounded hcs]
  · exact (SortKey.pairwise_argsort _ _).imp fun h => precedes_of_order hcs length h

theorem sortBy_nil (hf : f.Rectangular) : ∃ g, f.sortBy [] [] = .ok g ∧ g.height = 0 := by
  have none : argsort (Column.heightOf []) [] = [] := List.mergeSort_nil
  obtain ⟨g, hg⟩ := @take_ok f hf [] fun _ => Nat.zero_le _
  refine ⟨g, ?_, (selects_take hg).height⟩
  exact (congrArg (fun order : List Nat => f.take (order.map some).toArray) none).trans hg

def ratings : Frame :=
  ⟨[⟨"stars", .float64 #[some Double.one, some Double.nan, none, some Double.one, some Double.zero,
      some Double.one]⟩,
    ⟨"title", .string #[some "b", some "a", some "c", some "b", some "a", some "d"]⟩], 6⟩

theorem rectangular_ratings : ratings.Rectangular :=
  (sane_of_plain (by decide) (by decide) (by decide)).toRectangular

theorem sortBy_sorts_ratings :
    ∃ g rows, ratings.sortBy ["stars", "title"] [true, false] = .ok g ∧
      ratings.SortedAs g [("stars", true), ("title", false)] rows :=
  sortBy_sorts rectangular_ratings (by decide) rfl nofun

/-- By no key at all, all rows are lost. -/
theorem sortBy_noKeys :
    ∃ g, ratings.sortBy [] [] = .ok g ∧ g.height = 0 ∧ ∀ rows, ¬ratings.SortedAs g [] rows := by
  obtain ⟨g, hg, empty⟩ := sortBy_nil rectangular_ratings
  refine ⟨g, hg, empty, fun rows sorted => ?_⟩
  cases empty.symm.trans sorted.height

end Frame

end Columnar
