import Columnar.Error
import Mathlib.Algebra.Order.Ring.Nat
import Mathlib.Data.List.Forall2

namespace Columnar

theorem bind_eq_ok {x : Except ε α} {f : α → Except ε β} {b : β} :
    (x >>= f) = .ok b ↔ ∃ a, x = .ok a ∧ f a = .ok b := by
  cases x <;> simp [bind, Except.bind]

theorem map_eq_ok {x : Except ε α} {f : α → β} {b : β} :
    (f <$> x) = .ok b ↔ ∃ a, x = .ok a ∧ f a = b := by
  cases x <;> simp [Functor.map, Except.map]

theorem pure_eq_ok {a b : α} : (pure a : Except ε α) = .ok b ↔ a = b := by
  simp [pure, Except.pure]

theorem isOk_iff {x : Except ε α} : x.isOk ↔ ∃ a, x = .ok a := by
  cases x <;> simp [Except.isOk, Except.toBool]

theorem mapM_eq_ok {f : α → Except ε β} {xs : List α} {ys : List β} :
    xs.mapM f = .ok ys ↔ List.Forall₂ (fun x y => f x = .ok y) xs ys := by
  induction xs generalizing ys with
  | nil => rw [List.mapM_nil, pure_eq_ok, List.forall₂_nil_left_iff, eq_comm]
  | cons x xs ih =>
    rw [List.mapM_cons, List.forall₂_cons_left_iff]
    simp only [bind_eq_ok, ih, pure_eq_ok]
    constructor
    · rintro ⟨y, hy, zs, hzs, rfl⟩
      exact ⟨y, zs, hy, hzs, rfl⟩
    · rintro ⟨y, zs, hy, hzs, rfl⟩
      exact ⟨y, hy, zs, hzs, rfl⟩

theorem map_eq_map {R : α → β → Prop} {f : α → γ} {g : β → γ} {xs : List α} {ys : List β}
    (h : List.Forall₂ R xs ys) (hfg : ∀ x y, R x y → f x = g y) : xs.map f = ys.map g := by
  induction h with
  | nil => rfl
  | cons hxy _ ih => rw [List.map_cons, List.map_cons, hfg _ _ hxy, ih]

theorem mapM_eq_mapM {R : α → β → Prop} {f : α → Except ε γ} {g : β → Except ε γ} {xs : List α} {ys : List β}
    (h : List.Forall₂ R xs ys) (hfg : ∀ x y, R x y → f x = g y) : xs.mapM f = ys.mapM g := by
  induction h with
  | nil => rfl
  | cons hxy _ ih => rw [List.mapM_cons, List.mapM_cons, hfg _ _ hxy, ih]

theorem exists_right {R : α → β → Prop} {xs : List α} {ys : List β} (h : List.Forall₂ R xs ys) :
    ∀ x ∈ xs, ∃ y ∈ ys, R x y := by
  induction h with
  | nil => nofun
  | @cons x y _ _ hxy _ ih =>
    rw [List.forall_mem_cons]
    refine ⟨⟨y, List.mem_cons_self, hxy⟩, fun z hz => ?_⟩
    obtain ⟨w, hw, hzw⟩ := ih z hz
    exact ⟨w, List.mem_cons_of_mem y hw, hzw⟩

theorem exists_left {R : α → β → Prop} {xs : List α} {ys : List β} (h : List.Forall₂ R xs ys) :
    ∀ y ∈ ys, ∃ x ∈ xs, R x y := exists_right h.flip

theorem forall₂_common {R : α → β → Prop} {S : α → γ → Prop} {T : β → γ → Prop} {xs : List α}
    {ys : List β} {zs : List γ} (h : List.Forall₂ R xs ys) (h' : List.Forall₂ S xs zs)
    (t : ∀ x, ∀ y ∈ ys, ∀ z ∈ zs, R x y → S x z → T y z) : List.Forall₂ T ys zs := by
  induction h generalizing zs with
  | nil =>
    rw [List.forall₂_nil_left_iff] at h'
    rw [h']
    exact .nil
  | @cons x y _ _ hxy _ ih =>
    cases h' with
    | cons hxz rest =>
      refine .cons (t x y List.mem_cons_self _ List.mem_cons_self hxy hxz) (ih rest ?_)
      exact fun x y hy z hz => t x y (List.mem_cons_of_mem _ hy) z (List.mem_cons_of_mem _ hz)

theorem mapM_range {xs : List α} {build : Nat → Except ε β} {f : α → Except ε β}
    (h : ∀ i x, xs[i]? = some x → build i = f x) : (List.range xs.length).mapM build = xs.mapM f := by
  induction xs generalizing build with
  | nil => rfl
  | cons x xs ih =>
    rw [List.length_cons, List.range_succ_eq_map, List.mapM_cons, List.mapM_cons, List.mapM_map,
      h 0 x rfl, @ih (build ∘ Nat.succ) fun i y hy => h (i + 1) y hy]

theorem mapM_ok {f : α → Except ε β} {xs : List α} (h : ∀ x ∈ xs, ∃ y, f x = .ok y) :
    ∃ ys, xs.mapM f = .ok ys := by
  induction xs with
  | nil => exact ⟨[], rfl⟩
  | cons x xs ih =>
    obtain ⟨y, hy⟩ := h x List.mem_cons_self
    obtain ⟨ys, hys⟩ := ih fun z hz => h z (List.mem_cons_of_mem x hz)
    exact ⟨y :: ys, by rw [List.mapM_cons, hy, hys]; rfl⟩

theorem mapM_ok_map {f : α → Except ε β} {g : β → γ} {k : α → γ} {xs : List α}
    (h : ∀ x ∈ xs, ∃ y, f x = .ok y ∧ g y = k x) : ∃ ys, xs.mapM f = .ok ys ∧ ys.map g = xs.map k := by
  induction xs with
  | nil => exact ⟨[], rfl, rfl⟩
  | cons x xs ih =>
    obtain ⟨y, hy, hk⟩ := h x List.mem_cons_self
    obtain ⟨ys, hys, hks⟩ := ih fun z hz => h z (List.mem_cons_of_mem x hz)
    exact ⟨y :: ys, by rw [List.mapM_cons, hy, hys]; rfl, by rw [List.map_cons, List.map_cons, hk, hks]⟩

/-- Where the first computation succeeds the second one does, with a related outcome. -/
def Follows (R : α → β → Prop) (x : Except ε α) (y : Except ε β) : Prop :=
  ∀ a, x = .ok a → ∃ b, y = .ok b ∧ R a b

namespace Follows

variable {R : α → β → Prop} {S : γ → δ → Prop} {x : Except ε α} {y : Except ε β}

theorem ok {a : α} {b : β} (h : R a b) : Follows (ε := ε) R (.ok a) (.ok b) := by
  rintro _ ⟨⟩
  exact ⟨b, rfl, h⟩

theorem error {e : ε} : Follows R (.error e) y := nofun

theorem bind {f : α → Except ε γ} {g : β → Except ε δ} (h : Follows R x y)
    (hfg : ∀ a b, R a b → Follows S (f a) (g b)) : Follows S (x >>= f) (y >>= g) := by
  intro c hc
  obtain ⟨a, ha, hc⟩ := bind_eq_ok.1 hc
  obtain ⟨b, hb, hab⟩ := h a ha
  obtain ⟨d, hd, hcd⟩ := hfg a b hab c hc
  exact ⟨d, bind_eq_ok.2 ⟨b, hb, hd⟩, hcd⟩

theorem map {f : α → γ} {g : β → δ} (h : Follows R x y) (hfg : ∀ a b, R a b → S (f a) (g b)) :
    Follows S (f <$> x) (g <$> y) := by
  intro c hc
  obtain ⟨a, ha, rfl⟩ := map_eq_ok.1 hc
  obtain ⟨b, hb, hab⟩ := h a ha
  exact ⟨g b, map_eq_ok.2 ⟨b, hb, rfl⟩, hfg a b hab⟩

theorem mono {R' : α → β → Prop} (h : Follows R x y) (hR : ∀ a b, x = .ok a → y = .ok b → R a b → R' a b) :
    Follows R' x y := by
  intro a ha
  obtain ⟨b, hb, hab⟩ := h a ha
  exact ⟨b, hb, hR a b ha hb hab⟩

theorem mapM {f : α → Except ε γ} {g : β → Except ε δ} {xs : List α} {ys : List β}
    (h : List.Forall₂ (fun a b => Follows S (f a) (g b)) xs ys) :
    Follows (List.Forall₂ S) (xs.mapM f) (ys.mapM g) := by
  induction h with
  | nil => exact ok .nil
  | cons hxy _ ih =>
    rw [List.mapM_cons, List.mapM_cons]
    refine hxy.bind fun c d hcd => ih.bind fun cs ds hcsds => ?_
    exact ok (.cons hcd hcsds)

end Follows

/-- Both computations fail, or both succeed with related outcomes. -/
inductive Agrees (R : α → β → Prop) : Except ε α → Except ε β → Prop
  | ok {a : α} {b : β} (h : R a b) : Agrees R (.ok a) (.ok b)
  | error (e e' : ε) : Agrees R (.error e) (.error e')

namespace Agrees

variable {R : α → β → Prop} {S : γ → δ → Prop} {x : Except ε α} {y : Except ε β}

theorem follows (h : Agrees R x y) : Follows R x y := by
  cases h with
  | ok h => exact .ok h
  | error => exact .error

theorem follows_back (h : Agrees R x y) : Follows (fun b a => R a b) y x := by
  cases h with
  | ok h => exact .ok h
  | error => exact .error

theorem bind {f : α → Except ε γ} {g : β → Except ε δ} (h : Agrees R x y)
    (hfg : ∀ a b, R a b → Agrees S (f a) (g b)) : Agrees S (x >>= f) (y >>= g) := by
  cases h with
  | ok h => exact hfg _ _ h
  | error e e' => exact .error e e'

theorem map {f : α → γ} {g : β → δ} (h : Agrees R x y) (hfg : ∀ a b, R a b → S (f a) (g b)) :
    Agrees S (f <$> x) (g <$> y) := by
  cases h with
  | ok h => exact .ok (hfg _ _ h)
  | error e e' => exact .error e e'

theorem along {T : α → α' → Prop} {U : β → β' → Prop} {V : α' → β' → Prop} {x' : Except ε α'}
    {y' : Except ε β'} (h : Agrees R x y) (hx : Agrees T x x') (hy : Agrees U y y')
    (hV : ∀ a b a' b', R a b → T a a' → U b b' → V a' b') : Agrees V x' y' := by
  cases h with
  | ok h =>
    cases hx with
    | ok hx =>
      cases hy with
      | ok hy => exact .ok (hV _ _ _ _ h hx hy)
  | error =>
    cases hx
    cases hy
    exact .error _ _

end Agrees

/-- Both computations fail with one error, or both succeed with related outcomes. -/
inductive Coincides (R : α → β → Prop) : Except ε α → Except ε β → Prop
  | ok {a : α} {b : β} (h : R a b) : Coincides R (.ok a) (.ok b)
  | error (e : ε) : Coincides R (.error e) (.error e)

namespace Coincides

variable {R : α → β → Prop} {S : γ → δ → Prop} {x : Except ε α} {y : Except ε β}

theorem intro (works : ∀ b, y = .ok b → ∃ a, x = .ok a ∧ R a b) (fails : ∀ e, y = .error e → x = .error e) :
    Coincides R x y := by
  cases y with
  | ok b =>
    obtain ⟨a, rfl, h⟩ := works b rfl
    exact .ok h
  | error e => exact fails e rfl ▸ .error e

theorem bind {f : α → Except ε γ} {g : β → Except ε δ} (h : Coincides R x y)
    (hfg : ∀ a b, R a b → Coincides S (f a) (g b)) : Coincides S (x >>= f) (y >>= g) := by
  cases h with
  | ok h => exact hfg _ _ h
  | error e => exact .error e

theorem map {f : α → γ} {g : β → δ} (h : Coincides R x y) (hfg : ∀ a b, R a b → S (f a) (g b)) :
    Coincides S (f <$> x) (g <$> y) := by
  cases h with
  | ok h => exact .ok (hfg _ _ h)
  | error e => exact .error e

theorem mono {R' : α → β → Prop} (h : Coincides R x y) (hR : ∀ a b, R a b → R' a b) : Coincides R' x y := by
  cases h with
  | ok h => exact .ok (hR _ _ h)
  | error e => exact .error e

theorem error_of_common {x' : Except ε γ} {T : γ → β → Prop} (h : Coincides R x y) (h' : Coincides T x' y) {e : ε}
    (hx : x = .error e) : x' = .error e := by
  subst hx
  cases h
  cases h'
  rfl

end Coincides

end Columnar
