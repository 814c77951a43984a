import Columnar.Column.Import
import Columnar.Hashing
import Columnar.Join
import Columnar.Proofs.Stacking
import Mathlib.Data.List.Forall2

/-!
Rows with equal keys have equal hashes, whatever the hash functions are. Groups hash the places of a
dictionary, so there the rows must not stand for one text by two places.
-/

namespace Columnar

/-- Two rows do not stand for one text by two places of a dictionary. -/
def Column.OnePlace (c : Column) (i j : Nat) : Prop :=
  ∀ m n s, c.held? i = some (.category m s) → c.held? j = some (.category n s) → m = n

theorem Column.Sound.onePlace {c : Column} (h : c.Sound) (i j : Nat) : c.OnePlace i j :=
  fun _ _ _ => h.code_eq

theorem Double.canonicalBits_of_agree {x y : Float} (h : agree x y) :
    canonicalBits x = canonicalBits y := by
  simp only [agree, Bool.and_eq_true, Bool.or_eq_true, beq_iff_eq] at h
  obtain ⟨-, bits | ⟨hx, hy⟩⟩ := h
  · have zero : isZero x = isZero y := by rw [isZero, isZero, magnitudeBits, magnitudeBits, bits]
    rw [canonicalBits, canonicalBits, zero, bits]
  · simp only [canonicalBits, hx, hy, ↓reduceIte]

theorem Join.comparable_eq_ok {a b c d : Column} (h : comparable a b = .ok (c, d)) :
    sameSpace c.dtype d.dtype ∧ c.height = a.height ∧ d.height = b.height := by
  unfold comparable at h
  split at h
  next space =>
    cases h
    exact ⟨space, rfl, rfl⟩
  · split at h
    · cases h
      exact ⟨by simp [sameSpace], Column.height_cast .., Column.height_cast ..⟩
    · cases h

namespace Hasher

variable (h : Hasher)

theorem byText_eq_of_same {v w : Value} (space : Join.sameSpace v.dtype w.dtype)
    (hv : v.isMissing = false) (hw : w.isMissing = false) (same : v.same w) : h.byText v = h.byText w := by
  cases v <;> cases w <;>
    simp_all [Join.sameSpace, Value.dtype, Value.same, Value.isMissing, Value.float?, Value.int?,
      Value.text?, Value.agreeFloat, DType.isInteger, DType.isFloat, DType.isStringLike, DType.isNumeric,
      byText, code]
  all_goals exact congrArg h.word (Double.canonicalBits_of_agree same)

theorem code_eq_of_same {c : Column} {i j : Nat} (place : c.OnePlace i j) {v w : Value}
    (hv : c.value? i = some v) (hw : c.value? j = some w) (same : v.same w) : h.code v = h.code w := by
  obtain ⟨heldv, missv⟩ := Option.filter_eq_some_iff.1 hv
  obtain ⟨heldw, missw⟩ := Option.filter_eq_some_iff.1 hw
  have types : v.dtype = w.dtype := (Column.dtype_of_held? heldv).trans (Column.dtype_of_held? heldw).symm
  cases v with
  | category m s =>
    cases w with
    | category n t =>
      have text : s = t := by
        simpa [Value.same, Value.dtype, DType.isStringLike, Value.text?] using same
      subst text
      rw [place m n s heldv heldw]
    | _ => cases types
  | _ =>
    have text := h.byText_eq_of_same (by simp [Join.sameSpace, types]) (by simpa using missv)
      (by simpa using missw) same
    cases w <;> first | exact text | cases types

theorem getElem?_rows (f : Value → UInt64) (c : Column) (i : Nat) :
    (rows f c)[i]? = if i < c.height then some ((c.value? i).elim nullHash f) else none := by
  rw [rows, Array.getElem?_ofFn]
  split <;> rfl

def mix (columns : List (Array UInt64)) (x : UInt64) (i : Nat) : UInt64 :=
  columns.foldl (fun x ys => (ys[i]?.map (combineOne x)).getD x) x

theorem getElem?_combine (xs ys : Array UInt64) (i : Nat) :
    (combine xs ys)[i]? = xs[i]?.map fun x => (ys[i]?.map (combineOne x)).getD x := by
  rw [combine, Array.getElem?_mapIdx]

theorem getElem?_foldl_combine (columns : List (Array UInt64)) (xs : Array UInt64) (i : Nat) :
    (columns.foldl combine xs)[i]? = xs[i]?.map (mix columns · i) := by
  induction columns generalizing xs with
  | nil => simp [mix]
  | cons c cs ih =>
    rw [List.foldl_cons, ih, getElem?_combine, Option.map_map]
    rfl

theorem size_foldl_combine (columns : List (Array UInt64)) (xs : Array UInt64) :
    (columns.foldl combine xs).size = xs.size := by
  induction columns generalizing xs with
  | nil => rfl
  | cons c cs ih => rw [List.foldl_cons, ih, combine, Array.size_mapIdx]

theorem size_rows (f : Value → UInt64) (c : Column) : (rows f c).size = c.height := by simp [rows]

theorem size_keys (f : Value → UInt64) (columns : List Column) :
    (keys (columns.map (rows f)) 0).size = Column.heightOf columns := by
  cases columns with
  | nil => rfl
  | cons c cs => exact (size_foldl_combine _ _).trans (size_rows f c)

theorem mix_congr {xs ys : List (Array UInt64)} {i j : Nat}
    (all : List.Forall₂ (fun x y => x[i]? = y[j]?) xs ys) (x : UInt64) : mix xs x i = mix ys x j := by
  induction all generalizing x with
  | nil => rfl
  | cons hc _ ih =>
    rw [mix, List.foldl_cons, hc]
    exact ih _

theorem getElem?_keys_congr {xs ys : List (Array UInt64)} {i j : Nat}
    (all : List.Forall₂ (fun x y => x[i]? = y[j]?) xs ys) (nonempty : xs ≠ []) :
    (keys xs 0)[i]? = (keys ys 0)[j]? := by
  cases all with
  | nil => exact absurd rfl nonempty
  | cons first rest =>
    rw [keys, keys, getElem?_foldl_combine, getElem?_foldl_combine, first]
    exact congrArg (Option.map · _) (funext (mix_congr rest))

theorem getElem?_rows_of_groupEq {c : Column} {i j : Nat} (place : c.OnePlace i j) (hi : i < c.height)
    (hj : j < c.height) (eq : c.groupEq i c j) : (rows h.code c)[i]? = (rows h.code c)[j]? := by
  rw [getElem?_rows, getElem?_rows, if_pos hi, if_pos hj]
  unfold Column.groupEq at eq
  split at eq
  next hv hw => rw [hv, hw, Option.elim_some, Option.elim_some, h.code_eq_of_same place hv hw eq]
  next hv hw => rw [hv, hw]
  · cases eq

theorem getElem?_rows_of_joinEq {a b : Column} {i j : Nat} (space : Join.sameSpace a.dtype b.dtype)
    (eq : a.joinEq i b j) : (rows h.byText a)[i]? = (rows h.byText b)[j]? := by
  unfold Column.joinEq at eq
  split at eq
  next v w hv hw =>
    obtain ⟨heldv, missv⟩ := Option.filter_eq_some_iff.1 hv
    obtain ⟨heldw, missw⟩ := Option.filter_eq_some_iff.1 hw
    rw [getElem?_rows, getElem?_rows, if_pos (Column.lt_height_of_held? heldv),
      if_pos (Column.lt_height_of_held? heldw), hv, hw]
    rw [← Column.dtype_of_held? heldv, ← Column.dtype_of_held? heldw] at space
    exact congrArg some (h.byText_eq_of_same space (by simpa using missv) (by simpa using missw) eq)
  · cases eq

/-- Rows with equal keys have one hash: in a column as keys of groups, if they do not stand for one text by
two places of its dictionary, and in two columns that can be compared as keys of a join. -/
theorem rows_eq_of_equalKeys :
    (∀ (c : Column) (i j : Nat), i < c.height → j < c.height → c.groupEq i c j → c.OnePlace i j →
      (rows h.code c)[i]? = (rows h.code c)[j]?) ∧
    ∀ l r a b : Column, Join.comparable l r = .ok (a, b) → ∀ i j, a.joinEq i b j →
      (rows h.byText a)[i]? = (rows h.byText b)[j]? :=
  ⟨fun _ _ _ hi hj eq place => h.getElem?_rows_of_groupEq place hi hj eq, fun _ _ _ _ found _ _ eq =>
    h.getElem?_rows_of_joinEq (Join.comparable_eq_ok found).1 eq⟩

def repeatedLabel : Column := ⟨"c", .categorical ⟨#["a", "b", "a"], #[some 2, some 1, some 2, none, some 0]⟩⟩

def halves : Column := ⟨"h", .float32 #[none, some (Single.narrow Double.negativeZero)]⟩

def wholes : Column := ⟨"w", .int64 #[some 3, some 0]⟩

theorem rows_eq_of_equalKeys_zeros :
    (rows Hasher.standard.code repeatedLabel)[0]? = (rows Hasher.standard.code repeatedLabel)[2]? ∧
    (rows Hasher.standard.byText (halves.cast .float64))[1]? =
      (rows Hasher.standard.byText (wholes.cast .float64))[1]? := by
  refine ⟨(rows_eq_of_equalKeys .standard).1 repeatedLabel 0 2 (by decide) (by decide) (by decide) ?_,
    (rows_eq_of_equalKeys .standard).2 halves wholes _ _ rfl 1 1 (by decide)⟩
  intro m n s hm hn
  injection Option.some.inj (hm.symm.trans hn)

/-- A dictionary that is taken with one text in two places; its two rows are equal keys with two hashes. -/
theorem rows_ne_of_repeatedLabel :
    ¬ ∀ (c : Column) (rows : Dictionary), Column.ofForeign "c" (.dictionary rows) = .ok c →
      ∀ i j, i < c.height → j < c.height → c.groupEq i c j →
        (Hasher.rows Hasher.standard.code c)[i]? = (Hasher.rows Hasher.standard.code c)[j]? := by
  intro all
  have := all _ ⟨#["a", "a"], #[some 0, some 1]⟩ rfl 0 1 (by decide) (by decide) (by decide)
  revert this
  decide

end Hasher

end Columnar
