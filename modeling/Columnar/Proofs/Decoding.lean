import Columnar.Expr.Json
import Columnar.Proofs.Evaluation

namespace Columnar

@[simp] theorem DType.ofTag?_tag (t : DType) : ofTag? t.tag = some t := by cases t <;> rfl

@[simp] theorem Aggregation.ofTag?_tag (op : Aggregation) : ofTag? op.tag = some op := by cases op <;> rfl

@[simp] theorem BinaryOp.ofTag?_tag (op : BinaryOp) : ofTag? op.tag = some op := by cases op <;> rfl

@[simp] theorem Json.int64?_toInt (i : Int64) : int64? (.int i.toInt) = some i := by
  have bounds : Int64.minValue.toInt ≤ i.toInt ∧ i.toInt ≤ Int64.maxValue.toInt := ⟨i.minValue_le_toInt, i.toInt_le⟩
  rw [int64?, if_pos bounds, Int64.ofInt_toInt]

namespace Scalar

def finite : Scalar → Bool
  | float x => Double.isFinite x
  | _ => true

theorem ofJson?_toJson (v : Scalar) : ofJson? v.toJson = if v.finite then some v else none := by
  cases v with
  | int i => simp [toJson, ofJson?, finite]
  | float x =>
    rw [toJson, finite]
    split <;> rfl
  | text => rfl
  | bool => rfl
  | null => simp [toJson, ofJson?, finite, Json.name?]

end Scalar

namespace Expr

def finite (e : Expr) : Bool :=
  e.nodes.all fun
    | literal v => v.finite
    | _ => true

theorem finite_iff (e : Expr) : e.finite ↔ ∀ x, literal (.float x) ∈ e.nodes → Double.isFinite x := by
  rw [finite, List.all_eq_true]
  constructor
  · exact fun h x hx => h _ hx
  · intro h n hn
    cases n with
    | literal v =>
      cases v with
      | float x => exact h x hn
      | _ => rfl
    | _ => rfl

theorem finite_literal (v : Scalar) : (literal v).finite = v.finite := by simp [finite, nodes]

theorem finite_eq {e : Expr} (h : ∀ v, e ≠ literal v) : e.finite = e.children.all finite := by
  rw [finite, nodes_eq, List.all_cons, List.all_flatMap]
  cases e with
  | literal v => exact absurd rfl (h v)
  | _ => rfl

theorem exists_toJson (e : Expr) : ∃ fields, e.toJson = .object fields := by
  cases e <;> exact ⟨_, by rw [toJson]⟩

theorem lastPart?_eq (found : Option Json) (fields : List (String × Json)) (name : String) :
    lastPart? (found.bind ofJson?) fields name =
      (fields.foldl (fun found (k, v) => if k = name then some v else found) found).bind ofJson? := by
  induction fields generalizing found with
  | nil => rw [lastPart?, List.foldl_nil]
  | cons field fields ih =>
    obtain ⟨k, v⟩ := field
    rw [lastPart?, List.foldl_cons, ← ih]
    by_cases hk : k = name <;> simp [hk]

theorem part?_eq (body : Json) (name : String) : part? body name = (body.field? name).bind ofJson? := by
  cases body with
  | object fields => exact lastPart?_eq none fields name
  | _ => simp [part?, Json.field?]

theorem ofJsonAll?_eq (vs : List Json) : ofJsonAll? vs = vs.mapM ofJson? := by
  induction vs with
  | nil => simp [ofJsonAll?]
  | cons v vs ih => simp [ofJsonAll?, ih]

theorem toJsonAll_eq (es : List Expr) : toJsonAll es = es.map toJson := by
  induction es with
  | nil => simp [toJsonAll]
  | cons e es ih => simp [toJsonAll, ih]

/-- What an expression is read back as. -/
def ReadsBack (e : Expr) : Prop := ofJson? e.toJson = if e.finite then some e else none

theorem readsBack_all {es : List Expr} (h : ∀ e ∈ es, e.ReadsBack) :
    ofJsonAll? (toJsonAll es) = if es.all finite then some es else none := by
  rw [ofJsonAll?_eq, toJsonAll_eq]
  induction es with
  | nil => rfl
  | cons e es ih =>
    obtain ⟨he, hes⟩ := List.forall_mem_cons.1 h
    rw [List.map_cons, List.mapM_cons, he, ih hes, List.all_cons]
    cases e.finite <;> cases es.all finite <;> rfl

theorem bind_ite_none {p : Prop} [Decidable p] (x : α) (f : α → Option β) :
    (if p then some x else none).bind f = if p then f x else none := by
  split <;> rfl

theorem readsBack (e : Expr) : e.ReadsBack := by
  induction e using parts_induction with
  | step e parts =>
    unfold ReadsBack at parts ⊢
    cases e with
    | column c => simp [toJson, ofJson?, ofParts?, Json.text?, finite_eq, children]
    | literal v => simp [toJson, ofJson?, ofParts?, Scalar.ofJson?_toJson, finite_literal]
    | coalesce es =>
      have all := @readsBack_all es parts
      simp [toJson, ofJson?, ofParts?, items?, all, finite_eq, children]
    | not e | isNull e | isNotNull e =>
      have he := parts e (by simp [children])
      simp [toJson, ofJson?, ofParts?, he, finite_eq, children]
    | named e | aggregate _ e | cast e | structField e | listGet e =>
      have he := parts e (by simp [children])
      simp [toJson, ofJson?, ofParts?, part?_eq, Json.field?, Json.last?, Json.text?, Json.name?, he, bind_ite_none,
        finite_eq, children]
    | binary _ l r | fillNull l r | when l r =>
      have hl := parts l (by simp [children])
      have hr := parts r (by simp [children])
      simp [toJson, ofJson?, ofParts?, part?_eq, Json.field?, Json.last?, Json.name?, hl, hr, bind_ite_none, ite_and,
        finite_eq, children]
    | whenElse c v o =>
      have hc := parts c (by simp [children])
      have hv := parts v (by simp [children])
      have ho := parts o (by simp [children])
      -- What stands for the other value is no null, which would be read as there being none.
      obtain ⟨fields, eq⟩ := exists_toJson o
      rw [eq] at ho
      simp [toJson, ofJson?, ofParts?, part?_eq, Json.field?, Json.last?, hc, hv, ho, eq, bind_ite_none, ite_and,
        finite_eq, children]

/-- An expression is read back as what it was, and one that holds a float that is no finite number is rejected. -/
theorem readBack_or_rejected (e : Expr) :
    ((∀ x, literal (.float x) ∈ e.nodes → Double.isFinite x) → ofJson? e.toJson = some e) ∧
      ((∃ x, literal (.float x) ∈ e.nodes ∧ ¬Double.isFinite x) → ofJson? e.toJson = none) := by
  constructor
  · intro h
    rw [readsBack e, if_pos ((finite_iff e).2 h)]
  · rintro ⟨x, hx, infinite⟩
    rw [readsBack e, if_neg fun h => infinite ((finite_iff e).1 h x hx)]

def fallbacks (x : Float) : Expr :=
  whenElse (isNull (column "Null")) (fillNull (listGet (column "a") 0) (literal (.float x)))
    (coalesce [literal .null, when (binary .gt (column "b") (literal (.text "null"))) (cast (column "c") .null)])

theorem readBack_fallbacks :
    ofJson? (fallbacks Double.negativeZero).toJson = some (fallbacks Double.negativeZero) ∧
      ofJson? (fallbacks Double.nan).toJson = none :=
  ⟨(readBack_or_rejected _).1 ((finite_iff _).1 (by decide)),
    (readBack_or_rejected _).2 ⟨Double.nan, by simp [fallbacks, nodes], by decide⟩⟩

end Expr

end Columnar
