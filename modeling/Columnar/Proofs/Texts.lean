import Columnar.Proofs.Evaluation
import Columnar.Proofs.Literals

/-!
Expressions of one text are the same. The text is a chain of calls, each from its keyword to its closing
bracket, and only the names of columns, which are not quoted, can hide such a bracket.
-/

namespace Columnar.Expr

/-- A call in the chain of calls as which an expression is written. -/
inductive Link
  | column (name : String)
  | literal (v : Scalar)
  | operands (op : BinaryOp) (l r : Expr)
  | not (e : Expr)
  | when (cond val : Expr)
  | coalesce (inputs : List Expr)
  | named (name : String)
  | aggregate (op : Aggregation)
  | cast (dtype : DType)
  | isNull
  | isNotNull
  | fillNull (fill : Expr)
  | structField (field : String)
  | listGet (index : Int64)
  | otherwise (other : Expr)

def chain : Expr → List Link
  | column n => [.column n]
  | literal v => [.literal v]
  | binary op l r => [.operands op l r]
  | not e => [.not e]
  | when c v => [.when c v]
  | whenElse c v o => [.when c v, .otherwise o]
  | coalesce es => [.coalesce es]
  | named e n => e.chain ++ [.named n]
  | aggregate op e => e.chain ++ [.aggregate op]
  | cast e t => e.chain ++ [.cast t]
  | isNull e => e.chain ++ [.isNull]
  | isNotNull e => e.chain ++ [.isNotNull]
  | fillNull e fill => e.chain ++ [.fillNull fill]
  | structField e f => e.chain ++ [.structField f]
  | listGet e i => e.chain ++ [.listGet i]

namespace Link

def attach : Expr → Link → Expr
  | _, column n => .column n
  | _, literal v => .literal v
  | _, operands op l r => .binary op l r
  | _, not e => .not e
  | _, when c v => .when c v
  | _, coalesce es => .coalesce es
  | .when c v, otherwise o => .whenElse c v o
  | e, otherwise _ => e
  | e, named n => .named e n
  | e, aggregate op => .aggregate op e
  | e, cast t => .cast e t
  | e, isNull => .isNull e
  | e, isNotNull => .isNotNull e
  | e, fillNull fill => .fillNull e fill
  | e, structField f => .structField e f
  | e, listGet i => .listGet e i

def parts : Link → List Expr
  | operands _ l r => [l, r]
  | not e | fillNull e | otherwise e => [e]
  | when c v => [c, v]
  | coalesce es => es
  | _ => []

inductive Keyword
  | column | literal | operands | not | when | coalesce | named | cast | isNull | isNotNull | fillNull
  | structField | listGet | otherwise
  | aggregate (op : Aggregation)
  deriving DecidableEq

def keyword : Link → Keyword
  | column _ => .column
  | literal _ => .literal
  | operands .. => .operands
  | not _ => .not
  | when .. => .when
  | coalesce _ => .coalesce
  | named _ => .named
  | aggregate op => .aggregate op
  | cast _ => .cast
  | isNull => .isNull
  | isNotNull => .isNotNull
  | fillNull _ => .fillNull
  | structField _ => .structField
  | listGet _ => .listGet
  | otherwise _ => .otherwise

namespace Keyword

def text : Keyword → String
  | column => "col"
  | literal => "lit"
  | operands => ""
  | not => "not"
  | when => "when"
  | coalesce => "coalesce"
  | named => ".alias"
  | aggregate op => "." ++ op.text
  | cast => ".cast"
  | isNull => ".is_null"
  | isNotNull => ".is_not_null"
  | fillNull => ".fill_null"
  | structField => ".field"
  | listGet => ".list.get"
  | otherwise => ".otherwise"

def all : List Keyword :=
  [column, literal, operands, not, when, coalesce, named, cast, isNull, isNotNull, fillNull, structField, listGet,
    otherwise] ++ Aggregation.all.map aggregate

theorem mem_all (k : Keyword) : k ∈ all := by
  cases k with
  | aggregate op => cases op <;> decide
  | _ => decide

def isCall : Keyword → Bool
  | column | literal | operands | not | when | coalesce => false
  | _ => true

theorem head_text {k : Keyword} (h : k.isCall) : k.text.toList.head? = some '.' := by
  have each : ∀ k ∈ all, k.isCall → k.text.toList.head? = some '.' := by decide
  exact each k (mem_all k) h

theorem text_injective : Function.Injective text := by
  have each : ∀ k ∈ all, ∀ k' ∈ all, k.text = k'.text → k = k' := by decide
  exact fun k k' => each k (mem_all k) k' (mem_all k')

theorem bracket_notMem (k : Keyword) : '(' ∉ k.text.toList := by
  have each : ∀ k ∈ all, '(' ∉ k.text.toList := by decide
  exact each k (mem_all k)

end Keyword

def body : Link → List Char
  | column n | named n => n.toList ++ [')']
  | literal v => v.render.toList ++ [')']
  | operands op l r => l.text.toList ++ ' ' :: (op.symbol.toList ++ ' ' :: (r.text.toList ++ [')']))
  | not e | fillNull e | otherwise e => e.text.toList ++ [')']
  | when c v => c.text.toList ++ ").then(".toList ++ v.text.toList ++ [')']
  | coalesce es => (", ".intercalate (texts es)).toList ++ [')']
  | aggregate _ | isNull | isNotNull => [')']
  | cast t => t.text.toList ++ [')']
  | structField f => (Text.quoted f).toList ++ [')']
  | listGet i => (toString i.toInt).toList ++ [')']

def word (k : Link) : List Char := k.keyword.text.toList ++ '(' :: k.body

end Link

theorem foldl_chain (e base : Expr) : e.chain.foldl Link.attach base = e := by
  induction e using parts_induction with
  | step e ih =>
    cases e <;> simp_all [chain, Link.attach, children]

theorem chain_injective : Function.Injective chain := fun e e' same => by
  rw [← foldl_chain e default, same, foldl_chain]

theorem toList_text (e : Expr) : e.text.toList = e.chain.flatMap Link.word := by
  induction e using parts_induction with
  | step e ih =>
    cases e <;> simp_all [chain, text, Link.word, Link.keyword, Link.Keyword.text, Link.body, children]

/-- A name with the bracket after it does not begin the other name. -/
def Separate (n n' : String) : Prop := ¬ n.toList ++ [')'] <+: n'.toList ∧ ¬ n'.toList ++ [')'] <+: n.toList

instance (n n' : String) : Decidable (Separate n n') := inferInstanceAs (Decidable (_ ∧ _))

theorem Separate.decodes {n n' : String} (h : Separate n n') {r s : List Char}
    (same : n.toList ++ ')' :: r = n'.toList ++ ')' :: s) : n = n' ∧ r = s := by
  have longer {cs t r s : List Char} (rest : ')' :: r = t ++ ')' :: s) (apart : ¬ cs ++ [')'] <+: cs ++ t) :
      t = [] := by
    cases t with
    | nil => rfl
    | cons d t =>
      obtain rfl := (List.cons.inj rest).1
      exact absurd ⟨t, by simp⟩ apart
  obtain ⟨t, longer', rest⟩ | ⟨t, longer', rest⟩ := List.append_eq_append_iff.1 same
  · obtain rfl := longer rest (longer' ▸ h.1)
    exact ⟨String.toList_inj.1 (by rw [longer', List.append_nil]), (List.cons.inj rest).2⟩
  · obtain rfl := longer rest (longer' ▸ h.2)
    exact ⟨String.toList_inj.1 (by rw [longer', List.append_nil]), (List.cons.inj rest).2.symm⟩

def Stops (r : List Char) : Prop := r.head? ≠ some '.'

/-- Texts of these two expressions are the same only if the expressions are, whatever follows them. -/
def Decodes (e e' : Expr) : Prop :=
  ∀ ⦃r s⦄, Stops r → Stops s → e.text.toList ++ r = e'.text.toList ++ s → e = e' ∧ r = s

theorem exists_chain (e : Expr) : ∃ k ks, e.chain = k :: ks ∧ ∀ x ∈ ks, x.keyword.isCall := by
  induction e using parts_induction with
  | step e ih =>
    have more {x : Expr} (hx : x ∈ e.children) {c : Link} (hc : c.keyword.isCall) :
        ∃ k ks, x.chain ++ [c] = k :: ks ∧ ∀ y ∈ ks, y.keyword.isCall := by
      obtain ⟨k, ks, chain, hks⟩ := ih x hx
      exact ⟨k, ks ++ [c], by rw [chain]; rfl, List.forall_mem_append.2 ⟨hks, List.forall_mem_singleton.2 hc⟩⟩
    cases e with
    | column | literal | binary | not | when | coalesce => exact ⟨_, [], rfl, nofun⟩
    | whenElse => exact ⟨_, _, rfl, List.forall_mem_singleton.2 rfl⟩
    | _ => exact more List.mem_cons_self rfl

theorem text_ne_bracket (e : Expr) (r : List Char) (cs : List Char) : e.text.toList ++ r ≠ ')' :: cs := by
  obtain ⟨k, ks, chain, -⟩ := exists_chain e
  have keywords : ∀ k ∈ Link.Keyword.all, ')' ∉ k.text.toList := by decide
  intro same
  rw [toList_text, chain, List.flatMap_cons, Link.word] at same
  cases first : k.keyword.text.toList with
  | nil =>
    rw [first] at same
    exact absurd (List.cons.inj same).1 (by decide)
  | cons c rest =>
    rw [first] at same
    exact keywords _ (Link.Keyword.mem_all k.keyword)
      (first ▸ (List.cons.inj same).1 ▸ List.mem_cons_self)

namespace Link

structure Told (k k' : Link) : Prop where
  parts : ∀ x ∈ k.parts, ∀ x' ∈ k'.parts, Decodes x x'
  columns : ∀ n n', k = .column n → k' = .column n' → Separate n n'
  names : ∀ n n', k = .named n → k' = .named n' → Separate n n'

theorem stops_cons {c : Char} (r : List Char) (h : c ≠ '.') : Stops (c :: r) := fun first =>
  h (Option.some.inj first)

theorem dtype_prefixCode : PrefixCode fun t : DType => t.text.toList ++ [')'] := by
  have injective : ∀ t ∈ DType.all, ∀ t' ∈ DType.all, t.text.toList = t'.text.toList → t = t' := by decide
  have inside : ∀ t ∈ DType.all, ')' ∉ t.text.toList := by decide
  exact .of_end (fun t t' => injective t (DType.mem_all t) t' (DType.mem_all t')) fun t =>
    inside t (DType.mem_all t)

theorem symbol_prefixCode : PrefixCode fun op : BinaryOp => op.symbol.toList ++ [' '] := by
  refine .of_end (fun op op' => ?_) fun op => ?_
  · cases op <;> cases op' <;> decide
  · cases op <;> decide

theorem index_prefixCode : PrefixCode fun i : Int64 => (toString i.toInt).toList ++ [')'] := by
  refine .of_end (fun i j same => ?_) fun i bracket => ?_
  · have read := Decimal.exponent?_toString i.toInt
    rw [show (toString i.toInt).toList = _ from same, Decimal.exponent?_toString] at read
    exact Int64.toInt_inj.1 (Option.some.inj read).symm
  · exact absurd (Decimal.numeral_toString i.toInt _ bracket) (by decide)

theorem stops_inputs (es : List Expr) (r : List Char) :
    Stops (es.flatMap (fun x => ',' :: ' ' :: x.text.toList) ++ ')' :: r) := by
  cases es with
  | nil => exact stops_cons _ (by decide)
  | cons e es => exact stops_cons _ (by decide)

theorem toList_inputs (e : Expr) (es : List Expr) : (", ".intercalate (texts (e :: es))).toList =
    e.text.toList ++ es.flatMap fun x => ',' :: ' ' :: x.text.toList := by
  induction es generalizing e with
  | nil => rw [texts, texts, String.intercalate_singleton, List.flatMap_nil, List.append_nil]
  | cons x es ih =>
    have separator : ", ".toList = [',', ' '] := rfl
    rw [texts, texts, String.intercalate_cons_cons, ← texts, String.toList_append, String.toList_append, ih,
      separator, List.flatMap_cons]
    simp

theorem later_inputs_decode {es es' : List Expr} (h : ∀ x ∈ es, ∀ x' ∈ es', Decodes x x') {r s : List Char}
    (same : es.flatMap (fun x => ',' :: ' ' :: x.text.toList) ++ ')' :: r =
      es'.flatMap (fun x => ',' :: ' ' :: x.text.toList) ++ ')' :: s) : es = es' ∧ r = s := by
  induction es generalizing es' with
  | nil =>
    cases es' with
    | nil => exact ⟨rfl, (List.cons.inj same).2⟩
    | cons e' es' => exact absurd (List.cons.inj same).1 (by decide)
  | cons e es ih =>
    cases es' with
    | nil => exact absurd (List.cons.inj same).1 (by decide)
    | cons e' es' =>
      simp only [List.flatMap_cons, List.cons_append, List.append_assoc, List.cons.injEq, true_and] at same
      obtain ⟨rfl, later⟩ := h e List.mem_cons_self e' List.mem_cons_self (stops_inputs es r)
        (stops_inputs es' s) same
      obtain ⟨rfl, rest⟩ := ih (fun x hx x' hx' =>
        h x (List.mem_cons_of_mem _ hx) x' (List.mem_cons_of_mem _ hx')) later
      exact ⟨rfl, rest⟩

theorem inputs_decode {es es' : List Expr} (h : ∀ x ∈ es, ∀ x' ∈ es', Decodes x x') {r s : List Char}
    (same : (", ".intercalate (texts es)).toList ++ ')' :: r = (", ".intercalate (texts es')).toList ++ ')' :: s) :
    es = es' ∧ r = s := by
  cases es with
  | nil =>
    cases es' with
    | nil => exact ⟨rfl, (List.cons.inj same).2⟩
    | cons e' es' =>
      rw [toList_inputs, List.append_assoc] at same
      exact absurd same.symm (text_ne_bracket e' _ _)
  | cons e es =>
    cases es' with
    | nil =>
      rw [toList_inputs, List.append_assoc] at same
      exact absurd same (text_ne_bracket e _ _)
    | cons e' es' =>
      rw [toList_inputs, toList_inputs, List.append_assoc, List.append_assoc] at same
      obtain ⟨rfl, later⟩ := h e List.mem_cons_self e' List.mem_cons_self (stops_inputs es r)
        (stops_inputs es' s) same
      obtain ⟨rfl, rest⟩ := later_inputs_decode (fun x hx x' hx' =>
        h x (List.mem_cons_of_mem _ hx) x' (List.mem_cons_of_mem _ hx')) later
      exact ⟨rfl, rest⟩

theorem closed_decodes {e e' : Expr} (h : Decodes e e') {r s : List Char}
    (same : e.text.toList ++ ')' :: r = e'.text.toList ++ ')' :: s) : e = e' ∧ r = s := by
  obtain ⟨rfl, rest⟩ := h (stops_cons _ (by decide)) (stops_cons _ (by decide)) same
  exact ⟨rfl, (List.cons.inj rest).2⟩

theorem Told.body {k k' : Link} (h : Told k k') (keyword : k.keyword = k'.keyword) {r s : List Char}
    (same : k.body ++ r = k'.body ++ s) : k = k' ∧ r = s := by
  cases k <;> cases k' <;> cases keyword
  case literal.literal v v' =>
    obtain ⟨rfl, rest⟩ := Scalar.render_prefixCode same
    exact ⟨rfl, rest⟩
  case cast.cast t t' =>
    obtain ⟨rfl, rest⟩ := dtype_prefixCode same
    exact ⟨rfl, rest⟩
  case listGet.listGet i i' =>
    obtain ⟨rfl, rest⟩ := index_prefixCode same
    exact ⟨rfl, rest⟩
  all_goals
    simp only [Link.body, List.append_assoc, List.cons_append, List.nil_append] at same
  case column.column n n' =>
    obtain ⟨rfl, rest⟩ := (h.columns n n' rfl rfl).decodes same
    exact ⟨rfl, rest⟩
  case named.named n n' =>
    obtain ⟨rfl, rest⟩ := (h.names n n' rfl rfl).decodes same
    exact ⟨rfl, rest⟩
  case structField.structField f f' =>
    obtain ⟨rfl, rest⟩ := Text.quoted_prefixCode same
    exact ⟨rfl, (List.cons.inj rest).2⟩
  case not.not e e' =>
    obtain ⟨rfl, rest⟩ := closed_decodes (h.parts e List.mem_cons_self e' List.mem_cons_self) same
    exact ⟨rfl, rest⟩
  case fillNull.fillNull e e' =>
    obtain ⟨rfl, rest⟩ := closed_decodes (h.parts e List.mem_cons_self e' List.mem_cons_self) same
    exact ⟨rfl, rest⟩
  case otherwise.otherwise e e' =>
    obtain ⟨rfl, rest⟩ := closed_decodes (h.parts e List.mem_cons_self e' List.mem_cons_self) same
    exact ⟨rfl, rest⟩
  case operands.operands op x y op' x' y' =>
    obtain ⟨rfl, later⟩ := h.parts x List.mem_cons_self x' List.mem_cons_self (stops_cons _ (by decide))
      (stops_cons _ (by decide)) same
    have symbols : op.symbol.toList ++ [' '] ++ (y.text.toList ++ ')' :: r) =
        op'.symbol.toList ++ [' '] ++ (y'.text.toList ++ ')' :: s) := by
      simpa using (List.cons.inj later).2
    obtain ⟨rfl, right⟩ := symbol_prefixCode symbols
    obtain ⟨rfl, rest⟩ := closed_decodes (h.parts y (List.mem_cons_of_mem _ List.mem_cons_self) y'
      (List.mem_cons_of_mem _ List.mem_cons_self)) right
    exact ⟨rfl, rest⟩
  case when.when c v c' v' =>
    have link : ").then(".toList = ')' :: ".then(".toList := rfl
    rw [link] at same
    obtain ⟨rfl, values⟩ := closed_decodes (h.parts c List.mem_cons_self c' List.mem_cons_self) same
    obtain ⟨rfl, rest⟩ := closed_decodes (h.parts v (List.mem_cons_of_mem _ List.mem_cons_self) v'
      (List.mem_cons_of_mem _ List.mem_cons_self)) (List.append_cancel_left values)
    exact ⟨rfl, rest⟩
  case coalesce.coalesce es es' =>
    obtain ⟨rfl, rest⟩ := inputs_decode h.parts same
    exact ⟨rfl, rest⟩
  all_goals exact ⟨rfl, (List.cons.inj same).2⟩

theorem Told.word {k k' : Link} (h : Told k k') {r s : List Char} (same : k.word ++ r = k'.word ++ s) :
    k = k' ∧ r = s := by
  simp only [Link.word, List.append_assoc, List.cons_append] at same
  obtain ⟨keyword, rest⟩ := append_cons_inj (Keyword.bracket_notMem _) (Keyword.bracket_notMem _) same
  exact h.body (Keyword.text_injective (String.toList_inj.1 keyword)) rest

end Link

def givenNames (e : Expr) : List String :=
  e.nodes.filterMap fun
    | named _ n => some n
    | _ => none

theorem mem_givenNames {e x : Expr} {n : String} (h : named x n ∈ e.nodes) : n ∈ e.givenNames :=
  List.mem_filterMap.2 ⟨named x n, h, rfl⟩

theorem columns_mono {e x : Expr} (sub : ∀ y ∈ x.nodes, y ∈ e.nodes) : ∀ n ∈ x.columns, n ∈ e.columns :=
  fun _ hn => mem_columns.2 (sub _ (mem_columns.1 hn))

theorem givenNames_mono {e x : Expr} (sub : ∀ y ∈ x.nodes, y ∈ e.nodes) :
    ∀ n ∈ x.givenNames, n ∈ e.givenNames := fun n hn => by
  obtain ⟨y, hy, found⟩ := List.mem_filterMap.1 hn
  exact List.mem_filterMap.2 ⟨y, sub y hy, found⟩

/-- No name of the one expression, with the bracket after it, begins a name of the other of the same kind. -/
structure Apart (e e' : Expr) : Prop where
  columns : ∀ n ∈ e.columns, ∀ n' ∈ e'.columns, Separate n n'
  names : ∀ n ∈ e.givenNames, ∀ n' ∈ e'.givenNames, Separate n n'

theorem Apart.mono {e e' x x' : Expr} (h : Apart e e') (sub : ∀ y ∈ x.nodes, y ∈ e.nodes)
    (sub' : ∀ y ∈ x'.nodes, y ∈ e'.nodes) : Apart x x' where
  columns n hn n' hn' := h.columns n (columns_mono sub n hn) n' (columns_mono sub' n' hn')
  names n hn n' hn' := h.names n (givenNames_mono sub n hn) n' (givenNames_mono sub' n' hn')

theorem link_cases {e : Expr} {k : Link} (hk : k ∈ e.chain) :
    (∃ x ∈ e.children, k ∈ x.chain) ∨ ((∀ x ∈ k.parts, x ∈ e.children) ∧ (∀ n, k = .column n → e = .column n) ∧
      ∀ n, k = .named n → ∃ x, e = .named x n) := by
  cases e with
  | column | literal | binary | not | when | coalesce =>
    obtain rfl := List.mem_singleton.1 hk
    exact .inr (by simp [Link.parts, children])
  | whenElse c v o =>
    obtain rfl | hk := List.mem_cons.1 hk
    · exact .inr (by simp [Link.parts, children])
    · obtain rfl := List.mem_singleton.1 hk
      exact .inr (by simp [Link.parts, children])
  | _ =>
    obtain hk | hk := List.mem_append.1 hk
    · exact .inl ⟨_, List.mem_cons_self, hk⟩
    · obtain rfl := List.mem_singleton.1 hk
      exact .inr (by simp [Link.parts, children])

theorem link_parts {e x : Expr} {k : Link} (hk : k ∈ e.chain) (hx : x ∈ k.parts) :
    sizeOf x < sizeOf e ∧ ∀ y ∈ x.nodes, y ∈ e.nodes := by
  induction e using parts_induction with
  | step e ih =>
    obtain ⟨c, hc, later⟩ | ⟨own, -⟩ := link_cases hk
    · obtain ⟨smaller, nodes⟩ := ih c hc later
      exact ⟨smaller.trans (sizeOf_children hc), fun y hy => mem_nodes_of_child hc (nodes y hy)⟩
    · exact ⟨sizeOf_children (own x hx), fun y hy => mem_nodes_of_child (own x hx) hy⟩

theorem mem_columns_of_link {e : Expr} {n : String} (hk : .column n ∈ e.chain) : n ∈ e.columns := by
  induction e using parts_induction with
  | step e ih =>
    obtain ⟨c, hc, later⟩ | ⟨-, own, -⟩ := link_cases hk
    · exact columns_mono (fun _ => mem_nodes_of_child hc) n (ih c hc later)
    · obtain rfl := own n rfl
      exact mem_columns.2 (mem_nodes_self _)

theorem mem_givenNames_of_link {e : Expr} {n : String} (hk : .named n ∈ e.chain) : n ∈ e.givenNames := by
  induction e using parts_induction with
  | step e ih =>
    obtain ⟨c, hc, later⟩ | ⟨-, -, own⟩ := link_cases hk
    · exact givenNames_mono (fun _ => mem_nodes_of_child hc) n (ih c hc later)
    · obtain ⟨x, rfl⟩ := own n rfl
      exact mem_givenNames (mem_nodes_self _)

theorem calls_decode {ks ks' : List Link} (told : ∀ k ∈ ks, ∀ k' ∈ ks', k.Told k')
    (calls : ∀ k ∈ ks, k.keyword.isCall) (calls' : ∀ k ∈ ks', k.keyword.isCall) {r s : List Char} (hr : Stops r)
    (hs : Stops s) (same : ks.flatMap Link.word ++ r = ks'.flatMap Link.word ++ s) : ks = ks' ∧ r = s := by
  have dot {k : Link} (h : k.keyword.isCall) (r : List Char) : ¬ Stops (k.word ++ r) := fun stops => by
    refine stops ?_
    rw [Link.word, List.append_assoc, List.head?_append, Link.Keyword.head_text h]
    rfl
  induction ks generalizing ks' with
  | nil =>
    cases ks' with
    | nil => exact ⟨rfl, same⟩
    | cons k' ks' =>
      rw [List.flatMap_nil, List.nil_append, List.flatMap_cons, List.append_assoc] at same
      exact absurd (same ▸ hr) (dot (calls' k' List.mem_cons_self) _)
  | cons k ks ih =>
    cases ks' with
    | nil =>
      rw [List.flatMap_nil, List.nil_append, List.flatMap_cons, List.append_assoc] at same
      exact absurd (same.symm ▸ hs) (dot (calls k List.mem_cons_self) _)
    | cons k' ks' =>
      rw [List.flatMap_cons, List.flatMap_cons, List.append_assoc, List.append_assoc] at same
      obtain ⟨rfl, later⟩ := (told k List.mem_cons_self k' List.mem_cons_self).word same
      obtain ⟨rfl, rest⟩ := ih
        (fun x hx x' hx' => told x (List.mem_cons_of_mem _ hx) x' (List.mem_cons_of_mem _ hx'))
        (fun x hx => calls x (List.mem_cons_of_mem _ hx)) (fun x hx => calls' x (List.mem_cons_of_mem _ hx)) later
      exact ⟨rfl, rest⟩

/-- The induction is on the parts within the calls, not on those that the calls go on from: the text of an
expression begins with the latter, so that the calls can only be told from the first one on. -/
theorem decodes_of_apart {e e' : Expr} (apart : Apart e e') : Decodes e e' := by
  intro r s hr hs same
  have told : ∀ k ∈ e.chain, ∀ k' ∈ e'.chain, k.Told k' := fun k hk k' hk' =>
    { parts := fun x hx x' hx' =>
        have smaller := (link_parts hk hx).1
        decodes_of_apart (apart.mono (link_parts hk hx).2 (link_parts hk' hx').2)
      columns := by
        rintro n n' rfl rfl
        exact apart.columns n (mem_columns_of_link hk) n' (mem_columns_of_link hk')
      names := by
        rintro n n' rfl rfl
        exact apart.names n (mem_givenNames_of_link hk) n' (mem_givenNames_of_link hk') }
  obtain ⟨k, ks, chain, calls⟩ := exists_chain e
  obtain ⟨k', ks', chain', calls'⟩ := exists_chain e'
  rw [toList_text, toList_text, chain, chain', List.flatMap_cons, List.flatMap_cons, List.append_assoc,
    List.append_assoc] at same
  rw [chain, chain'] at told
  obtain ⟨rfl, later⟩ := (told k List.mem_cons_self k' List.mem_cons_self).word same
  obtain ⟨rfl, rest⟩ := calls_decode
    (fun x hx x' hx' => told x (List.mem_cons_of_mem _ hx) x' (List.mem_cons_of_mem _ hx')) calls calls' hr hs later
  exact ⟨chain_injective (chain.trans chain'.symm), rest⟩
termination_by sizeOf e

/-- Expressions have one text only if they are the same, unless a bracket in a name hides where the name ends. -/
theorem text_eq_iff {e e' : Expr} (apart : Apart e e') : e.text = e'.text ↔ e = e' := by
  constructor
  · intro same
    exact (decodes_of_apart apart (r := []) (s := []) nofun nofun (congrArg (·.toList ++ []) same)).1
  · rintro rfl
    rfl

def plusOne (one : Scalar) : Expr :=
  .named (.binary .add (.structField (.column "a (b)") "x).alias(y") (.literal one)) "plus"

theorem text_eq_iff_plusOne : (plusOne (.int 1)).text ≠ (plusOne (.float Double.one)).text := by
  have apart : Apart (plusOne (.int 1)) (plusOne (.float Double.one)) := ⟨by decide, by decide⟩
  rw [Ne, text_eq_iff apart]
  nofun

/-- A column of which the name reads on like a call, and that call on another column. -/
theorem text_hiddenCall :
    ¬ ∀ e e' : Expr, e.text = e'.text → e = e' ∧ ∀ f, e.evaluate f = e'.evaluate f := by
  intro all
  have same := (all (.column "a).cast(str") (.cast (.column "a") .string) (by decide)).1
  cases same

end Columnar.Expr
