import Columnar.Proofs.Numerals
import Columnar.Scalar
import Mathlib.Data.List.Basic

namespace Columnar

theorem append_cons_inj {c : α} {xs ys r s : List α} (hxs : c ∉ xs) (hys : c ∉ ys)
    (same : xs ++ c :: r = ys ++ c :: s) : xs = ys ∧ r = s := by
  obtain ⟨t, rfl, rest⟩ | ⟨t, rfl, rest⟩ := List.append_eq_append_iff.1 same
  · cases t with
    | nil => exact ⟨(List.append_nil xs).symm, (List.cons.inj rest).2⟩
    | cons d t => simp [(List.cons.inj rest).1] at hys
  · cases t with
    | nil => exact ⟨List.append_nil ys, (List.cons.inj rest).2.symm⟩
    | cons d t => simp [(List.cons.inj rest).1] at hxs

/-- No word is another one with something after it, so that the words of a text are told apart as they come. -/
def PrefixCode (word : α → List Char) : Prop :=
  ∀ ⦃a b : α⦄ ⦃r s : List Char⦄, word a ++ r = word b ++ s → a = b ∧ r = s

namespace PrefixCode

variable {word : α → List Char} {c : Char}

theorem injective (h : PrefixCode word) : Function.Injective word :=
  fun _ _ same => (h (congrArg (· ++ []) same)).1

theorem cons (h : PrefixCode word) (c : Char) : PrefixCode fun a => c :: word a :=
  fun _ _ _ _ same => h (List.cons.inj same).2

theorem of_end (h : Function.Injective word) (inside : ∀ a, c ∉ word a) : PrefixCode fun a => word a ++ [c] := by
  intro a b r s same
  simp only [List.append_assoc, List.singleton_append] at same
  obtain ⟨words, rest⟩ := append_cons_inj (inside a) (inside b) same
  exact ⟨h words, rest⟩

theorem flatMap (h : PrefixCode word) (first : ∀ a, ∃ d ds, word a = d :: ds ∧ d ≠ c) :
    PrefixCode fun as : List α => as.flatMap word ++ [c] := by
  intro as bs r s same
  induction as generalizing bs with
  | nil =>
    cases bs with
    | nil => exact ⟨rfl, (List.cons.inj same).2⟩
    | cons b bs =>
      obtain ⟨d, ds, hd, other⟩ := first b
      simp [hd] at same
      exact absurd same.1.symm other
  | cons a as ih =>
    cases bs with
    | nil =>
      obtain ⟨d, ds, hd, other⟩ := first a
      simp [hd] at same
      exact absurd same.1 other
    | cons b bs =>
      simp only [List.flatMap_cons, List.append_assoc] at same ih
      obtain ⟨rfl, later⟩ := h same
      obtain ⟨rfl, rest⟩ := ih later
      exact ⟨rfl, rest⟩

end PrefixCode

namespace Text

theorem digitChar_injective : ∀ m < 16, ∀ n < 16, Nat.digitChar m = Nat.digitChar n → m = n := by decide

theorem digitChar_ne_brace : ∀ n < 16, Nat.digitChar n ≠ '\x7d' := by decide

theorem hexDigits_injective : Function.Injective (Nat.toDigits 16) := by
  intro m n h
  induction m using Nat.strongRecOn generalizing n with
  | ind m ih =>
    have several {k : Nat} : Nat.toDigits 16 (k / 16) ≠ [] := Nat.toDigits_ne_nil
    rw [Nat.toDigits_eq_if (by decide), Nat.toDigits_eq_if (n := n) (by decide)] at h
    split at h
    next small =>
      split at h
      next small' => exact digitChar_injective m small n small' (List.singleton_inj.1 h)
      next large => exact absurd (List.append_singleton_inj.1 (show [] ++ [_] = _ from h)).1.symm several
    next large =>
      split at h
      next small' => exact absurd (List.append_singleton_inj.1 (show _ = [] ++ [_] from h)).1 several
      next large' =>
        obtain ⟨higher, last⟩ := List.append_singleton_inj.1 h
        have higher := ih (m / 16) (by omega) higher
        have last := digitChar_injective _ (Nat.mod_lt _ (by decide)) _ (Nat.mod_lt _ (by decide)) last
        omega

theorem brace_notMem_hexDigits (n : Nat) : '\x7d' ∉ Nat.toDigits 16 n := by
  induction n using Nat.strongRecOn with
  | ind n ih =>
    rw [Nat.toDigits_eq_if (by decide)]
    split
    next small => simp [(digitChar_ne_brace n small).symm]
    next large =>
      have last := digitChar_ne_brace _ (Nat.mod_lt n (by decide))
      simp [ih (n / 16) (by omega), last.symm]

def shorthands : List (Char × Char) :=
  [('"', '"'), ('\\', '\\'), ('\n', 'n'), ('\t', 't'), ('\r', 'r'), ('\x00', '0')]

theorem escape_cases (c : Char) :
    (escape c = [c] ∧ c ≠ '\\' ∧ c ≠ '"') ∨ (∃ k, escape c = ['\\', k] ∧ (c, k) ∈ shorthands) ∨
      escape c = '\\' :: 'u' :: '\x7b' :: (Nat.toDigits 16 c.toNat ++ ['\x7d']) := by
  unfold escape
  split_ifs with quote back newline tab feed null numbered
  · exact .inr (.inl ⟨'"', rfl, by subst quote; decide⟩)
  · exact .inr (.inl ⟨'\\', rfl, by subst back; decide⟩)
  · exact .inr (.inl ⟨'n', rfl, by subst newline; decide⟩)
  · exact .inr (.inl ⟨'t', rfl, by subst tab; decide⟩)
  · exact .inr (.inl ⟨'r', rfl, by subst feed; decide⟩)
  · exact .inr (.inl ⟨'0', rfl, by subst null; decide⟩)
  · exact .inr (.inr rfl)
  · exact .inl ⟨rfl, back, quote⟩

theorem shorthands_injective :
    ∀ p ∈ shorthands, ∀ p' ∈ shorthands, p.2 = p'.2 → p.1 = p'.1 := by decide

theorem shorthands_ne_number : ∀ p ∈ shorthands, p.2 ≠ 'u' := by decide

theorem escape_prefixCode : PrefixCode escape := by
  intro c d r s same
  obtain ⟨hc, plain, -⟩ | ⟨k, hc, short⟩ | hc := escape_cases c <;>
    obtain ⟨hd, plain', -⟩ | ⟨k', hd, short'⟩ | hd := escape_cases d <;>
    rw [hc, hd] at same <;>
    simp only [List.cons_append, List.nil_append, List.append_assoc, List.cons.injEq] at same
  · exact same
  · exact absurd same.1 plain
  · exact absurd same.1 plain
  · exact absurd same.1.symm plain'
  · exact ⟨shorthands_injective _ short _ short' same.2.1, same.2.2⟩
  · exact absurd same.2.1 (shorthands_ne_number _ short)
  · exact absurd same.1.symm plain'
  · exact absurd same.2.1.symm (shorthands_ne_number _ short')
  · obtain ⟨number, rest⟩ :=
      append_cons_inj (brace_notMem_hexDigits _) (brace_notMem_hexDigits _) same.2.2.2
    exact ⟨Char.toNat_inj.1 (hexDigits_injective number), rest⟩

theorem quoted_prefixCode : PrefixCode fun s => (quoted s).toList := by
  have body : PrefixCode fun cs : List Char => '"' :: (cs.flatMap escape ++ ['"']) := by
    refine (escape_prefixCode.flatMap fun c => ?_).cons '"'
    obtain ⟨hc, -, other⟩ | ⟨k, hc, -⟩ | hc := escape_cases c
    · exact ⟨c, [], hc, other⟩
    · exact ⟨_, _, hc, by decide⟩
    · exact ⟨_, _, hc, by decide⟩
  intro s t r r' same
  simp only [quoted, String.toList_ofList] at same
  obtain ⟨text, rest⟩ := body same
  exact ⟨String.toList_inj.1 text, rest⟩

end Text

namespace Scalar

def typeOfText (s : List Char) : DType :=
  if s.head? = some '"' then .string
  else if s = "true".toList ∨ s = "false".toList then .bool
  else if s = "null".toList then .null
  else if s.all fun c => c.isDigit || c == '-' then .int64
  else .float64

theorem typeOfText_numeral {s : List Char} (h : ∀ c ∈ s, Decimal.Numeral c) :
    typeOfText s = if s.all fun c => c.isDigit || c == '-' then .int64 else .float64 := by
  have word {w : List Char} (c : Char) (hc : c ∈ w) (other : ¬ Decimal.Numeral c) : s ≠ w := fun same =>
    other (h c (same ▸ hc))
  have quote : s.head? ≠ some '"' := fun first => absurd (h _ (List.mem_of_mem_head? first)) (by decide)
  have truth : ¬ (s = "true".toList ∨ s = "false".toList) :=
    not_or.2 ⟨word 't' (by decide) (by decide), word 'f' (by decide) (by decide)⟩
  rw [typeOfText, if_neg quote, if_neg truth, if_neg (word 'n' (by decide) (by decide))]

theorem typeOfText_render (v : Scalar) : typeOfText v.render.toList = v.dtype := by
  cases v with
  | int i =>
    have whole := Decimal.numeral_toString i.toInt
    have numeral : ∀ c ∈ (toString i.toInt).toList, Decimal.Numeral c := fun c hc =>
      (whole c hc).imp_right fun minus => .inr (.inr minus)
    exact (typeOfText_numeral numeral).trans (if_pos (by simpa using whole))
  | float x =>
    obtain ⟨negative, m, q, finite⟩ | ⟨p, named, -, text⟩ := Decimal.write_cases .canonical x
    · have numeral := Decimal.numeral_write .canonical finite
      obtain ⟨c, hc, mark⟩ := Decimal.mark_write finite
      have mixed : ¬ (Decimal.Layout.canonical.write x).toList.all fun c => c.isDigit || c == '-' := by
        intro whole
        have := List.all_eq_true.1 whole c hc
        obtain rfl | rfl := mark <;> exact absurd this (by decide)
      exact (typeOfText_numeral numeral).trans (if_neg mixed)
    · have each : ∀ p ∈ Decimal.namedNumbers, typeOfText p.2.toList = .float64 := by decide
      rw [render, text, each p named, dtype]
  | text s =>
    rw [render, Text.quoted, String.toList_ofList, typeOfText, if_pos (by rfl), dtype]
  | bool b => cases b <;> decide
  | null => decide

theorem render_injective : Function.Injective render := by
  intro v w same
  have types : v.dtype = w.dtype := by rw [← typeOfText_render, ← typeOfText_render, same]
  cases v <;> cases w <;> cases types
  case int.int i j => rw [Int64.toInt_inj.1 (Decimal.toString_injective same)]
  case float.float x y => rw [Decimal.write_injective same]
  case text.text s t =>
    rw [Text.quoted_prefixCode.injective (congrArg String.toList same)]
  case bool.bool b b' => cases b <;> cases b' <;> first | rfl | exact absurd same (by decide)
  case null.null => rfl

theorem plain_render {v : Scalar} (h : v.dtype ≠ .string) : '"' ∉ v.render.toList ∧ ')' ∉ v.render.toList := by
  have numeral {s : List Char} (h : ∀ c ∈ s, Decimal.Numeral c) : '"' ∉ s ∧ ')' ∉ s :=
    ⟨fun hc => absurd (h _ hc) (by decide), fun hc => absurd (h _ hc) (by decide)⟩
  cases v with
  | int i =>
    exact numeral fun c hc => (Decimal.numeral_toString i.toInt c hc).imp_right fun minus => .inr (.inr minus)
  | float x =>
    obtain ⟨negative, m, q, finite⟩ | ⟨p, named, -, text⟩ := Decimal.write_cases .canonical x
    · exact numeral (Decimal.numeral_write .canonical finite)
    · have each : ∀ p ∈ Decimal.namedNumbers, '"' ∉ p.2.toList ∧ ')' ∉ p.2.toList := by decide
      rw [render, text]
      exact each p named
  | text s => exact absurd rfl h
  | bool b => cases b <;> decide
  | null => decide

theorem render_prefixCode : PrefixCode fun v : Scalar => v.render.toList ++ [')'] := by
  intro v w r s same
  simp only [List.append_assoc, List.singleton_append] at same
  have quoted (t : String) (r : List Char) : ∃ cs, (text t).render.toList ++ r = '"' :: cs := by
    rw [render, Text.quoted, String.toList_ofList]
    exact ⟨_, rfl⟩
  have unquoted {w : Scalar} (hw : w.dtype ≠ .string) (cs r : List Char) :
      w.render.toList ++ ')' :: r ≠ '"' :: cs := by
    intro same
    cases first : w.render.toList with
    | nil =>
      rw [first] at same
      exact absurd (List.cons.inj same).1 (by decide)
    | cons c rest =>
      rw [first] at same
      exact (plain_render hw).1 (first ▸ (List.cons.inj same).1 ▸ List.mem_cons_self)
  by_cases hv : v.dtype = .string <;> by_cases hw : w.dtype = .string
  · cases v <;> cases hv
    cases w <;> cases hw
    next t t' =>
      obtain ⟨rfl, rest⟩ := Text.quoted_prefixCode same
      exact ⟨rfl, (List.cons.inj rest).2⟩
  · cases v <;> cases hv
    next t =>
      obtain ⟨cs, hcs⟩ := quoted t (')' :: r)
      exact absurd (same.symm.trans hcs) (unquoted hw cs s)
  · cases w <;> cases hw
    next t =>
      obtain ⟨cs, hcs⟩ := quoted t (')' :: s)
      exact absurd (same.trans hcs) (unquoted hv cs r)
  · obtain ⟨text, rest⟩ := append_cons_inj (plain_render hv).2 (plain_render hw).2 same
    exact ⟨render_injective (String.toList_inj.1 text), rest⟩

end Scalar

end Columnar
