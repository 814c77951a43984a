import Columnar.Proofs.Decimals
import Columnar.Proofs.Doubles
import Mathlib.Data.List.DropRight

namespace Columnar.Decimal

open Binary

theorem digitsValue_eq (ds : List Char) : digitsValue ds = Nat.ofDigitChars 10 ds 0 := rfl

@[simp] theorem digitsValue_toDigits (n : Nat) : digitsValue (Nat.toDigits 10 n) = n :=
  Nat.ofDigitChars_ten_toDigits

@[simp] theorem digitsValue_append_zeros (ds : List Char) (n : Nat) :
    digitsValue (ds ++ List.replicate n '0') = digitsValue ds * 10 ^ n := by
  rw [digitsValue_eq, Nat.ofDigitChars_append, Nat.ofDigitChars_replicate_zero, Nat.mul_comm]
  rfl

@[simp] theorem digitsValue_zeros_append (ds : List Char) (n : Nat) :
    digitsValue (List.replicate n '0' ++ ds) = digitsValue ds := by
  rw [digitsValue_eq, Nat.ofDigitChars_append, Nat.ofDigitChars_replicate_zero]
  rfl

theorem isDigit_toDigits {n : Nat} {c : Char} (h : c ∈ Nat.toDigits 10 n) : c.isDigit :=
  Nat.isDigit_of_mem_toDigits (by decide) (by decide) h

theorem dropZeros_append (ds : List Char) : ∃ n, dropZeros ds ++ List.replicate n '0' = ds := by
  refine ⟨(ds.rtakeWhile (· == '0')).length, ?_⟩
  have zeros : ds.rtakeWhile (· == '0') = List.replicate (ds.rtakeWhile (· == '0')).length '0' :=
    List.eq_replicate_of_mem fun c hc => by simpa using List.mem_rtakeWhile_imp hc
  rw [← zeros]
  exact List.rdropWhile_append_rtakeWhile

theorem value_mul_pow (c n : Nat) (e : Int) : Digits.value ⟨c * 10 ^ n, e⟩ = Digits.value ⟨c, e + n⟩ := by
  simp only [Digits.value]
  rw [zpow_add₀ (by norm_num), zpow_natCast]
  push_cast
  ring

def decimal? (s : List Char) : Option Digits :=
  let whole := s.takeWhile Char.isDigit
  let rest := s.dropWhile Char.isDigit
  let (fraction, rest) := match rest with
    | '.' :: r => (r.takeWhile Char.isDigit, r.dropWhile Char.isDigit)
    | r => ([], r)
  (exponent? rest).map fun e => ⟨digitsValue (whole ++ fraction), e - fraction.length⟩

def Ends (s : List Char) : Prop := ∀ c ∈ s.head?, ¬ c.isDigit

variable {whole fraction rest ds s : List Char} {e : Int}

theorem takeWhile_digits (hds : ∀ c ∈ ds, c.isDigit) (h : Ends rest) :
    (ds ++ rest).takeWhile Char.isDigit = ds ∧ (ds ++ rest).dropWhile Char.isDigit = rest := by
  rw [List.takeWhile_append_of_pos hds, List.dropWhile_append_of_pos hds]
  cases rest with
  | nil => exact ⟨List.append_nil ds, rfl⟩
  | cons c cs =>
    have stop := h c rfl
    rw [List.takeWhile_cons_of_neg stop, List.dropWhile_cons_of_neg stop]
    exact ⟨List.append_nil ds, rfl⟩

theorem decimal?_point (hw : ∀ c ∈ whole, c.isDigit) (hf : ∀ c ∈ fraction, c.isDigit) (h : Ends rest)
    (he : exponent? rest = some e) :
    decimal? (whole ++ '.' :: (fraction ++ rest)) =
      some ⟨digitsValue (whole ++ fraction), e - fraction.length⟩ := by
  have point : Ends ('.' :: (fraction ++ rest)) := by
    rintro _ ⟨⟩
    decide
  simp only [decimal?, takeWhile_digits hw point, takeWhile_digits hf h, he]
  rfl

theorem decimal?_point_end (hw : ∀ c ∈ whole, c.isDigit) (hf : ∀ c ∈ fraction, c.isDigit) :
    decimal? (whole ++ '.' :: fraction) = some ⟨digitsValue (whole ++ fraction), -fraction.length⟩ := by
  have read := decimal?_point hw hf (show Ends [] from nofun) rfl
  rwa [List.append_nil, Int.zero_sub] at read

theorem decimal?_whole (hw : ∀ c ∈ whole, c.isDigit) (h : Ends rest) (noPoint : rest.head? ≠ some '.')
    (he : exponent? rest = some e) :
    decimal? (whole ++ rest) = some ⟨digitsValue whole, e⟩ := by
  simp only [decimal?, takeWhile_digits hw h]
  split
  next s => exact absurd rfl noPoint
  · simp [he]

theorem toList_toString (e : Int) :
    (toString e).toList = if e < 0 then '-' :: Nat.toDigits 10 e.natAbs else Nat.toDigits 10 e.natAbs := by
  cases e with
  | ofNat n => exact Nat.toList_repr
  | negSucc n =>
    have minus : "-".toList = ['-'] := rfl
    change ("-" ++ Nat.repr (n + 1)).toList = _
    rw [String.toList_append, Nat.toList_repr, minus, if_pos (Int.negSucc_lt_zero n)]
    rfl

theorem takeSign_digits (hds : ∀ c ∈ ds, c.isDigit) : takeSign ds = (false, ds) := by
  unfold takeSign
  split
  · exact absurd (hds '-' List.mem_cons_self) (by decide)
  · exact absurd (hds '+' List.mem_cons_self) (by decide)
  · rfl

theorem exponent?_toString (e : Int) : exponent? ('e' :: (toString e).toList) = some e := by
  have digits : ∀ c ∈ Nat.toDigits 10 e.natAbs, c.isDigit := fun c => isDigit_toDigits
  have all : (Nat.toDigits 10 e.natAbs).all Char.isDigit = true := List.all_eq_true.2 digits
  have nonempty : (Nat.toDigits 10 e.natAbs).isEmpty = false := by simp [Nat.toDigits_ne_nil]
  rw [toList_toString]
  by_cases negative : e < 0
  · rw [if_pos negative]
    simp [exponent?, takeSign, all, nonempty, abs_of_neg negative]
  · rw [if_neg negative]
    simp [exponent?, takeSign_digits digits, all, nonempty]
    omega

theorem toString_injective {i j : Int} (same : toString i = toString j) : i = j := by
  have read := exponent?_toString i
  rw [same, exponent?_toString] at read
  exact (Option.some.inj read).symm

theorem isDigit_zero : ∀ c ∈ ['0'], c.isDigit := List.forall_mem_singleton.2 rfl

theorem isDigit_zeros (n : Nat) : ∀ c ∈ List.replicate n '0', c.isDigit := fun c hc => by
  rw [List.eq_of_mem_replicate hc]
  decide

inductive Written (ds : List Char) (e : Int) : List Char → Prop
  | leading (zeros : Nat) (first : e + 1 = -zeros) :
    Written ds e ('0' :: '.' :: (List.replicate zeros '0' ++ ds))
  | whole (zeros : Nat) (last : e + 1 = ds.length + zeros) : Written ds e (ds ++ List.replicate zeros '0')
  | pointed (zeros : Nat) (last : e + 1 = ds.length + zeros) :
    Written ds e (ds ++ List.replicate zeros '0' ++ '.' :: ['0'])
  | inside (n : Nat) (point : e + 1 = n) (low : 0 < n) (high : n < ds.length) :
    Written ds e (ds.take n ++ '.' :: ds.drop n)
  | single (one : ds.length = 1) : Written ds e (ds ++ 'e' :: (toString e).toList)
  | scientific (several : 1 < ds.length) :
    Written ds e (ds.take 1 ++ '.' :: (ds.drop 1 ++ 'e' :: (toString e).toList))

theorem written_digits (l : Layout) (hne : ds ≠ []) (e : Int) : Written ds e (l.digits ds e) := by
  have length : 0 < ds.length := List.length_pos_iff.2 hne
  unfold Layout.digits
  split
  · split
    next negative => exact .leading (-e - 1).toNat (by omega)
    next =>
      simp only
      split
      next short =>
        split
        · exact .pointed _ (by omega)
        · rw [List.append_nil]
          exact .whole _ (by omega)
      next => exact .inside (e + 1).toNat (by omega) (by omega) (by omega)
  · simp only
    split
    next one =>
      rw [List.append_nil, List.take_of_length_le one]
      exact .single (by omega)
    next several =>
      rw [List.append_assoc]
      exact .scientific (by omega)

theorem Written.read (h : Written ds e s) (hds : ∀ c ∈ ds, c.isDigit) :
    (decimal? s).map Digits.value = some (Digits.value ⟨digitsValue ds, e + 1 - ds.length⟩) := by
  have exponent : Ends ('e' :: (toString e).toList) := by
    rintro _ ⟨⟩
    decide
  have first (n : Nat) : ∀ c ∈ ds.take n, c.isDigit := fun c hc => hds c (List.mem_of_mem_take hc)
  have later (n : Nat) : ∀ c ∈ ds.drop n, c.isDigit := fun c hc => hds c (List.mem_of_mem_drop hc)
  have padded (zeros : Nat) : ∀ c ∈ ds ++ List.replicate zeros '0', c.isDigit :=
    List.forall_mem_append.2 ⟨hds, isDigit_zeros zeros⟩
  cases h with
  | leading zeros first =>
    have read := decimal?_point_end isDigit_zero (List.forall_mem_append.2 ⟨isDigit_zeros zeros, hds⟩)
    have value : digitsValue (['0'] ++ (List.replicate zeros '0' ++ ds)) = digitsValue ds := by
      rw [← List.append_assoc]
      exact digitsValue_zeros_append ds (zeros + 1)
    have place : -((List.replicate zeros '0' ++ ds).length : Int) = e + 1 - ds.length := by
      rw [List.length_append, List.length_replicate]
      omega
    rw [value, place] at read
    exact congrArg (·.map Digits.value) read
  | whole zeros last =>
    have read := decimal?_whole (padded zeros) (show Ends [] from nofun) nofun rfl
    rw [List.append_nil] at read
    rw [read, Option.map_some, digitsValue_append_zeros, value_mul_pow, last, add_sub_cancel_left,
      Int.zero_add]
  | pointed zeros last =>
    have place : -(1 : Int) + (zeros + 1 : Nat) = e + 1 - ds.length := by omega
    rw [decimal?_point_end (padded zeros) isDigit_zero, Option.map_some, List.append_assoc,
      ← List.replicate_succ', digitsValue_append_zeros, value_mul_pow]
    exact congrArg (fun p => some (Digits.value ⟨digitsValue ds, p⟩)) place
  | inside n point =>
    have place : -((ds.drop n).length : Int) = e + 1 - ds.length := by
      rw [List.length_drop]
      omega
    rw [decimal?_point_end (first n) (later n), List.take_append_drop, place, Option.map_some]
  | single one =>
    have place : e = e + 1 - ds.length := by omega
    rw [decimal?_whole hds exponent (by simp) (exponent?_toString e), ← place, Option.map_some]
  | scientific several =>
    have place : e - ((ds.drop 1).length : Int) = e + 1 - ds.length := by
      rw [List.length_drop]
      omega
    rw [decimal?_point (first 1) (later 1) exponent (exponent?_toString e), List.take_append_drop, place,
      Option.map_some]

def Numeral (c : Char) : Prop := c.isDigit ∨ c = '.' ∨ c = 'e' ∨ c = '-'

instance : DecidablePred Numeral := fun _ => inferInstanceAs (Decidable (_ ∨ _))

theorem numeral_toString (e : Int) : ∀ c ∈ (toString e).toList, c.isDigit ∨ c = '-' := by
  intro c hc
  rw [toList_toString] at hc
  split at hc
  · obtain rfl | digit := List.mem_cons.1 hc
    · exact .inr rfl
    · exact .inl (isDigit_toDigits digit)
  · exact .inl (isDigit_toDigits hc)

theorem Written.numeral (h : Written ds e s) (hds : ∀ c ∈ ds, c.isDigit) : ∀ c ∈ s, Numeral c := by
  have digit {cs : List Char} (h : ∀ c ∈ cs, c.isDigit) : ∀ c ∈ cs, Numeral c := fun c hc => .inl (h c hc)
  have zeros (n : Nat) : ∀ c ∈ List.replicate n '0', Numeral c := digit (isDigit_zeros n)
  have first (n : Nat) : ∀ c ∈ ds.take n, Numeral c := digit fun c hc => hds c (List.mem_of_mem_take hc)
  have later (n : Nat) : ∀ c ∈ ds.drop n, Numeral c := digit fun c hc => hds c (List.mem_of_mem_drop hc)
  have zero : Numeral '0' := .inl (by decide)
  have point : Numeral '.' := .inr (.inl rfl)
  have exponent : ∀ c ∈ 'e' :: (toString e).toList, Numeral c :=
    List.forall_mem_cons.2 ⟨.inr (.inr (.inl rfl)), fun c hc =>
      (numeral_toString e c hc).imp_right fun minus => .inr (.inr minus)⟩
  cases h with
  | leading n =>
    exact List.forall_mem_cons.2 ⟨zero, List.forall_mem_cons.2 ⟨point,
      List.forall_mem_append.2 ⟨zeros n, digit hds⟩⟩⟩
  | whole n => exact List.forall_mem_append.2 ⟨digit hds, zeros n⟩
  | pointed n =>
    exact List.forall_mem_append.2 ⟨List.forall_mem_append.2 ⟨digit hds, zeros n⟩,
      List.forall_mem_cons.2 ⟨point, List.forall_mem_singleton.2 zero⟩⟩
  | inside n => exact List.forall_mem_append.2 ⟨first n, List.forall_mem_cons.2 ⟨point, later n⟩⟩
  | single => exact List.forall_mem_append.2 ⟨digit hds, exponent⟩
  | scientific =>
    exact List.forall_mem_append.2 ⟨first 1, List.forall_mem_cons.2 ⟨point,
      List.forall_mem_append.2 ⟨later 1, exponent⟩⟩⟩

theorem Written.head (h : Written ds e s) (hne : ds ≠ []) (hds : ∀ c ∈ ds, c.isDigit) :
    ∃ c cs, s = c :: cs ∧ c.isDigit := by
  obtain ⟨d, rest, rfl⟩ := List.exists_cons_of_ne_nil hne
  have digit := hds d List.mem_cons_self
  cases h with
  | leading => exact ⟨'0', _, rfl, by decide⟩
  | inside n _ low =>
    obtain ⟨m, rfl⟩ := Nat.exists_eq_succ_of_ne_zero low.ne'
    exact ⟨d, _, rfl, digit⟩
  | _ => exact ⟨d, _, rfl, digit⟩

theorem mark_digits (ds : List Char) (e : Int) : ∃ c ∈ Layout.canonical.digits ds e, c = '.' ∨ c = 'e' := by
  unfold Layout.digits
  split
  · refine ⟨'.', ?_, .inl rfl⟩
    split
    · simp
    · simp only
      split <;> simp [Layout.canonical]
  · exact ⟨'e', by simp, .inr rfl⟩

def Layout.magnitude (l : Layout) (m : Nat) (q : Int) : List Char :=
  if m = 0 then l.digits ['0'] 0
  else
    let ds := Nat.toDigits 10 (shortest m q).coefficient
    l.digits (dropZeros ds) ((shortest m q).exponent + ds.length - 1)

theorem write_finite (l : Layout) {x : Float} {negative : Bool} {m : Nat} {q : Int}
    (h : Double.datum x = .finite negative m q) :
    (l.write x).toList = if negative then '-' :: l.magnitude m q else l.magnitude m q := by
  simp only [Layout.write, h, String.toList_ofList]
  rfl

def shownValue (m : Nat) (q : Int) : ℚ := if m = 0 then 0 else (shortest m q).value

theorem magnitude_eq (l : Layout) {m : Nat} {q : Int} (h : m = 0 ∨ Normal m q) :
    ∃ ds e, l.magnitude m q = l.digits ds e ∧ ds ≠ [] ∧ (∀ c ∈ ds, c.isDigit) ∧
      Digits.value ⟨digitsValue ds, e + 1 - ds.length⟩ = shownValue m q := by
  unfold Layout.magnitude shownValue
  obtain rfl | normal := h
  · refine ⟨['0'], 0, if_pos rfl, by decide, isDigit_zero, ?_⟩
    simp [Digits.value, digitsValue]
  · have nonzero := normal.pos.ne'
    rw [if_neg nonzero, if_neg nonzero]
    refine ⟨_, _, rfl, ?_⟩
    have value : digitsValue (Nat.toDigits 10 (shortest m q).coefficient) = (shortest m q).coefficient :=
      digitsValue_toDigits _
    have digits : ∀ c ∈ Nat.toDigits 10 (shortest m q).coefficient, c.isDigit := fun c => isDigit_toDigits
    generalize Nat.toDigits 10 (shortest m q).coefficient = ds at value digits
    obtain ⟨n, padded⟩ := dropZeros_append ds
    have coefficient : digitsValue (dropZeros ds) * 10 ^ n = (shortest m q).coefficient := by
      rw [← digitsValue_append_zeros, padded, value]
    refine ⟨?_, fun c hc => digits c (padded ▸ List.mem_append_left _ hc), ?_⟩
    · intro none
      have positive := shortest_pos normal
      rw [none] at coefficient
      simp [Digits.value, ← coefficient, digitsValue] at positive
    · have exponent : (shortest m q).exponent + ds.length - 1 + 1 - (dropZeros ds).length =
          (shortest m q).exponent + n := by
        have length := congrArg List.length padded
        rw [List.length_append, List.length_replicate] at length
        omega
      rw [exponent, ← value_mul_pow, coefficient]

theorem decimal?_magnitude (l : Layout) {m : Nat} {q : Int} (h : m = 0 ∨ Normal m q) :
    (decimal? (l.magnitude m q)).map Digits.value = some (shownValue m q) := by
  obtain ⟨ds, e, text, hne, hds, value⟩ := magnitude_eq l h
  rw [text, (written_digits l hne e).read hds, value]

theorem shownValue_injective {m m' : Nat} {q q' : Int}
    (h : m = 0 ∧ q = Format.double.minExponent ∨ Normal m q)
    (h' : m' = 0 ∧ q' = Format.double.minExponent ∨ Normal m' q') (same : shownValue m q = shownValue m' q') :
    m = m' ∧ q = q' := by
  unfold shownValue at same
  obtain ⟨rfl, rfl⟩ | normal := h
  · obtain ⟨rfl, rfl⟩ | normal' := h'
    · exact ⟨rfl, rfl⟩
    · rw [if_pos rfl, if_neg normal'.pos.ne'] at same
      exact absurd same (shortest_pos normal').ne
  · rw [if_neg normal.pos.ne'] at same
    obtain ⟨rfl, rfl⟩ | normal' := h'
    · rw [if_pos rfl] at same
      exact absurd same (shortest_pos normal).ne'
    · rw [if_neg normal'.pos.ne'] at same
      exact shortest_injective normal normal' same

theorem normal_of_decode {n m : Nat} {q : Int} {negative : Bool}
    (h : Format.double.decode n = .finite negative m q) :
    m = 0 ∧ q = Format.double.minExponent ∨ Normal m q := by
  have least : Format.double.minExponent = -1074 := rfl
  rw [decode_double] at h
  split at h
  · cases h
    refine or_iff_not_imp_left.2 fun different => ⟨?_, ?_, ?_, ?_⟩ <;> omega
  · split at h
    · split at h <;> cases h
    · cases h
      refine .inr ⟨?_, ?_, ?_, ?_⟩ <;> omega

theorem decode_injective {n n' : Nat} (hn : n < 2 ^ 64) (hn' : n' < 2 ^ 64)
    (h : Format.double.decode n = Format.double.decode n') (number : Format.double.decode n ≠ .nan) : n = n' := by
  rw [decode_double] at number
  rw [decode_double, decode_double] at h
  split_ifs at h number <;>
    simp only [Datum.finite.injEq, Datum.infinite.injEq, decide_eq_decide, reduceCtorEq, ne_eq,
      not_true_eq_false] at h number <;> omega

end Columnar.Decimal

namespace Columnar.Double

theorem datum_injective {x y : Float} (h : datum x = datum y) : x = y := by
  refine Float.toBits_inj.1 ?_
  by_cases none : datum x = .nan
  · rw [toBits_of_nan none, toBits_of_nan (h.symm.trans none)]
  · exact UInt64.toNat.inj (Decimal.decode_injective x.toBits.toNat_lt y.toBits.toNat_lt h none)

end Columnar.Double

namespace Columnar.Decimal

open Binary

variable {x y : Float} {negative : Bool} {m : Nat} {q : Int}

theorem zero_or_normal (h : Double.datum x = .finite negative m q) : m = 0 ∨ Normal m q :=
  (normal_of_decode h).imp_left And.left

theorem numeral_write (l : Layout) (h : Double.datum x = .finite negative m q) :
    ∀ c ∈ (l.write x).toList, Numeral c := by
  obtain ⟨ds, e, text, hne, hds, -⟩ := magnitude_eq l (zero_or_normal h)
  have numerals := (written_digits l hne e).numeral hds
  rw [write_finite _ h, text]
  split
  · exact List.forall_mem_cons.2 ⟨.inr (.inr (.inr rfl)), numerals⟩
  · exact numerals

theorem mark_write (h : Double.datum x = .finite negative m q) :
    ∃ c ∈ (Layout.canonical.write x).toList, c = '.' ∨ c = 'e' := by
  obtain ⟨ds, e, text, -⟩ := magnitude_eq .canonical (zero_or_normal h)
  obtain ⟨c, hc, mark⟩ := mark_digits ds e
  rw [write_finite _ h, text]
  split
  · exact ⟨c, List.mem_cons_of_mem _ hc, mark⟩
  · exact ⟨c, hc, mark⟩

section

variable {l : Layout}

theorem finite_of_write {negative' : Bool} {m' : Nat} {q' : Int} (hx : Double.datum x = .finite negative m q)
    (hy : Double.datum y = .finite negative' m' q') (h : l.write x = l.write y) :
    Double.datum x = Double.datum y := by
  have unsigned {x : Float} {negative : Bool} {m : Nat} {q : Int} (h : Double.datum x = .finite negative m q) :
      ∃ c cs, l.magnitude m q = c :: cs ∧ c ≠ '-' := by
    obtain ⟨ds, e, text, hne, hds, -⟩ := magnitude_eq l (zero_or_normal h)
    obtain ⟨c, cs, first, digit⟩ := (written_digits l hne e).head hne hds
    refine ⟨c, cs, text.trans first, ?_⟩
    rintro rfl
    exact absurd digit (by decide)
  obtain ⟨c, cs, first, noSign⟩ := unsigned hx
  obtain ⟨c', cs', first', noSign'⟩ := unsigned hy
  have texts := congrArg String.toList h
  rw [write_finite _ hx, write_finite _ hy, first, first'] at texts
  have parts : negative = negative' ∧ c :: cs = c' :: cs' := by
    cases negative <;> cases negative'
    · exact ⟨rfl, texts⟩
    · exact absurd (List.cons.inj texts).1 noSign
    · exact absurd (List.cons.inj texts).1.symm noSign'
    · exact ⟨rfl, (List.cons.inj texts).2⟩
  obtain ⟨rfl, same⟩ := parts
  have value : shownValue m q = shownValue m' q' := by
    have read := decimal?_magnitude l (zero_or_normal hx)
    have read' := decimal?_magnitude l (zero_or_normal hy)
    rw [first, same, ← first', read'] at read
    exact (Option.some.inj read).symm
  obtain ⟨rfl, rfl⟩ := shownValue_injective (normal_of_decode hx) (normal_of_decode hy) value
  rw [hx, hy]

def namedNumbers : List (Datum × String) := [(.nan, "NaN"), (.infinite false, "inf"), (.infinite true, "-inf")]

theorem write_cases (l : Layout) (x : Float) :
    (∃ negative m q, Double.datum x = .finite negative m q) ∨
      ∃ p ∈ namedNumbers, Double.datum x = p.1 ∧ l.write x = p.2 := by
  unfold Layout.write
  cases Double.datum x with
  | finite negative m q => exact .inl ⟨_, _, _, rfl⟩
  | infinite negative =>
    cases negative
    · exact .inr ⟨(.infinite false, "inf"), by decide, rfl, rfl⟩
    · exact .inr ⟨(.infinite true, "-inf"), by decide, rfl, rfl⟩
  | nan => exact .inr ⟨(.nan, "NaN"), by decide, rfl, rfl⟩

theorem named_ne_finite {p : Datum × String} (named : p ∈ namedNumbers)
    (finite : Double.datum x = .finite negative m q) : p.2 ≠ l.write x := by
  intro same
  have letters : ∀ p ∈ namedNumbers, 'n' ∈ p.2.toList ∨ 'N' ∈ p.2.toList := by decide
  have numeral := numeral_write l finite
  rw [← same] at numeral
  obtain hc | hc := letters p named <;> exact absurd (numeral _ hc) (by decide)

/-- Numbers of one text are one number. -/
theorem write_injective (h : l.write x = l.write y) : x = y := by
  apply Double.datum_injective
  obtain ⟨negative, m, q, finite⟩ | ⟨p, named, datum, text⟩ := write_cases l x
  · obtain ⟨negative', m', q', finite'⟩ | ⟨p', named', -, text'⟩ := write_cases l y
    · exact finite_of_write finite finite' h
    · exact absurd (text'.symm.trans h.symm) (named_ne_finite named' finite)
  · obtain ⟨negative', m', q', finite'⟩ | ⟨p', named', datum', text'⟩ := write_cases l y
    · exact absurd (text.symm.trans h) (named_ne_finite named finite')
    · have apart : ∀ p ∈ namedNumbers, ∀ p' ∈ namedNumbers, p.2 = p'.2 → p.1 = p'.1 := by decide
      rw [datum, datum', apart p named p' named' (text.symm.trans (h.trans text'))]

end

end Columnar.Decimal
