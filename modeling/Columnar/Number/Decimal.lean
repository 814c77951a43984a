import Columnar.Number.Double

/-!
Decimal text of numbers: the fewest digits that read back to the same double, the two layouts in which
they are written, and reading in either precision.
-/

namespace Columnar.Decimal

open Binary

structure Digits where
  coefficient : Nat
  exponent : Int
  deriving DecidableEq

/-- The values that round to one number, between `low` and `high` with the number itself at `value`,
all over one denominator; the ends belong to it when `closed`. -/
structure Interval where
  low : Nat
  value : Nat
  high : Nat
  denominator : Nat
  closed : Bool

/-- The interval of `m * 2 ^ q`: half a step to both sides, a quarter below a power of two. -/
def Interval.around (f : Format) (m : Nat) (q : Int) : Interval :=
  let up := (q - 2).toNat
  let below := if m == f.hidden && f.minExponent < q then 1 else 2
  ⟨(4 * m - below) <<< up, (4 * m) <<< up, (4 * m + 2) <<< up, 1 <<< (2 - q).toNat, m % 2 == 0⟩

def digitCount (n : Nat) : Nat := (Nat.toDigits 10 n).length

def Interval.point (i : Interval) : Int :=
  let lift := i.denominator.log2 / 3 + 1
  (digitCount (i.value * Nat.pow 10 lift / i.denominator) : Int) - lift

/-- The grid of step `10 ^ exponent`: the neighbour of the value that lies in the interval, the nearer
of two, and the upper one at equal distance. -/
def Interval.onGrid? (i : Interval) (exponent : Int) : Option Digits :=
  let finer := Nat.pow 10 (-exponent).toNat
  let step := i.denominator * Nat.pow 10 exponent.toNat
  let value := i.value * finer
  let lower := value / step
  let down := if i.closed then i.low * finer ≤ lower * step else i.low * finer < lower * step
  let up := if i.closed then (lower + 1) * step ≤ i.high * finer
    else (lower + 1) * step < i.high * finer
  if down ∧ up then
    some ⟨if 2 * value < (2 * lower + 1) * step then lower else lower + 1, exponent⟩
  else if down then some ⟨lower, exponent⟩
  else if up then some ⟨lower + 1, exponent⟩
  else none

/-- The first of the grids with one digit, two digits and so on that meets the interval. -/
def shortest (m : Nat) (q : Int) : Digits :=
  let i := Interval.around .double m q
  let top := i.point
  ((List.range 17).findSome? fun (n : Nat) => i.onGrid? (top - n - 1)).getD ⟨m, q⟩

structure Layout where
  positional : Option (Int × Int)
  keepsPoint : Bool

/-- Numbers from a ten thousandth up to ten to the sixteenth are positional, and always with a point. -/
def Layout.canonical : Layout := ⟨some (-4, 16), true⟩

/-- Every number is positional and a whole number has no point. -/
def Layout.plain : Layout := ⟨none, false⟩

def dropZeros (ds : List Char) : List Char := (ds.reverse.dropWhile (· == '0')).reverse

def Layout.digits (l : Layout) (ds : List Char) (e : Int) : List Char :=
  if l.positional.all fun (lo, hi) => lo ≤ e && e < hi then
    if e < 0 then '0' :: '.' :: List.replicate (-e - 1).toNat '0' ++ ds
    else
      let whole := (e + 1).toNat
      if ds.length ≤ whole then
        ds ++ List.replicate (whole - ds.length) '0' ++ (if l.keepsPoint then ['.', '0'] else [])
      else ds.take whole ++ '.' :: ds.drop whole
  else
    let fraction := if ds.length ≤ 1 then [] else '.' :: ds.drop 1
    ds.take 1 ++ fraction ++ 'e' :: (toString e).toList

def Layout.write (l : Layout) (x : Float) : String :=
  match Double.datum x with
  | .nan => "NaN"
  | .infinite negative => if negative then "-inf" else "inf"
  | .finite negative m q =>
    let body :=
      if m = 0 then l.digits ['0'] 0
      else
        let d := shortest m q
        let ds := Nat.toDigits 10 d.coefficient
        l.digits (dropZeros ds) (d.exponent + ds.length - 1)
    .ofList (if negative then '-' :: body else body)

def digitsValue (ds : List Char) : Nat := ds.foldl (fun n c => 10 * n + (c.toNat - '0'.toNat)) 0

/-- The magnitude nearest to a quotient, from enough of its bits and one more for what is cut off. -/
def nearestQuotient (f : Format) (m n : Nat) : Nat :=
  let lift := n.log2 + 66
  let lifted := m <<< lift
  let rest := if lifted % n = 0 then 0 else 1
  f.magnitude (2 * (lifted / n) + rest) (-(lift + 1 : Nat))

/-- The magnitude nearest to a decimal; beyond these sizes nothing but infinity and zero is left. -/
def nearest (f : Format) (coefficient : Nat) (exponent : Int) : Nat :=
  let size := exponent + digitCount coefficient
  if coefficient = 0 ∨ size < -330 then 0
  else if 330 < size then f.infinityBits
  else nearestQuotient f (coefficient * Nat.pow 10 exponent.toNat) (Nat.pow 10 (-exponent).toNat)

def takeSign : List Char → Bool × List Char
  | '-' :: s => (true, s)
  | '+' :: s => (false, s)
  | s => (false, s)

def exponent? : List Char → Option Int
  | [] => some 0
  | c :: s =>
    let (negative, ds) := takeSign s
    if (c == 'e' || c == 'E') && !ds.isEmpty && ds.all Char.isDigit then
      some (if negative then -(digitsValue ds : Int) else digitsValue ds)
    else none

def magnitude? (f : Format) (s : List Char) : Option Nat :=
  let word := s.map Char.toLower
  if word = "inf".toList ∨ word = "infinity".toList then some f.infinityBits
  else if word = "nan".toList then some f.nanBits
  else
    let whole := s.takeWhile Char.isDigit
    let rest := s.dropWhile Char.isDigit
    let (fraction, rest) := match rest with
      | '.' :: r => (r.takeWhile Char.isDigit, r.dropWhile Char.isDigit)
      | r => ([], r)
    if whole.isEmpty && fraction.isEmpty then none
    else (exponent? rest).map fun e =>
      nearest f (digitsValue (whole ++ fraction)) (e - fraction.length)

/-- The bits of the number nearest to a text. It is signed or not, has digits on one side of the point
at least, and may have an exponent; infinity and the missing value have names in any case of letters. -/
def bits? (f : Format) (s : String) : Option Nat :=
  let (negative, body) := takeSign s.toList
  (magnitude? f body).map (f.signed negative)

def pattern? (s : String) : Option UInt64 := (bits? .double s).map .ofNat

def read? (s : String) : Option Float := (pattern? s).map .ofBits

/-- Reads at once in single precision: a double in between would round a second time. -/
def readSingle? (s : String) : Option Float32 := (bits? .single s).map fun n => .ofBits (.ofNat n)

end Columnar.Decimal
