import Columnar.Json

namespace Columnar.Json

inductive Token
  | openArray
  | closeArray
  | openObject
  | closeObject
  | comma
  | colon
  | scalar (v : Json)

namespace Token

abbrev Rest (s : List Char) := { r : List Char // r.length < s.length }

def isSpace (c : Char) : Bool := c == ' ' || c == '\n' || c == '\t' || c == '\r'

/-- A character of a string, or one unit of a surrogate pair. -/
inductive Piece
  | char (c : Char)
  | half (unit : Nat)

def hexValue? (c : Char) : Option Nat :=
  if '0' ≤ c ∧ c ≤ '9' then some (c.toNat - '0'.toNat)
  else if 'a' ≤ c ∧ c ≤ 'f' then some (c.toNat - 'a'.toNat + 10)
  else if 'A' ≤ c ∧ c ≤ 'F' then some (c.toNat - 'A'.toNat + 10)
  else none

def hexUnit? (ds : List Char) : Option Nat :=
  ds.foldlM (fun n c => (hexValue? c).map (16 * n + ·)) 0

def pieceOfUnit (n : Nat) : Piece :=
  if 0xd800 ≤ n ∧ n ≤ 0xdfff then .half n else .char (.ofNat n)

def escaped? : Char → Option Char
  | '"' => some '"'
  | '\\' => some '\\'
  | '/' => some '/'
  | 'b' => some '\x08'
  | 'f' => some '\x0c'
  | 'n' => some '\n'
  | 'r' => some '\r'
  | 't' => some '\t'
  | _ => none

def pieces? (acc : List Piece) : List Char → Option (List Piece × List Char)
  | [] => none
  | '"' :: s => some (acc, s)
  | '\\' :: 'u' :: a :: b :: c :: d :: s => do
    let n ← hexUnit? [a, b, c, d]
    pieces? (pieceOfUnit n :: acc) s
  | '\\' :: e :: s => do
    let c ← escaped? e
    pieces? (.char c :: acc) s
  | c :: s => if c == '\\' || c.toNat < 0x20 then none else pieces? (.char c :: acc) s

def joinPieces? : List Piece → Option (List Char)
  | [] => some []
  | .char c :: ps => (joinPieces? ps).map (c :: ·)
  | .half hi :: .half lo :: ps =>
    if hi < 0xdc00 ∧ 0xdc00 ≤ lo then
      (joinPieces? ps).map (.ofNat (0x10000 + (hi - 0xd800) * 0x400 + (lo - 0xdc00)) :: ·)
    else none
  | .half _ :: _ => none

def textOfPieces (ps : List Piece) : Json :=
  match joinPieces? ps with
  | some cs => .text (.ofList cs)
  | none => .unpaired

def splitDigits (s : List Char) : List Char × List Char :=
  (s.takeWhile Char.isDigit, s.dropWhile Char.isDigit)

def absorb (n : Nat) : List Char → Nat × List Char
  | [] => (n, [])
  | c :: s =>
    let m := 10 * n + (c.toNat - '0'.toNat)
    if m < UInt64.size then absorb m s else (n, c :: s)

def powerOfTen (e : Nat) : Float := .ofBits (.ofNat (Decimal.nearest .double 1 e))

/-- Moves the decimal point by one product or one quotient, and far below one by several quotients. -/
def shift (x : Float) (e : Int) : Float :=
  if Double.isZero x then x
  else if 308 < e then x * Double.infinity
  else if 0 ≤ e then x * powerOfTen e.toNat
  else if -308 ≤ e then x / powerOfTen (-e).toNat
  else shift (x / powerOfTen 308) (e + 308)
termination_by (-e).toNat

/-- A decimal keeps the leading digits that fit a word. -/
def decimal (negative : Bool) (whole fraction : List Char) (e : Int) : Json :=
  let (n, more) := absorb 0 whole
  let (n, rest) := absorb n fraction
  .decimal (shift (Double.ofParts negative n 0) (e + more.length + rest.length - fraction.length))

/-- A whole number that fits no word is a decimal, and so is the negative zero. -/
def whole (negative : Bool) (ds : List Char) : Json :=
  let n := Decimal.digitsValue ds
  let i : Int := if negative then -n else n
  if negative && n == 0 || i < Int64.minValue.toInt || UInt64.size ≤ n then decimal negative ds [] 0
  else .int i

def number? (s : List Char) : Option (Json × List Char) :=
  let (negative, s₀) := match s with
    | '-' :: r => (true, r)
    | r => (false, r)
  let (ds, s₁) := splitDigits s₀
  let (fraction, s₂) := match s₁ with
    | '.' :: r => (splitDigits r).map some id
    | r => (none, r)
  let (exponent, s₃) := match s₂ with
    | c :: r =>
      if c == 'e' || c == 'E' then
        let (down, r) := Decimal.takeSign r
        (splitDigits r).map (fun ds => some (down, ds)) id
      else (none, s₂)
    | r => (none, r)
  if ds.isEmpty || ds.length ≠ 1 && ds.head? == some '0'
      || fraction == some [] || exponent.any (·.2.isEmpty) then none
  else
    let value := match fraction, exponent with
      | none, none => whole negative ds
      | _, _ =>
        let e : Int := match exponent with
          | some (true, es) => -Decimal.digitsValue es
          | some (false, es) => Decimal.digitsValue es
          | none => 0
        decimal negative ds (fraction.getD []) e
    some (value, s₃)

def stripWord? (word s : List Char) : Option (List Char) :=
  if word.isPrefixOf s then some (s.drop word.length) else none

def Rest.check (s : List Char) (found : Option (Token × List Char)) : Option (Token × Rest s) :=
  found.bind fun (t, r) => if h : r.length < s.length then some (t, ⟨r, h⟩) else none

def first? (s : List Char) : Option (Token × Rest s) :=
  Rest.check s <| match s with
    | '[' :: r => some (openArray, r)
    | ']' :: r => some (closeArray, r)
    | '\x7b' :: r => some (openObject, r)
    | '\x7d' :: r => some (closeObject, r)
    | ',' :: r => some (comma, r)
    | ':' :: r => some (colon, r)
    | '"' :: r => (pieces? [] r).map fun (ps, r) => (scalar (textOfPieces ps.reverse), r)
    | 't' :: r => (stripWord? "rue".toList r).map (scalar (.bool true), ·)
    | 'f' :: r => (stripWord? "alse".toList r).map (scalar (.bool false), ·)
    | 'n' :: r => (stripWord? "ull".toList r).map (scalar .null, ·)
    | s => (number? s).map fun (v, r) => (scalar v, r)

def scan (s : List Char) (acc : Array Token) : Option (Array Token) :=
  match _hs : s.dropWhile isSpace with
  | [] => some acc
  | c :: r =>
    match first? (c :: r) with
    | none => none
    | some (t, rest) => scan rest.1 (acc.push t)
termination_by s.length
decreasing_by
  have := (List.dropWhile_suffix isSpace (l := s)).length_le
  have := rest.2
  grind

end Token

end Columnar.Json
