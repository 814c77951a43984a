/-!
Binary interchange formats: the value that a bit pattern stands for, and the pattern nearest to an
exact value `m * 2 ^ q`. Both widths of column numbers share these two functions.
-/

namespace Columnar.Binary

structure Format where
  precision : Nat
  exponentBits : Nat
  deriving DecidableEq

namespace Format

def double : Format := ⟨53, 11⟩

def single : Format := ⟨24, 8⟩

def bias (f : Format) : Nat := 1 <<< (f.exponentBits - 1) - 1

def minExponent (f : Format) : Int := 2 - (f.bias : Int) - f.precision

def hidden (f : Format) : Nat := 1 <<< (f.precision - 1)

def infinityBits (f : Format) : Nat := (1 <<< f.exponentBits - 1) * f.hidden

def signBit (f : Format) : Nat := (1 <<< f.exponentBits) * f.hidden

end Format

/-- What a bit pattern stands for; a finite datum is `significand * 2 ^ exponent`. -/
inductive Datum
  | finite (negative : Bool) (significand : Nat) (exponent : Int)
  | infinite (negative : Bool)
  | nan
  deriving DecidableEq

def Format.decode (f : Format) (bits : Nat) : Datum :=
  let negative := f.signBit ≤ bits
  let magnitude := bits % f.signBit
  let field := magnitude / f.hidden
  let fraction := magnitude % f.hidden
  if field = 0 then .finite negative fraction f.minExponent
  else if field = 1 <<< f.exponentBits - 1 then
    if fraction = 0 then .infinite negative else .nan
  else .finite negative (f.hidden + fraction) (f.minExponent + field - 1)

/-- `m / 2 ^ n` to the nearest whole number, a half to the even neighbour. -/
def shiftNearest (m n : Nat) : Nat :=
  let whole := m >>> n
  let unit := 1 <<< n
  let twice := 2 * (m % unit)
  if unit < twice || twice == unit && whole % 2 == 1 then whole + 1 else whole

/-- The magnitude bits nearest to `m * 2 ^ q`; what lies past the largest finite value is infinite. -/
def Format.magnitude (f : Format) (m : Nat) (q : Int) : Nat :=
  if m = 0 then 0
  else
    let exponent := max (q + m.log2 + 1 - f.precision) f.minExponent
    let significand :=
      if exponent ≤ q then m <<< (q - exponent).toNat else shiftNearest m (exponent - q).toNat
    min ((exponent - f.minExponent).toNat * f.hidden + significand) f.infinityBits

def Format.signed (f : Format) (negative : Bool) (magnitude : Nat) : Nat :=
  (if negative then f.signBit else 0) + magnitude

def Format.encode (f : Format) (negative : Bool) (m : Nat) (q : Int) : Nat :=
  f.signed negative (f.magnitude m q)

def Format.nanBits (f : Format) : Nat := f.infinityBits + f.hidden / 2

def Format.convert (f g : Format) (bits : Nat) : Nat :=
  match f.decode bits with
  | .finite negative m q => g.encode negative m q
  | .infinite negative => g.signed negative g.infinityBits
  | .nan => g.nanBits

end Columnar.Binary
