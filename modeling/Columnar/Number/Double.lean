import Columnar.Number.Binary

namespace Columnar.Double

open Binary

def datum (x : Float) : Datum := Format.double.decode x.toBits.toNat

def ofParts (negative : Bool) (m : Nat) (q : Int) : Float :=
  Float.ofBits (.ofNat (Format.double.encode negative m q))

def magnitudeBits (x : Float) : UInt64 := x.toBits &&& 0x7fffffffffffffff

def isMissing (x : Float) : Bool := 0x7ff0000000000000 < magnitudeBits x

def isZero (x : Float) : Bool := magnitudeBits x == 0

def isFinite (x : Float) : Bool := magnitudeBits x < 0x7ff0000000000000

/-- A key of a bit pattern whose order is the total order of the values: negative zero comes before
zero, and a missing value before or after all others by its sign. -/
def patternKey (bits : UInt64) : UInt64 :=
  if bits < 0x8000000000000000 then bits ||| 0x8000000000000000 else ~~~bits

def orderKey (x : Float) : UInt64 := patternKey x.toBits

def order (x y : Float) : Ordering := compare (orderKey x) (orderKey y)

def agree (x y : Float) : Bool :=
  !isMissing x && !isMissing y && (x.toBits == y.toBits || isZero x && isZero y)

def canonicalBits (x : Float) : UInt64 := if isZero x then 0 else x.toBits

def zero : Float := Float.ofBits 0

def negativeZero : Float := Float.ofBits 0x8000000000000000

def one : Float := Float.ofBits 0x3ff0000000000000

def nan : Float := Float.ofBits 0x7ff8000000000000

def infinity : Float := Float.ofBits 0x7ff0000000000000

def negativeInfinity : Float := Float.ofBits 0xfff0000000000000

def ofBool (b : Bool) : Float := if b then one else zero

def ofInt (i : Int) : Float := ofParts (i < 0) i.natAbs 0

/-- The whole part, clamped to `lo` and `hi`; a missing value becomes zero. -/
def truncate (lo hi : Int) (x : Float) : Int :=
  match datum x with
  | .nan => 0
  | .infinite negative => if negative then lo else hi
  | .finite negative m q =>
    let whole : Int := if 0 ≤ q then (m <<< q.toNat : Nat) else (m >>> (-q).toNat : Nat)
    max lo (min hi (if negative then -whole else whole))

end Columnar.Double

namespace Columnar.Single

open Binary

def widen (x : Float32) : Float :=
  Float.ofBits (.ofNat (Format.single.convert .double x.toBits.toNat))

def narrow (x : Float) : Float32 :=
  Float32.ofBits (.ofNat (Format.double.convert .single x.toBits.toNat))

end Columnar.Single
