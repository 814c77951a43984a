import Columnar.Column

namespace Columnar

structure Hasher where
  word : UInt64 → UInt64
  text : String → UInt64

namespace Hasher

def nullHash : UInt64 := 0x517cc1b727220a95

def scramble (x : UInt64) : UInt64 :=
  let x := (x + 0x9e3779b97f4a7c15)
  let x := (x ^^^ (x >>> 30)) * 0xbf58476d1ce4e5b9
  let x := (x ^^^ (x >>> 27)) * 0x94d049bb133111eb
  x ^^^ (x >>> 31)

def standard : Hasher := ⟨scramble, fun s => scramble (hash s)⟩

/-- Integers of both widths, truth values and dictionary codes are hashed as words, floats by the bits
of their value. -/
def code (h : Hasher) : Value → UInt64
  | .int64 i => h.word i.toUInt64
  | .int32 i => h.word i.toInt64.toUInt64
  | .float64 x => h.word (Double.canonicalBits x)
  | .float32 x => h.word (Double.canonicalBits (Single.widen x))
  | .bool b => h.word (if b then 1 else 0)
  | .string s => h.text s
  | .category c _ => h.word (.ofNat c)

def byText (h : Hasher) : Value → UInt64
  | .category _ s => h.text s
  | v => h.code v

def rows (f : Value → UInt64) (c : Column) : Array UInt64 :=
  .ofFn fun i : Fin c.height => (c.value? i).elim nullHash f

def combineOne (x y : UInt64) : UInt64 :=
  x ^^^ (y + (0x9e3779b97f4a7c15 : UInt64) + (x <<< 6) + (x >>> 2))

/-- Mixes further hashes into those so far; the shorter list ends it. -/
def combine (xs ys : Array UInt64) : Array UInt64 :=
  xs.mapIdx fun i x => (ys[i]?.map (combineOne x)).getD x

def keys (columns : List (Array UInt64)) (height : Nat) : Array UInt64 :=
  match columns with
  | [] => .replicate height 0
  | c :: cs => cs.foldl combine c

end Hasher

end Columnar
