import Columnar.Aggregation
import Columnar.Column.Arithmetic
import Columnar.Grouping

namespace Columnar.Grouping

def floatsOr (c : Column) (neutral : Float) : Array Float :=
  .ofFn fun i : Fin c.height => (c.float? i).getD neutral

def intsOr (c : Column) (neutral : Int64) : Array Int64 :=
  .ofFn fun i : Fin c.height => (c.int? i).getD neutral

def valueCounts (g : Grouping) (c : Column) : Array Nat :=
  accumulate (fun n held => if held then n + 1 else n) (.ofFn fun i : Fin c.height => !c.isNull i)
    g.ids (.replicate g.size 0)

def floatSums (g : Grouping) (c : Column) : Array Float :=
  accumulate (· + ·) (floatsOr c Double.zero) g.ids (.replicate g.size Double.zero)

def intSums (g : Grouping) (c : Column) : Array Int64 :=
  accumulate (· + ·) (intsOr c 0) g.ids (.replicate g.size 0)

def floatColumn (name : String) (xs : Array Float) : Column := ⟨name, .float64 (xs.map some)⟩

def intColumn (name : String) (xs : Array Int64) : Column := ⟨name, .int64 (xs.map some)⟩

def countColumn (name : String) (ns : Array Nat) : Column := intColumn name (ns.map (.ofNat ·))

def sums (g : Grouping) (c : Column) : Column :=
  if c.dtype.isFloat then floatColumn c.name (g.floatSums c) else intColumn c.name (g.intSums c)

def ratios (xs : Array Float) (ns : Array Nat) : Array Float :=
  xs.zipWith (fun x (n : Nat) => if n = 0 then Double.nan else x / Double.ofInt n) ns

def means (g : Grouping) (c : Column) : Array Float := ratios (g.floatSums c) (g.valueCounts c)

inductive End
  | least
  | greatest
  deriving DecidableEq

def End.wanted : End → Ordering
  | least => .lt
  | greatest => .gt

def End.float : End → Float → Float → Float
  | least, slot, x => if x < slot then x else slot
  | greatest, slot, x => if slot < x then x else slot

def End.int : End → Int64 → Int64 → Int64
  | least, slot, i => if i < slot then i else slot
  | greatest, slot, i => if slot < i then i else slot

def End.floatNeutral : End → Float
  | least => Double.infinity
  | greatest => Double.negativeInfinity

def End.intNeutral : End → Int64
  | least => Int64.maxValue
  | greatest => Int64.minValue

def floatExtremes (g : Grouping) (c : Column) (e : End) : Array Float :=
  let slots :=
    accumulate e.float (floatsOr c e.floatNeutral) g.ids (.replicate g.size e.floatNeutral)
  slots.zipWith (fun x n => if n = 0 then Double.nan else x) (g.valueCounts c)

def intExtremes (g : Grouping) (c : Column) (e : End) : Array Int64 :=
  let slots := accumulate e.int (intsOr c e.intNeutral) g.ids (.replicate g.size e.intNeutral)
  slots.zipWith (fun i n => if n = 0 then 0 else i) (g.valueCounts c)

def extremes (g : Grouping) (c : Column) (e : End) : Column :=
  if c.dtype.isFloat || c.dtype = .null then floatColumn c.name (g.floatExtremes c e)
  else (intColumn c.name (g.intExtremes c e)).cast c.dtype

def extremeRows (g : Grouping) (c : Column) (e : End) : Gather :=
  let better (best : Option Nat) (row : Nat) : Option Nat :=
    match c.value? row, best with
    | none, best => best
    | some _, none => some row
    | some v, some b =>
      match c.value? b with
      | some w => if v.order w = e.wanted then some row else some b
      | none => some row
  accumulate better (.range g.ids.size) g.ids (.replicate g.size none)

def variances (g : Grouping) (c : Column) : Array Float :=
  let means := g.means c
  let square (row : Nat) (id : Nat) : Float :=
    match c.float? row with
    | some x =>
      let d := x - means[id]?.getD Double.zero
      d * d
    | none => Double.zero
  let squares := accumulate (· + ·) ((Array.range g.ids.size).zipWith square g.ids) g.ids
    (.replicate g.size Double.zero)
  squares.zipWith (fun s (n : Nat) => if n < 2 then Double.nan else s / Double.ofInt (n - 1 : Nat))
    (g.valueCounts c)

def medianOf (xs : List Float) : Float :=
  let sorted := (xs.mergeSort fun x y => Double.order x y != .gt).toArray
  let mid := sorted.size / 2
  match sorted[mid]? with
  | none => Double.nan
  | some x =>
    if sorted.size % 2 = 1 then x
    else (sorted[mid - 1]?.getD Double.zero + x) / Double.ofInt 2

def members (g : Grouping) (c : Column) : Array (List Float) :=
  accumulate (fun xs x => x.elim xs (· :: xs)) (.ofFn fun i : Fin c.height => c.float? i) g.ids
    (.replicate g.size [])

def medians (g : Grouping) (c : Column) : Array Float :=
  (g.members c).map fun xs => medianOf xs.reverse

def distinctCounts (host : Host) (g : Grouping) (c : Column) : Array Nat :=
  let hashes := Hasher.combine (Hasher.rows host.hasher.code c) (g.ids.map (.ofNat ·))
  let pairs := assign hashes fun i j => g.ids[i]? == g.ids[j]? && c.groupEq i c j
  pairs.firstRows.foldl (fun slots row =>
    if c.isNull row then slots else slots.modify (g.ids[row]?.getD 0) (· + 1)) (.replicate g.size 0)

def requireNumbers (c : Column) (op : Aggregation) : Except Error Unit :=
  if c.dtype.isStringLike then .error (.noAggregate op.text c.name c.dtype) else .ok ()

def extreme (g : Grouping) (c : Column) (e : End) : Column :=
  if c.dtype.isStringLike then c.take (g.extremeRows c e) else g.extremes c e

def aggregate (host : Host) (g : Grouping) (c : Column) : Aggregation → Except Error Column
  | .count => .ok (countColumn c.name (g.valueCounts c))
  | .first => .ok (c.gather g.firstRows)
  | .last => .ok (c.gather g.lastRows)
  | .min => .ok (g.extreme c .least)
  | .max => .ok (g.extreme c .greatest)
  | .distinct => .ok (countColumn c.name (distinctCounts host g c))
  | .sum => do requireNumbers c .sum; pure (g.sums c)
  | .mean => do requireNumbers c .mean; pure (floatColumn c.name (g.means c))
  | .std => do
    requireNumbers c .std
    pure (floatColumn c.name ((g.variances c).map Float.sqrt))
  | .var => do requireNumbers c .var; pure (floatColumn c.name (g.variances c))
  | .median => do requireNumbers c .median; pure (floatColumn c.name (g.medians c))

end Columnar.Grouping
