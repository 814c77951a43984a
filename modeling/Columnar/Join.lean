import Columnar.Config
import Columnar.Frame
import Columnar.Grouping
import Columnar.HashIndex

/-!
Joins of two frames. Pairs of rows come in the order of the left row and then of the right one; a left
row without a partner keeps its place, and right rows without one follow at the end.
-/

namespace Columnar

structure JoinSpec where
  kind : JoinKind
  leftOn : List String
  rightOn : List String
  suffix : String
  deriving DecidableEq

abbrev RowPair := Option Nat × Option Nat

inductive JoinStrategy
  | hash
  | sortMerge
  | cross
  deriving DecidableEq, Repr

def JoinStrategy.text : JoinStrategy → String
  | hash => "hash"
  | sortMerge => "sort_merge"
  | cross => "cross"

namespace JoinSpec

def validate (s : JoinSpec) : Except Error Unit :=
  if s.kind = .cross then
    if s.leftOn.isEmpty && s.rightOn.isEmpty then .ok () else .error .crossKeys
  else if s.leftOn.isEmpty then .error (.noJoinKeys s.kind.text)
  else if s.leftOn.length ≠ s.rightOn.length then
    .error (.joinKeyCount s.leftOn.length s.rightOn.length)
  else .ok ()

def layout (s : JoinSpec) (left right : List String) : List JoinColumn :=
  JoinColumn.layout left right s.leftOn s.rightOn s.kind s.suffix

end JoinSpec

namespace Join

structure Keys where
  left : List Column
  right : List Column

/-- Whether two types are hashed and compared alike as they are. -/
def sameSpace (l r : DType) : Bool :=
  l = r || l = .null || r = .null || l.isInteger && r.isInteger || l.isFloat && r.isFloat
    || l.isStringLike && r.isStringLike

/-- Integers meet floats as floats of double precision. -/
def comparable (l r : Column) : Except Error (Column × Column) :=
  if sameSpace l.dtype r.dtype then .ok (l, r)
  else if l.dtype.isNumeric && r.dtype.isNumeric then .ok (l.cast .float64, r.cast .float64)
  else .error (.unjoinable l.name l.dtype r.name r.dtype)

def keys (l r : Frame) (s : JoinSpec) : Except Error Keys := do
  let pairs ← (s.leftOn.zip s.rightOn).mapM fun (a, b) => do
    comparable (← l.column a) (← r.column b)
  pure ⟨pairs.map (·.1), pairs.map (·.2)⟩

def anyNull (columns : List Column) (row : Nat) : Bool := columns.any (·.isNull row)

def hashes (h : Hasher) (columns : List Column) : Array UInt64 :=
  Hasher.keys (columns.map (Hasher.rows h.byText)) 0

def Keys.agree (k : Keys) (l r : Nat) : Bool :=
  (k.left.zip k.right).all fun (a, b) => a.joinEq l b r

def orderKeys (left : List Column) (l : Nat) (right : List Column) (r : Nat) : Ordering :=
  match left, right with
  | a :: as, b :: bs => (a.orderRows l b r).then (orderKeys as l bs r)
  | _, _ => .eq

def hashMatches (host : Host) (k : Keys) : List (Nat × Nat) :=
  let rightHashes := hashes host.hasher k.right
  let index := HashIndex.build host.pool rightHashes (!anyNull k.right ·)
  index.collect host.pool (hashes host.hasher k.left) (Column.heightOf k.left) fun l candidates =>
    if anyNull k.left l then [] else candidates.toList.filter (k.agree l)

structure LeftWalk where
  pairs : Array RowPair
  next : List (Nat × Nat)

/-- A left row is put down with the matches of it that come next, or by itself if there are none. -/
def LeftWalk.step (w : LeftWalk) (l : Nat) : LeftWalk :=
  let hits := w.next.takeWhile (·.1 == l)
  let pairs := hits.foldl (fun a (l, r) => a.push (some l, some r)) w.pairs
  ⟨if hits.isEmpty then pairs.push (some l, none) else pairs, w.next.dropWhile (·.1 == l)⟩

/-- All left rows, each with its partners or by itself, where the matches are in the order of the left rows. -/
def withLeft (height : Nat) (found : List (Nat × Nat)) : List RowPair :=
  ((List.range height).foldl LeftWalk.step ⟨#[], found⟩).pairs.toList

def leftOver (height : Nat) (found : List (Nat × Nat)) : List RowPair :=
  let hit := found.foldl (fun a (_, r) => a.setIfInBounds r true) (Array.replicate height false)
  ((List.range height).filter fun r => hit[r]? != some true).map fun r => (none, some r)

def hashPairs (host : Host) (k : Keys) (kind : JoinKind) : List RowPair :=
  let found := hashMatches host k
  let pairs :=
    if kind.keepsLeft then withLeft (Column.heightOf k.left) found
    else found.map fun (l, r) => (some l, some r)
  if kind.keepsRight then pairs ++ leftOver (Column.heightOf k.right) found else pairs

def sortedRows (columns : List Column) (sorted : Bool) : List Nat :=
  let n := Column.heightOf columns
  let rows := if sorted then List.range n else argsort n (columns.map (⟨·, false⟩))
  rows.filter (!anyNull columns ·)

/-- Walks along two sorted lists and pairs each run of equal keys with the run that it meets. -/
def mergeRuns (order : Nat → Nat → Ordering) (sameLeft sameRight : Nat → Nat → Bool) :
    List Nat → List Nat → List (Nat × Nat)
  | l :: ls, r :: rs =>
    match order l r with
    | .lt => mergeRuns order sameLeft sameRight ls (r :: rs)
    | .gt => mergeRuns order sameLeft sameRight (l :: ls) rs
    | .eq =>
      let leftRun := l :: ls.takeWhile (sameLeft l)
      let rightRun := r :: rs.takeWhile (sameRight r)
      leftRun.flatMap (fun a => rightRun.map (a, ·)) ++
        mergeRuns order sameLeft sameRight (ls.dropWhile (sameLeft l)) (rs.dropWhile (sameRight r))
  | _, _ => []
termination_by ls rs => ls.length + rs.length
decreasing_by
  · simp
  · simp
  · have := (List.dropWhile_suffix (sameLeft l) (l := ls)).length_le
    have := (List.dropWhile_suffix (sameRight r) (l := rs)).length_le
    simp only [List.length_cons]
    omega

def mergePairs (k : Keys) (sorted : Bool) : List RowPair :=
  let pairs := mergeRuns (fun l r => orderKeys k.left l k.right r)
    (fun a b => orderKeys k.left a k.left b == .eq) (fun a b => orderKeys k.right a k.right b == .eq)
    (sortedRows k.left sorted) (sortedRows k.right sorted)
  pairs.map fun (l, r) => (some l, some r)

def crossPairs (m n : Nat) : List RowPair :=
  (List.range m).flatMap fun l => (List.range n).map fun r => (some l, some r)

def Keys.sorted (k : Keys) : Bool :=
  match k.left, k.right with
  | [l], [r] => l.isSorted && r.isSorted
  | _, _ => false

def Keys.strategy (k : Keys) (kind : JoinKind) (autoSortMerge : Bool) : JoinStrategy :=
  if kind = .cross then .cross
  else if autoSortMerge && kind = .inner && k.sorted then .sortMerge
  else .hash

/-- One output column; a key that both sides share is filled from the right where there is no left row. -/
def outputColumn (l r : Frame) (pairs : List RowPair) (c : JoinColumn) : Except Error Column := do
  let values ← match c.side, c.fallback with
    | .left, none => (·.take (pairs.map (·.1)).toArray) <$> l.column c.source
    | .left, some key => do
      let both := (← l.column c.source).stackOnto [← r.column key]
      pure (both.take (pairs.map fun (i, j) => i <|> j.map (l.height + ·)).toArray)
    | .right, _ => (·.take (pairs.map (·.2)).toArray) <$> r.column c.source
  pure (values.rename c.name)

def assemble (l r : Frame) (s : JoinSpec) (pairs : List RowPair) : Except Error Frame := do
  Frame.ofColumns (← (s.layout l.names r.names).mapM (outputColumn l r pairs))

def run (host : Host) (l r : Frame) (s : JoinSpec) :
    Except Error (JoinStrategy × Frame) := do
  s.validate
  let k ← keys l r s
  let strategy := k.strategy s.kind host.autoSortMerge
  let pairs := match strategy with
    | .cross => crossPairs l.height r.height
    | .sortMerge => mergePairs k true
    | .hash => hashPairs host k s.kind
  pure (strategy, ← assemble l r s pairs)

def sortMerge (l r : Frame) (s : JoinSpec) : Except Error Frame := do
  s.validate
  if s.kind ≠ .inner then throw (.sortMergeKind s.kind.text)
  let k ← keys l r s
  assemble l r s (mergePairs k k.sorted)

end Join

end Columnar
