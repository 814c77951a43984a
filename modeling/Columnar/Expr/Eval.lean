import Columnar.Expr
import Columnar.Frame

namespace Columnar

namespace Mask

/-- Negation, conjunction and disjunction of three truth values, the third being unknown. -/
def not (m : Mask) : Mask := m.map (·.map (!·))

def andValue : Option Bool → Option Bool → Option Bool
  | some false, _ | _, some false => some false
  | some true, some true => some true
  | _, _ => none

def orValue : Option Bool → Option Bool → Option Bool
  | some true, _ | _, some true => some true
  | some false, some false => some false
  | _, _ => none

def and (m n : Mask) : Mask := m.zipWith andValue n

def or (m n : Mask) : Mask := m.zipWith orValue n

end Mask

namespace Column

def nullMask (c : Column) : Mask := .ofFn fun i : Fin c.height => some (c.isNull i)

/-- The place of a row in two stacked columns, the upper one of so many rows, by words of 32 bits. -/
def chosenRow (n : UInt32) (first : Nat → Bool) (i : Nat) : Except Error UInt32 :=
  let row := UInt32.ofNat i
  if first i then .ok row
  else if n.toNat + row.toNat < UInt32.size then .ok (n + row) else .error .overflow

def choose (a b : Column) (first : Nat → Bool) : Except Error Column := do
  checkHeights a b
  let n := UInt32.ofNat a.height
  let rows ← (List.range n.toNat).mapM (chosenRow n first)
  pure ((a.stackOnto [b]).gather (rows.map (·.toNat)).toArray)

end Column

namespace Expr

def toMask (e : Expr) (c : Column) : Except Error Mask :=
  match c.cells with
  | .bool rows => .ok rows
  | .null n => .ok (.replicate n none)
  | _ => .error (.notBoolean e.text c.dtype)

mutual

/-- The column before it gets its name. A literal on the right meets each row without a column. -/
def eval (f : Frame) : Expr → Except Error Column
  | column name => f.column name
  | literal v => .ok (.full "literal" f.height v)
  | named e _ => e.eval f
  | binary op l r => do
    let a ← l.eval f
    match op.family, r with
    | .conjunction, _ => do
      let m ← l.toMask a
      pure (.ofMask "mask" (m.and (← r.toMask (← r.eval f))))
    | .disjunction, _ => do
      let m ← l.toMask a
      pure (.ofMask "mask" (m.or (← r.toMask (← r.eval f))))
    | .compare op, literal v => .ofMask "mask" <$> a.compareScalar op v
    | .compare op, _ => do pure (.ofMask "mask" (← a.compare op (← r.eval f)))
    | .arith op, literal v => a.arithScalar op v
    | .arith op, _ => do a.arith op (← r.eval f)
  | not e => do pure (.ofMask "mask" (← e.toMask (← e.eval f)).not)
  | e@(aggregate ..) => .error (.strayAggregation e.text)
  | cast e t => (·.cast t) <$> e.eval f
  | when c v => do
    let m ← c.toMask (← c.eval f)
    let a ← v.eval f
    a.choose (.nulls "otherwise" f.height .null) m.holds
  | whenElse c v o => do
    let m ← c.toMask (← c.eval f)
    let a ← v.eval f
    a.choose (← o.eval f) m.holds
  | isNull e => do pure (.ofMask "mask" (← e.eval f).nullMask)
  | isNotNull e => do pure (.ofMask "mask" (← e.eval f).nullMask.not)
  | fillNull e fill => do
    let a ← e.eval f
    a.choose (← fill.eval f) (!a.isNull ·)
  | coalesce [] => .error .emptyCoalesce
  | coalesce (e :: es) => do coalesceWith f (← e.eval f) es
  | structField _ name => .error (.structField name)
  | listGet _ i => .error (.listElement i)

def coalesceWith (f : Frame) (acc : Column) : List Expr → Except Error Column
  | [] => .ok acc
  | e :: es => do
    let next ← e.eval f
    coalesceWith f (← acc.choose next (!acc.isNull ·)) es

end

theorem eval_column (f : Frame) (name : String) : (column name).eval f = f.column name := by rw [eval]

def evaluate (e : Expr) (f : Frame) : Except Error Column := (·.rename e.outputName) <$> e.eval f

def evaluateMask (e : Expr) (f : Frame) : Except Error Mask := do e.toMask (← e.eval f)

end Expr

end Columnar
