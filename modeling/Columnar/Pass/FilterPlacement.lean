import Columnar.Plan

/-!
Moving filters below joins: each conjunct goes to the one side that holds all its columns under their own
names, if the join keeps no rows of that side for which the filter would have to be asked again.
-/

namespace Columnar

namespace Expr

def conjuncts : Expr → List Expr
  | binary .and l r => l.conjuncts ++ r.conjuncts
  | e => [e]

def conjunction : List Expr → Expr
  | [] => literal (.bool true)
  | e :: es => es.foldl (binary .and) e

end Expr

namespace JoinColumn

/-- The side that a column comes from as it is. -/
def plainSide? (layout : List JoinColumn) (name : String) : Option JoinSide :=
  (layout.find? (·.name == name)).bind fun c =>
    if c.source = c.name ∧ c.fallback.isNone then some c.side else none

def commonSide? (layout : List JoinColumn) : List String → Option JoinSide
  | [] => none
  | [c] => plainSide? layout c
  | c :: cs => do
    let side ← plainSide? layout c
    let rest ← commonSide? layout cs
    if side = rest then some side else none

end JoinColumn

namespace Plan

structure Split where
  left : List Expr
  right : List Expr
  keep : List Expr

def sideOf? (layout : Option (List JoinColumn)) (e : Expr) : Option JoinSide :=
  if e.containsAggregate then none else layout.bind (JoinColumn.commonSide? · e.columns)

def target? (kind : JoinKind) (layout : Option (List JoinColumn)) (e : Expr) : Option JoinSide :=
  (sideOf? layout e).filter (kind.preserves ·)

def split (kind : JoinKind) (layout : Option (List JoinColumn)) (es : List Expr) : Split :=
  ⟨es.filter (target? kind layout · = some .left), es.filter (target? kind layout · = some .right),
    es.filter (target? kind layout · = none)⟩

def joinLayout? (s : JoinSpec) (l r : Plan) : Option (List JoinColumn) := do
  pure (s.layout (← l.columns?) (← r.columns?))

def filterAll (es : List Expr) (x : Plan) : Plan :=
  if es.isEmpty then x else step (.filter (.conjunction es)) x

/-- Puts a filter as far down as it goes into a plan whose own filters are down already. -/
def place (p : Expr) : Plan → Plan
  | join s l r =>
    let parts := split s.kind (joinLayout? s l r) p.conjuncts
    let l' := if parts.left.isEmpty then l else l.place (.conjunction parts.left)
    let r' := if parts.right.isEmpty then r else r.place (.conjunction parts.right)
    filterAll parts.keep (join s l' r')
  | x => step (.filter p) x

def pushFilters : Plan → Plan
  | scan s proj => scan s proj
  | step (.filter p) x => x.pushFilters.place p
  | step op x => step op x.pushFilters
  | join s l r => join s l.pushFilters r.pushFilters
  | cache id x => cache id x.pushFilters

end Plan

end Columnar
