import Columnar.Plan

namespace Columnar

namespace JoinColumn

def stripSuffix? (suffix name : List Char) : Option (List Char) :=
  if suffix.isSuffixOf name then some (name.take (name.length - suffix.length)) else none

def chained (suffix base name : List Char) : Bool :=
  if name == base then true
  else
    match stripSuffix? suffix name with
    | none => false
    | some rest => if _h : rest.length < name.length then chained suffix base rest else false
termination_by name.length

def inChain (name base suffix : String) : Bool := chained suffix.toList base.toList name.toList

/-- Whether the name of one column could depend on the presence of the other. -/
def entangled (suffix : String) (a b : JoinColumn) : Bool :=
  inChain a.source b.source suffix || inChain b.source a.source suffix

def namingRelevant (suffix : String) (layout : List JoinColumn) (i : Nat) (c : JoinColumn) : Bool :=
  layout.zipIdx.any fun (other, j) => i != j && entangled suffix c other

def neededColumns (required : List String) (suffix : String) (layout : List JoinColumn) :
    List JoinColumn :=
  (layout.zipIdx.filter fun (c, i) =>
    required.contains c.name || namingRelevant suffix layout i c).map (·.1)

/-- What both sides of a join have to give so that the required columns come out under their names: the
keys, the required ones, and those on which names depend. -/
def sideRequirements (required : List String) (layout : List JoinColumn) (leftOn rightOn : List String)
    (suffix : String) : List String × List String :=
  let needed := neededColumns required (effectiveSuffix suffix) layout
  (leftOn ++ (needed.filter (·.side = .left)).map (·.source),
    rightOn ++ (needed.filter (·.side = .right)).map (·.source) ++ needed.filterMap (·.fallback))

end JoinColumn

namespace Operator

def columnsOf (es : List Expr) : List String := es.flatMap (·.columns)

def required? (outer : Option (List String)) : Operator → Option (List String)
  | project es => some (columnsOf es)
  | filter e => outer.map (· ++ e.columns)
  | withColumn e => outer.map fun names => names.filter (· != e.outputName) ++ e.columns
  | groupBy keys aggs => some (columnsOf (keys ++ aggs))
  | sort keys _ => outer.map (· ++ keys)
  | limit _ | tail _ => outer
  | distinct none => none
  | distinct (some names) => outer.map (· ++ names)
  | pivot index columns values _ => some (index ++ [columns, values])
  | melt ids values _ _ => if values.isEmpty then none else some (ids ++ values)
  | apply column _ => outer.map (· ++ [column])

end Operator

namespace Plan

def prunedScan (s : Source) (proj required : Option (List String)) : Option (List String) :=
  match required, s.names? with
  | some needed, some names =>
    some (names.filter fun n => needed.contains n && proj.all (·.contains n))
  | _, _ => proj

def joinRequirements (s : JoinSpec) (l r : Plan) (required : Option (List String)) :
    Option (List String) × Option (List String) :=
  match required, l.columns?, r.columns? with
  | some needed, some left, some right =>
    let (a, b) :=
      JoinColumn.sideRequirements needed (s.layout left right) s.leftOn s.rightOn s.suffix
    (some a, some b)
  | _, _, _ => (none, none)

/-- Cached rows serve several plans and are kept whole. -/
def prune (required : Option (List String)) : Plan → Plan
  | scan s proj => scan s (prunedScan s proj required)
  | step op x => step op (x.prune (op.required? required))
  | join s l r =>
    let (a, b) := joinRequirements s l r required
    join s (l.prune a) (r.prune b)
  | cache id x => cache id (x.prune none)

end Plan

end Columnar
