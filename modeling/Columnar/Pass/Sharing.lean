import Columnar.Plan

/-!
Computing repeated expressions once: in a chain of operators that work row by row, what occurs more than
once becomes a hidden column below the chain.
-/

namespace Columnar

namespace Expr

def isShareable (e : Expr) : Bool :=
  !e.isTrivial && !e.containsAggregate && match e with
    | named .. | structField .. | listGet .. => false
    | _ => true

/-- Shareable and free of columns that mean something else below the chain. -/
def isCandidate (blocked : List String) (e : Expr) : Bool :=
  e.isShareable && e.columns.all (!blocked.contains ·)

def candidates (blocked : List String) (e : Expr) : List String :=
  (e.nodes.filter (isCandidate blocked)).map text

end Expr

structure Sharing where
  repeated : List String
  taken : List String

namespace Sharing

abbrev Hidden := List (String × Expr)

def hiddenName (n : Nat) : String := s!"__cse_{n}"

def fresh (s : Sharing) (count : Nat) : String :=
  (((List.range' count (s.taken.length + 1)).map hiddenName).find? (!s.taken.contains ·)).getD
    (hiddenName count)

def share (s : Sharing) (e : Expr) : StateM Hidden Expr := do
  let hidden ← get
  match hidden.find? fun (_, h) => h.text == e.text with
  | some (name, _) => pure (.column name)
  | none =>
    let name := s.fresh hidden.length
    set (hidden ++ [(name, e)])
    pure (.column name)

def isShared (s : Sharing) (blocked : List String) (e : Expr) : Bool :=
  e.isCandidate blocked && s.repeated.contains e.text

mutual

/-- Puts hidden columns in the place of repeated expressions, the outermost first. -/
def replace (s : Sharing) (blocked : List String) (e : Expr) : StateM Hidden Expr :=
  if s.isShared blocked e then s.share e
  else
    match e with
    | .column c => pure (.column c)
    | .literal v => pure (.literal v)
    | .named e name => (.named · name) <$> s.replace blocked e
    | .binary op l r => do
      let l ← s.replace blocked l
      .binary op l <$> s.replace blocked r
    | .not e => .not <$> s.replace blocked e
    | .aggregate op e => .aggregate op <$> s.replace blocked e
    | .cast e t => (.cast · t) <$> s.replace blocked e
    | .when c v => do
      let c ← s.replace blocked c
      .when c <$> s.replace blocked v
    | .whenElse c v o => do
      let c ← s.replace blocked c
      let v ← s.replace blocked v
      .whenElse c v <$> s.replace blocked o
    | .isNull e => .isNull <$> s.replace blocked e
    | .isNotNull e => .isNotNull <$> s.replace blocked e
    | .fillNull e fill => do
      let e ← s.replace blocked e
      .fillNull e <$> s.replace blocked fill
    | .coalesce es => .coalesce <$> s.replaceAll blocked es
    | .structField e field => (.structField · field) <$> s.replace blocked e
    | .listGet e i => (.listGet · i) <$> s.replace blocked e

def replaceAll (s : Sharing) (blocked : List String) : List Expr → StateM Hidden (List Expr)
  | [] => pure []
  | e :: es => do
    let e ← s.replace blocked e
    (e :: ·) <$> s.replaceAll blocked es

end

def replaceNamed (s : Sharing) (blocked : List String) (e : Expr) : StateM Hidden Expr := do
  let e' ← s.replace blocked e
  pure (if e'.outputName = e.outputName then e' else .named e' e.outputName)

end Sharing

namespace Operator

def defines? : Operator → Option String
  | withColumn e => some e.outputName
  | apply column _ => some column
  | _ => none

def sharingExprs : Operator → List Expr
  | project es => es
  | groupBy _ aggs => aggs
  | filter e | withColumn e => [e]
  | _ => []

def replaceShared (s : Sharing) (blocked : List String) :
    Operator → StateM Sharing.Hidden Operator
  | project es => project <$> es.mapM (s.replaceNamed blocked)
  | groupBy keys aggs => groupBy keys <$> aggs.mapM (s.replaceNamed blocked)
  | filter e => filter <$> s.replace blocked e
  | withColumn e => withColumn <$> s.replaceNamed blocked e
  | op => pure op

def chains : Operator → Bool
  | filter _ | withColumn _ | sort .. | limit _ | tail _ | apply .. => true
  | _ => false

/-- Whether an operator may stand only at the top of a chain, since it makes new columns. -/
def heads : Operator → Bool
  | project _ | groupBy .. => true
  | _ => false

end Operator

namespace Plan

def blockedBelow : List Operator → List (Operator × List String)
  | [] => []
  | op :: ops => (op, ops.filterMap (·.defines?)) :: blockedBelow ops

def repeatedTexts (chain : List (Operator × List String)) : List String :=
  let texts := chain.flatMap fun (op, blocked) =>
    op.sharingExprs.flatMap (Expr.candidates blocked)
  texts.eraseDups.filter fun t => 1 < texts.count t

def stack (ops : List Operator) (base : Plan) : Plan := ops.foldr step base

def hide (hidden : Sharing.Hidden) (base : Plan) : Plan :=
  hidden.foldl (fun p (name, e) => step (.withColumn (.named e name)) p) base

def replaceChain (s : Sharing) (chain : List (Operator × List String)) :
    List Operator × Sharing.Hidden :=
  (chain.mapM fun (c : Operator × List String) => c.1.replaceShared s c.2).run []

/-- Puts a chain back onto its base, which gives `output`; repeated expressions are shared if the hidden
columns can be dropped again above. -/
def shareChain (ops : List Operator) (output : Option (List String)) (base : Plan) : Plan :=
  let chain := blockedBelow ops
  let repeated := repeatedTexts chain
  let headed := ops.head?.any (·.heads)
  if repeated.isEmpty || !headed && output.isNone then stack ops base
  else
    let taken := base.columns?.getD [] ++ ops.filterMap (·.defines?)
    let (ops', hidden) := replaceChain ⟨repeated, taken⟩ chain
    let shared := stack ops' (hide hidden base)
    match headed, output with
    | false, some names => step (.project (names.map .column)) shared
    | _, _ => shared

def shareFrom (ops : List Operator) (output : Option (List String)) : Plan → Plan
  | scan s proj => shareChain ops output (scan s proj)
  | step op x =>
    if op.chains || op.heads && ops.isEmpty then shareFrom (ops ++ [op]) output x
    else if op.heads then
      shareChain ops output (shareFrom [op] (op.columns? x.columns?) x)
    else shareChain ops output (step op (shareFrom [] x.columns? x))
  | join s l r =>
    shareChain ops output (join s (shareFrom [] l.columns? l) (shareFrom [] r.columns? r))
  | cache id x => shareChain ops output (cache id (shareFrom [] x.columns? x))

def shareSubexprs (p : Plan) : Plan := shareFrom [] p.columns? p

end Plan

end Columnar
