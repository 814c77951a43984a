import Columnar.Pass.FilterMerge
import Columnar.Pass.FilterPlacement
import Columnar.Pass.Pruning
import Columnar.Pass.Sharing

namespace Columnar

structure Passes where
  shareSubexprs : Bool
  pushFilters : Bool
  prune : Bool
  mergeFilters : Bool
  deriving DecidableEq

def Passes.all : Passes := ⟨true, true, true, true⟩

structure Rule where
  name : String
  apply : Plan → Except Error Plan

structure Optimizer where
  passes : Passes
  rules : List Rule

namespace Optimizer

def standard : Optimizer := ⟨.all, []⟩

def has (o : Optimizer) (name : String) : Bool := o.rules.any (·.name == name)

def without (o : Optimizer) (name : String) : Optimizer :=
  { o with rules := o.rules.filter (·.name != name) }

def register (o : Optimizer) (r : Rule) : Optimizer :=
  let o := o.without r.name
  { o with rules := r :: o.rules }

def builtin (passes : Passes) (p : Plan) : Plan :=
  let p := if passes.shareSubexprs then p.shareSubexprs else p
  let p := if passes.pushFilters then p.pushFilters else p
  let p := if passes.prune then p.prune none else p
  if passes.mergeFilters then p.mergeFilters else p

def sortedRules (o : Optimizer) : List Rule := o.rules.mergeSort fun a b => a.name ≤ b.name

def optimize (o : Optimizer) (p : Plan) : Except Error Plan :=
  o.sortedRules.foldlM (fun p r => r.apply p) (builtin o.passes p)

def passesText (p : Passes) : String :=
  "OptimizerConfig \x7b common_subexpr_elimination: " ++ Scalar.boolText p.shareSubexprs ++
    ", predicate_pushdown: " ++ Scalar.boolText p.pushFilters ++
    ", projection_pushdown: " ++ Scalar.boolText p.prune ++
    ", filter_merge: " ++ Scalar.boolText p.mergeFilters ++ " \x7d"

def text (o : Optimizer) : String :=
  "Optimizer \x7b config: " ++ passesText o.passes ++ ", custom_rules: " ++
    toString o.rules.length ++ " \x7d"

end Optimizer

end Columnar
