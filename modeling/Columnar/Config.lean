import Columnar.Join.Layout
import Columnar.Json.Parser
import Columnar.Parallel

namespace Columnar

structure Config where
  parallel : Parallel
  joinSuffix : String
  optimize : Bool
  /-- Whether inner joins on one key merge inputs that are sorted already. -/
  autoSortMerge : Bool
  deriving DecidableEq

namespace Config

def standard : Config := ⟨.standard, JoinColumn.standardSuffix, true, true⟩

def validate (c : Config) : Except Error Unit := do
  c.parallel.validate
  if c.joinSuffix.isEmpty then throw .emptySuffix

/-- The settings that stand in JSON under their names, or in order in an array. -/
def fields (names : List String) : Json → Option (List (Option Json))
  | .object given =>
    let known := (given.map (·.1)).filter (names.contains ·)
    if known.eraseDups.length = known.length then some (names.map (given.lookup ·)) else none
  | .array items =>
    if items.length ≤ names.length then
      some ((items.map some) ++ .replicate (names.length - items.length) none)
    else none
  | _ => none

def readOr (standard : α) (read : Json → Option α) : Option Json → Option α
  | none => some standard
  | some v => read v

def readBool : Json → Option Bool
  | .bool b => some b
  | _ => none

def readWord : Json → Option UInt64
  | .int i => if 0 ≤ i ∧ i.toNat < UInt64.size then some (.ofNat i.toNat) else none
  | _ => none

def readText : Json → Option String
  | .text s => some s
  | _ => none

def readParallel (v : Json) : Option Parallel := do
  let s := Parallel.standard
  match ← fields ["enabled", "min_rows_for_parallel", "morsel_size", "max_workers"] v with
  | [enabled, minRows, morselSize, maxWorkers] =>
    pure ⟨← readOr s.enabled readBool enabled, ← readOr s.minRows readWord minRows,
      ← readOr s.morselSize readWord morselSize, ← readOr s.maxWorkers readWord maxWorkers⟩
  | _ => none

def read (v : Json) : Option Config := do
  let s := Config.standard
  match ← fields ["parallel", "join_suffix", "optimize", "auto_sort_merge"] v with
  | [parallel, suffix, optimize, merge] =>
    pure ⟨← readOr s.parallel readParallel parallel, ← readOr s.joinSuffix readText suffix,
      ← readOr s.optimize readBool optimize, ← readOr s.autoSortMerge readBool merge⟩
  | _ => none

/-- Unknown names are passed over; a wrong type, a name twice and text behind the end are refused. -/
def ofText (s : String) : Except Error Config := do
  match (Json.parse? s).bind read with
  | none => throw .malformedConfig
  | some c => c.validate; pure c

end Config

end Columnar
