import Columnar.Frame.Describe
import Columnar.Optimizer
import Columnar.Plan.Run

namespace Columnar

structure Session where
  config : Config
  host : Host
  optimizer : Optimizer
  cached : List (Nat × Frame)
  nextCache : Nat
  queries : Array (Array OperatorRecord)
  calls : Array String

namespace Session

def start (config : Config) (host : Host) : Session :=
  ⟨config, host, .standard, [], 1, #[], #[]⟩

def plan (s : Session) (p : Plan) : Except Error Plan :=
  if s.config.optimize then s.optimizer.optimize p else .ok p

/-- Keeps what a query has left behind, even one that failed. -/
def absorb (s : Session) (t : Trace) : Session :=
  { s with
    cached := t.cached
    queries := if t.operators.isEmpty then s.queries else s.queries.push t.operators
    calls := s.calls ++ t.calls }

def collect (s : Session) (p : Plan) : Except Error Frame × Session :=
  match s.plan p with
  | .error e => (.error e, s)
  | .ok p =>
    let (out, t) := (p.run s.host).run { Trace.empty with cached := s.cached }
    (out, s.absorb t)

def describe (s : Session) (p : Plan) : Except Error Frame × Session :=
  let (out, s) := s.collect p
  (out >>= (·.describe), s)

def sink (s : Session) (write : Frame → Except Error α) (p : Plan) : Except Error α × Session :=
  let (out, s) := s.collect p
  (out >>= write, s)

def explain (s : Session) (optimized : Bool) (p : Plan) : Except Error String :=
  (·.explain 0) <$> if optimized then s.plan p else .ok p

def cache (s : Session) (p : Plan) : Plan × Session :=
  (.cache s.nextCache p, { s with nextCache := s.nextCache + 1 })

def clearCache (s : Session) : Session := { s with cached := [] }

def total (records : Array OperatorRecord) (operator : String) : OperatorRecord :=
  records.foldl (fun t r =>
    if r.operator = operator then ⟨operator, t.rowsIn + r.rowsIn, t.rowsOut + r.rowsOut⟩ else t)
    ⟨operator, 0, 0⟩

def counters (s : Session) : List (Nat × OperatorRecord) :=
  s.queries.toList.zipIdx.flatMap fun (records, query) =>
    let names := ((records.toList.map (·.operator)).mergeSort (· ≤ ·)).eraseReps
    names.map fun name => (query, total records name)

def callCounts (s : Session) : List (String × Nat) :=
  ((s.calls.toList.mergeSort (· ≤ ·)).eraseReps).map fun name => (name, s.calls.toList.count name)

end Session

end Columnar
