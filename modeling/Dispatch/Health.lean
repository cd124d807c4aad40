import Dispatch.Breaker
import Dispatch.Decimal.Layout
import Dispatch.Text.Quoted
import Dispatch.Text.Record
/-!
# Health

Named checks are called in the order in which they were first registered. The verdict is the worst of
three: an open circuit or a failed check is critical, a queue that is too full is degraded.
-/

namespace Dispatch

/-- The verdict on the state of an engine. -/
inductive HealthStatus where
  | healthy
  | degraded
  /-- The circuit is open or a check has failed. -/
  | critical
deriving DecidableEq, Repr

namespace HealthStatus

def text : HealthStatus → String
  | healthy => "healthy"
  | degraded => "degraded"
  | critical => "critical"

/-- The verdicts, from the best to the worst. -/
def all : List HealthStatus := [healthy, degraded, critical]

/-- The place of a verdict among all verdicts. -/
def rank : HealthStatus → Nat
  | healthy => 0
  | degraded => 1
  | critical => 2

/-- Verdicts are ordered by how bad they are. -/
def order (a b : HealthStatus) : Ordering := compare a.rank b.rank

end HealthStatus

/-- How one call of a check ended. -/
inductive Probe where
  | passed
  | failed
  | panicked
deriving DecidableEq, Repr

/-- A call of a check: whose it was, and how it ended. -/
structure CheckCall where
  name : String
  ending : Probe
deriving DecidableEq, Repr

/-- A named check. -/
structure HealthCheck where
  name : String
  /-- How a call of the check ends, from all calls before it, the latest of which comes first. Checks may
  remember calls of their own and of each other. -/
  probe : List CheckCall → Probe

/-- The result of one call of a check. -/
structure HealthCheckResult where
  name : String
  passed : Bool
  /-- Why the check has no answer of its own. -/
  error : Option String
deriving DecidableEq, Repr

/-- A verdict with its grounds. -/
structure HealthReport where
  status : HealthStatus
  queueUtilization : Float
  circuit : Circuit
  /-- The results of the checks, in order. -/
  checks : List HealthCheckResult
  /-- The wall clock of the report, in milliseconds. -/
  checkedAtMs : Nat

def HealthReport.isHealthy (r : HealthReport) : Bool := r.status = .healthy

namespace HealthCheck

/-- The message about a check that broke off. -/
def panicMessage : String := "health check panicked"

/-- A call of a check, after some calls before it. -/
def call (c : HealthCheck) (earlier : List CheckCall) : CheckCall := ⟨c.name, c.probe earlier⟩

end HealthCheck

/-- The result of a call. A check that broke off has failed. -/
def CheckCall.result (call : CheckCall) : HealthCheckResult :=
  match call.ending with
  | .passed => ⟨call.name, true, none⟩
  | .failed => ⟨call.name, false, none⟩
  | .panicked => ⟨call.name, false, some HealthCheck.panicMessage⟩

/-- The checks and the fill level from which the verdict is made. -/
structure HealthEvaluator where
  /-- The fill level above which the queue is too full. -/
  degradedUtilization : Float
  /-- The checks, in the order of their registration. -/
  checks : List HealthCheck := []
  /-- The calls of all checks so far, the latest one first. -/
  calls : List CheckCall := []

namespace HealthEvaluator

/-- The names of the checks, in order. -/
def names (e : HealthEvaluator) : List String := e.checks.map HealthCheck.name

/-- Puts a check in the place of the one of its name, or at the end if there is none. -/
def place (check : HealthCheck) : List HealthCheck → List HealthCheck
  | [] => [check]
  | c :: rest => if c.name = check.name then check :: rest else c :: place check rest

def register (e : HealthEvaluator) (name : String) (probe : List CheckCall → Probe) :
    HealthEvaluator :=
  { e with checks := place { name := name, probe := probe } e.checks }

def unregister (e : HealthEvaluator) (name : String) : HealthEvaluator :=
  { e with checks := e.checks.filter (·.name ≠ name) }

/-- Whether the removal of a name removes a check. -/
def removes (e : HealthEvaluator) (name : String) : Bool :=
  (e.unregister name).checks.length ≠ e.checks.length

/-- The verdict on results, a fill level and a circuit. -/
def verdict (e : HealthEvaluator) (results : List HealthCheckResult) (utilization : Float)
    (circuit : Circuit) : HealthStatus :=
  if circuit = .opened || results.any (!·.passed) then .critical
  else if e.degradedUtilization < utilization then .degraded
  else .healthy

/-- Calls one check more, and puts its result behind those of the checks before it. -/
def callNext (s : List CheckCall × List HealthCheckResult) (c : HealthCheck) :
    List CheckCall × List HealthCheckResult :=
  (c.call s.1 :: s.1, s.2 ++ [(c.call s.1).result])

/-- Calls the checks one after the other and reports. -/
def evaluate (e : HealthEvaluator) (utilization : Float) (circuit : Circuit) (now : Instant) :
    HealthEvaluator × HealthReport :=
  let (calls, results) := e.checks.foldl callNext (e.calls, [])
  ({ e with calls := calls },
   { status := e.verdict results utilization circuit
     queueUtilization := utilization
     circuit := circuit
     checks := results
     checkedAtMs := now.wallMillis })

/-- An evaluator is shown with the names of its checks and its fill level. -/
def text (e : HealthEvaluator) : String :=
  Text.partialRecord "HealthEvaluator"
    [("checks", Text.quotedList e.names),
     ("degraded_utilization", Decimal.Layout.display.text e.degradedUtilization)]

end HealthEvaluator

end Dispatch
