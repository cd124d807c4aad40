import Dispatch.Health
import Dispatch.Breaker.Stored
import Dispatch.Json.Record
import Dispatch.Json.Value
/-!
# Stored health reports
-/

namespace Dispatch

open Json

namespace HealthStatus

def value (s : HealthStatus) : Value := .str s.text

def read : Reader HealthStatus := .variant (all.map fun s => (s.text, s))

end HealthStatus

namespace HealthCheckResult

/-- The stored form of the result of a check. -/
def value (r : HealthCheckResult) : Value :=
  .obj
    [("name", .str r.name),
     ("passed", .bool r.passed),
     ("error", match r.error with
      | some s => .str s
      | none => .null)]

/-- How the result of a check is stored. -/
def form : RecordForm HealthCheckResult where
  name := "HealthCheckResult"
  start := ⟨"", false, none⟩
  isLenient := false
  fields :=
    [.of "name" .string fun s r => { r with name := s },
     .of "passed" .boolean fun b r => { r with passed := b },
     .optional "error" .string fun e r => { r with error := e }]

end HealthCheckResult

namespace HealthReport

def value (r : HealthReport) : Value :=
  .obj
    [("status", r.status.value),
     ("queue_utilization", .float r.queueUtilization),
     ("circuit_state", r.circuit.value),
     ("checks", .arr (r.checks.map HealthCheckResult.value)),
     ("checked_at_ms", .int r.checkedAtMs)]

def form : RecordForm HealthReport where
  name := "HealthReport"
  start := ⟨.healthy, 0.0, .closed, [], 0⟩
  isLenient := false
  fields :=
    [.of "status" HealthStatus.read fun s r => { r with status := s },
     .of "queue_utilization" .float fun x r => { r with queueUtilization := x },
     .of "circuit_state" Circuit.read fun c r => { r with circuit := c },
     .of "checks" (.list HealthCheckResult.form.read) fun l r => { r with checks := l },
     .of "checked_at_ms" .nat128 fun n r => { r with checkedAtMs := n }]

end HealthReport

end Dispatch
