import Dispatch.Breaker.Stored
import Dispatch.Config.Stored
import Dispatch.Pool
/-!
# Stored numbers of a pool
-/

namespace Dispatch.PoolStats

open Json

def value (s : PoolStats) : Value :=
  .obj
    [("worker_count", .int s.workerCount),
     ("active_tasks", .int s.active),
     ("queued_tasks", .int s.queued),
     ("outstanding_tasks", .int s.outstanding),
     ("strategy", s.strategy.value),
     ("strategy_switches", .int s.switches),
     ("circuit_state", s.circuit.value),
     ("submitted_tasks", .int s.submitted),
     ("completed_tasks", .int s.completed),
     ("failed_tasks", .int s.failed),
     ("cancelled_tasks", .int s.cancelled)]

end Dispatch.PoolStats
