import Dispatch.Breaker
import Dispatch.Json.Record
import Dispatch.Json.Value
/-!
# Stored counts of a breaker
-/

namespace Dispatch

open Json

namespace Circuit

/-- The stored form of a state of the circuit. -/
def value (c : Circuit) : Value := .str c.text

def read : Reader Circuit := .variant (all.map fun c => (c.text, c))

end Circuit

namespace BreakerStats

def value (s : BreakerStats) : Value :=
  .obj
    [("state", s.state.value),
     ("consecutive_failures", .int s.consecutiveFailures),
     ("half_open_successes", .int s.halfOpenSuccesses),
     ("times_opened", .int s.timesOpened),
     ("rejections", .int s.rejections)]

def form : RecordForm BreakerStats where
  name := "CircuitBreakerStats"
  start := ⟨.closed, 0, 0, 0, 0⟩
  isLenient := false
  fields :=
    [.of "state" Circuit.read fun c s => { s with state := c },
     .of "consecutive_failures" .nat32 fun n s => { s with consecutiveFailures := n },
     .of "half_open_successes" .nat32 fun n s => { s with halfOpenSuccesses := n },
     .of "times_opened" .nat64 fun n s => { s with timesOpened := n },
     .of "rejections" .nat64 fun n s => { s with rejections := n }]

end BreakerStats

end Dispatch
