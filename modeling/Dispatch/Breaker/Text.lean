import Dispatch.Breaker
import Dispatch.Config.Text
import Dispatch.Text.Record
/-!
# The text of a breaker
-/

namespace Dispatch

/-- A breaker is shown with its settings and the state of its circuit. -/
def Breaker.text (b : Breaker) : String :=
  Text.partialRecord "CircuitBreaker" [("config", b.config.text), ("state", b.circuit.tag)]

end Dispatch
