import Dispatch.Time.Text
/-!
# Faults and outcomes

A `Fault` is why a submission was refused, a task ended without a value, or a wait was given up.
An `Outcome` is how a task ended.
-/

namespace Dispatch

/-- Why something was not done. -/
inductive Fault where
  /-- The queue already holds as many tasks as it may. -/
  | queueFull (capacity : Nat)
  /-- The circuit breaker is open for the given time. -/
  | circuitOpen (retryAfter : Duration)
  | shuttingDown
  | cancelled
  /-- The body of the task failed, with a description of the failure. -/
  | payloadFailed (reason : String)
  /-- The time allowed for a wait has passed. -/
  | timeout
  | invalidConfig (reason : String)
  | internal (reason : String)
deriving DecidableEq, Repr

namespace Fault

def message : Fault → String
  | queueFull capacity => s!"queue full: capacity {capacity} reached"
  | circuitOpen retryAfter => "circuit open: retry after " ++ retryAfter.text
  | shuttingDown => "system is shutting down"
  | cancelled => "task cancelled"
  | payloadFailed reason => "task payload failed: " ++ reason
  | timeout => "operation timed out"
  | invalidConfig reason => "invalid configuration: " ++ reason
  | internal reason => "internal error: " ++ reason

/-- A fault is recoverable if the same request may succeed later. -/
def isRecoverable : Fault → Bool
  | queueFull _ | circuitOpen _ | timeout => true
  | _ => false

end Fault

/-- How a task ended. -/
inductive Outcome (α : Type) where
  | completed (value : α)
  /-- The task was cancelled before or while it ran. -/
  | cancelled
  | failed (fault : Fault)
deriving DecidableEq, Repr

namespace Outcome

variable {α : Type}

def isCompleted : Outcome α → Bool
  | completed _ => true
  | _ => false

def isCancelled : Outcome α → Bool
  | cancelled => true
  | _ => false

def isFailed : Outcome α → Bool
  | failed _ => true
  | _ => false

/-- The value of the task, or the fault that stands in its place. -/
def result : Outcome α → Except Fault α
  | completed value => .ok value
  | cancelled => .error .cancelled
  | failed fault => .error fault

end Outcome

end Dispatch
