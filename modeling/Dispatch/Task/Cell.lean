import Dispatch.Task.Body
/-!
# Task cells

A cell holds a body until it is run or abandoned, and then the outcome until it is delivered. A body
runs at most once: a second run is an internal fault.
-/

namespace Dispatch

/-- What a worker learns about a task that it has ended. -/
inductive JobStatus where
  | completed
  | failed (reason : String)
  | cancelled
  /-- The task was refused before its body ran. -/
  | rejected
deriving DecidableEq, Repr

/-- The status that belongs to an outcome. -/
def JobStatus.ofOutcome {α : Type} : Outcome α → JobStatus
  | .completed _ => .completed
  | .cancelled => .cancelled
  | .failed (.payloadFailed reason) => .failed reason
  | .failed _ => .rejected

/-- The outcome of a task that is given up for a reason. -/
def Outcome.ofFault {α : Type} : Fault → Outcome α
  | .cancelled => .cancelled
  | fault => .failed fault

/-- A body, or what came of it. -/
structure Cell (α : Type) where
  /-- How the body ends, as long as it can be run. -/
  body : Option (Ending α)
  /-- The outcome, as soon as there is one. -/
  outcome : Option (Outcome α) := none
  runs : Nat := 0

namespace Cell

variable {α : Type}

/-- A cell with a body that can be run. -/
def ofEnding (e : Ending α) : Cell α := { body := some e }

/-- Stores an outcome, and tells its status. -/
def finish (c : Cell α) (o : Outcome α) : Cell α × JobStatus :=
  ({ c with outcome := some o }, .ofOutcome o)

def abandon (c : Cell α) (reason : Fault) : Cell α × JobStatus :=
  { c with body := none }.finish (.ofFault reason)

/-- The fault of a second run. -/
def consumed : Fault := .internal "task body already consumed"

def run (c : Cell α) : Cell α × JobStatus :=
  match c.body with
  | none => c.abandon consumed
  | some e => { c with body := none, runs := c.runs + 1 }.finish e.outcome

/-- What is sent to the handle of the task, if anything. -/
def delivered (c : Cell α) : Option (Outcome α) := c.outcome

/-- Runs the body once, and tells whether it returned a value. -/
def execute (c : Cell α) : Cell α × Bool :=
  let (c, status) := c.run
  (c, status = .completed)

end Cell

end Dispatch
