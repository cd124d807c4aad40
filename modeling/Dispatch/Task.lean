import Dispatch.Priority
import Dispatch.Time
/-!
# Tasks and their orders

A task waits until its ready instant and then runs by urgency. Of two ready tasks the one with the
higher priority goes first, then the one that was ready earlier, then the one with the smaller
number. Tasks that are not ready are ordered by their ready instants.
-/

namespace Dispatch

/-- A queued task with a body of type `β`. -/
structure Task (β : Type) where
  id : Nat
  priority : Priority
  /-- The instant before which the task must not start. -/
  readyAt : Instant
  body : β
deriving DecidableEq, Repr

namespace Task

variable {β : Type}

/-- Whether the task may start at an instant. -/
def isReady (now : Instant) (t : Task β) : Bool := t.readyAt ≤ now

/-- Whether `a` goes before `b` if both are ready. -/
def isMoreUrgent (a b : Task β) : Bool :=
  b.priority.level < a.priority.level ||
    (a.priority.level = b.priority.level &&
      (a.readyAt < b.readyAt || (a.readyAt = b.readyAt && a.id < b.id)))

/-- Whether `a` gets ready before `b`. -/
def isDueBefore (a b : Task β) : Bool :=
  a.readyAt < b.readyAt || (a.readyAt = b.readyAt && a.id < b.id)

/-- Puts a task into a list, in front of the first one that it goes before. -/
def insertBy (before : Task β → Task β → Bool) (t : Task β) : List (Task β) → List (Task β)
  | [] => [t]
  | x :: rest => if before t x then t :: x :: rest else x :: insertBy before t rest

/-- Puts a task into a list that is ordered by urgency. -/
def insertReady : Task β → List (Task β) → List (Task β) := insertBy isMoreUrgent

/-- Puts a task into a list that is ordered by ready instants. -/
def insertDelayed : Task β → List (Task β) → List (Task β) := insertBy isDueBefore

end Task

end Dispatch
