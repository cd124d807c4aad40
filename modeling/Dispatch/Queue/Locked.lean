import Dispatch.Queue.Contention
import Dispatch.Task
/-!
# One backlog behind a lock

All workers share one list of ready tasks and one of delayed tasks. Every operation takes the lock
once and first moves the delayed tasks that are due into the ready ones.
-/

namespace Dispatch

/-- A backlog for all workers. -/
structure Locked (β : Type) where
  /-- Tasks that are ready, the most urgent first. -/
  ready : List (Task β) := []
  /-- Tasks that were not ready when last looked at, the next one first. -/
  delayed : List (Task β) := []
  /-- Whether waits are to be given up. -/
  interrupted : Bool := false
  contention : Contention := {}

namespace Locked

variable {β : Type}

def record (q : Locked β) (n : Nat) : Locked β :=
  { q with contention := q.contention.record n }

def size (q : Locked β) : Nat := q.ready.length + q.delayed.length

/-- The tasks, in no particular order. -/
def tasks (q : Locked β) : List (Task β) := q.ready ++ q.delayed

def push (q : Locked β) (now : Instant) (t : Task β) : Locked β :=
  let q := q.record 1
  if t.isReady now then { q with ready := t.insertReady q.ready }
  else { q with delayed := t.insertDelayed q.delayed }

/-- Moves the delayed tasks that are due to the ready ones. -/
def promote (q : Locked β) (now : Instant) : Locked β :=
  { q with
    ready := (q.delayed.takeWhile (·.isReady now)).foldl (fun ready t => t.insertReady ready) q.ready
    delayed := q.delayed.dropWhile (·.isReady now) }

/-- Takes the most urgent ready task. -/
def takeReady (q : Locked β) : Locked β × Option (Task β) :=
  match q.ready with
  | [] => (q, none)
  | t :: rest => ({ q with ready := rest }, some t)

/-- Takes the most urgent task that is ready at an instant, with the lock held. -/
def attempt (q : Locked β) (now : Instant) : Locked β × Option (Task β) :=
  (q.promote now).takeReady

/-- Takes the lock and then the most urgent task that is ready at an instant. -/
def tryPop (q : Locked β) (now : Instant) : Locked β × Option (Task β) :=
  (q.record 1).attempt now

/-- The instant at which the next delayed task gets ready. -/
def nextReadyAt (q : Locked β) : Option Instant := q.delayed.head?.map Task.readyAt

def drain (q : Locked β) : Locked β × List (Task β) :=
  ({ q with ready := [], delayed := [] }, q.tasks)

/-- Takes the tasks that are not ready at an instant. -/
def drainDelayed (q : Locked β) (now : Instant) : Locked β × List (Task β) :=
  let q := q.promote now
  ({ q with delayed := [] }, q.delayed)

end Locked

end Dispatch
