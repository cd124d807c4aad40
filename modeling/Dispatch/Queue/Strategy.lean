import Dispatch.Queue.Kind
import Dispatch.Queue.Locked
import Dispatch.Queue.Sharded
/-!
# Strategies

A strategy holds the tasks of a queue in one of two ways. What callers do with it is the same for
both: add a task, take one, wait for one, interrupt the waits, and take all tasks or all delayed
ones away.
-/

namespace Dispatch

/-- The tasks of a queue, held in one of two ways. -/
inductive Strategy (β : Type) where
  /-- One backlog for all workers. -/
  | locked (q : Locked β)
  /-- A backlog for each worker. -/
  | sharded (q : Sharded β)

/-- How a wait for a task ended. -/
inductive Wait (β : Type) where
  | task (t : Task β)
  | timedOut
  /-- Waits are to be given up. -/
  | interrupted
  /-- Nothing will ever come. -/
  | endless

namespace Strategy

variable {β : Type}

def ofKind (kind : StrategyKind) (shards : Nat) (stealing : Bool) (contention : Contention) :
    Strategy β :=
  match kind with
  | .locked => .locked { contention := contention }
  | .sharded => .sharded (.ofCount shards stealing contention)

/-- Which of the two ways it is. -/
def kind : Strategy β → StrategyKind
  | locked _ => .locked
  | sharded _ => .sharded

/-- The number of shards, where there are any. -/
def shardCount : Strategy β → Option Nat
  | locked _ => none
  | sharded q => some q.shards.length

def size : Strategy β → Nat
  | locked q => q.size
  | sharded q => q.size

/-- The tasks, in no particular order. -/
def tasks : Strategy β → List (Task β)
  | locked q => q.tasks
  | sharded q => q.tasks

/-- The number of tasks that were not ready when last looked at. -/
def delayedCount : Strategy β → Nat
  | locked q => q.delayed.length
  | sharded q => q.delayedCount

def contention : Strategy β → Contention
  | locked q => q.contention
  | sharded q => q.contention

/-- The strategy with other counts of lock operations and waits. -/
def withContention (c : Contention) : Strategy β → Strategy β
  | locked q => locked { q with contention := c }
  | sharded q => sharded { q with contention := c }

/-- Whether waits are to be given up. -/
def isInterrupted : Strategy β → Bool
  | locked q => q.interrupted
  | sharded q => q.interrupted

/-- Has all waits given up, from now on. -/
def interrupt : Strategy β → Strategy β
  | locked q => locked { q with interrupted := true }
  | sharded q => sharded { q with interrupted := true }

def push (now : Instant) (t : Task β) : Strategy β → Strategy β
  | locked q => locked (q.push now t)
  | sharded q => sharded (q.push now t)

/-- Takes a task that is ready at an instant for a worker. -/
def tryPop (worker : Nat) (now : Instant) : Strategy β → Strategy β × Option (Task β)
  | locked q => (q.tryPop now).map locked id
  | sharded q => (q.tryPop worker now).map sharded id

/-- Begins a wait: the single backlog is locked once for all looks at it. -/
def enter : Strategy β → Strategy β
  | locked q => locked (q.record 1)
  | sharded q => sharded q

/-- One look of a waiting worker at the tasks. Where waits are given up, a second look makes sure
that nothing is left in any shard. -/
def attempt (worker : Nat) (now : Instant) : Strategy β → Strategy β × Option (Task β)
  | locked q => (q.attempt now).map locked id
  | sharded q =>
    match q.tryPop worker now with
    | (q, some t) => (sharded q, some t)
    | (q, none) => if q.interrupted then (q.tryPop worker now).map sharded id else (sharded q, none)

/-- Puts a worker to sleep until there is work. -/
def sleep : Strategy β → Strategy β
  | locked q => locked q
  | sharded q => sharded { q with sleepers := q.sleepers + 1 }

def rouse : Strategy β → Strategy β
  | locked q => locked q
  | sharded q => sharded { q with sleepers := q.sleepers - 1 }

/-- The instant at which the next delayed task gets ready. -/
def nextReadyAt : Strategy β → Option Instant
  | locked q => q.nextReadyAt
  | sharded q => q.nextReadyAt

def drain : Strategy β → Strategy β × List (Task β)
  | locked q => q.drain.map locked id
  | sharded q => q.drain.map sharded id

/-- Takes the tasks that are not ready at an instant. -/
def drainDelayed (now : Instant) : Strategy β → Strategy β × List (Task β)
  | locked q => (q.drainDelayed now).map locked id
  | sharded q => (q.drainDelayed now).map sharded id

/-- Looks for a task, and sleeps until the deadline or the next ready instant where there is none,
for at most `looks` looks. Gives the instant at which the wait ended. -/
def waitLooks (worker : Nat) (deadline : Option Instant) :
    Nat → Instant → Strategy β → Strategy β × Instant × Wait β
  | 0, now, s => (s, now, .endless)
  | looks + 1, now, s =>
    match s.attempt worker now with
    | (s, some t) => (s, now, .task t)
    | (s, none) =>
      if s.isInterrupted then (s, now, .interrupted)
      else if deadline.any (· ≤ now) then (s, now, .timedOut)
      else
        match Instant.earliest? deadline s.nextReadyAt with
        | none => (s, now, .endless)
        | some wakeAt => waitLooks worker deadline looks (max now wakeAt) s.sleep.rouse

/-- Waits for a task. Every look but the last one ends with a delayed task getting ready, so there
are at most two more looks than delayed tasks. -/
def popWait (worker : Nat) (deadline : Option Instant) (now : Instant) (s : Strategy β) :
    Strategy β × Instant × Wait β :=
  waitLooks worker deadline (s.delayedCount + 2) now s.enter

end Strategy

end Dispatch
