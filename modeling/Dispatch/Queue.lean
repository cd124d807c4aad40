import Dispatch.Fault
import Dispatch.Queue.Strategy
import Dispatch.Text.Record
/-!
# The task queue

A queue holds tasks up to its capacity, by one of two strategies that can be exchanged while it is
in use. A closed queue takes no task any more; what is left in it can still be taken out.
-/

namespace Dispatch

/-- A bounded queue of tasks. -/
structure TaskQueue (β : Type) where
  strategy : Strategy β
  /-- The number of tasks held, reserved ones included. -/
  depth : Nat := 0
  /-- The most tasks that may be held. -/
  capacity : Nat
  /-- The number of shards of a sharded strategy. -/
  shards : Nat
  /-- Whether a worker may take from other shards than its own. -/
  stealing : Bool
  closed : Bool := false
  switches : Nat := 0

/-- How a wait for a task of a queue ended. -/
inductive Pop (β : Type) where
  | task (t : Task β)
  | timedOut
  /-- The queue is closed and nothing is left. -/
  | shutdown
  /-- Nothing will ever come. -/
  | endless

namespace TaskQueue

variable {β : Type}

def ofKind (kind : StrategyKind) (capacity shards : Nat) (stealing : Bool) : TaskQueue β where
  strategy := .ofKind kind (max shards 1) stealing {}
  capacity := capacity
  shards := max shards 1
  stealing := stealing

def size (q : TaskQueue β) : Nat := q.depth

/-- The tasks, in no particular order. -/
def tasks (q : TaskQueue β) : List (Task β) := q.strategy.tasks

def kind (q : TaskQueue β) : StrategyKind := q.strategy.kind

def contention (q : TaskQueue β) : Contention := q.strategy.contention

/-- The queue with other counts of lock operations and waits. -/
def withContention (q : TaskQueue β) (c : Contention) : TaskQueue β :=
  { q with strategy := q.strategy.withContention c }

/-- The fill level; a queue that may hold nothing has none. -/
def utilization (q : TaskQueue β) : Float :=
  if q.capacity = 0 then 0.0 else q.depth.toUInt64.toFloat / q.capacity.toUInt64.toFloat

def push (q : TaskQueue β) (now : Instant) (t : Task β) : TaskQueue β × Except Fault Unit :=
  if q.closed then (q, .error .shuttingDown)
  else if q.capacity ≤ q.depth then (q, .error (.queueFull q.capacity))
  else ({ q with strategy := q.strategy.push now t, depth := q.depth + 1 }, .ok ())

/-- A queue whose strategy was asked for a task. -/
def took (q : TaskQueue β) : Strategy β × Option (Task β) → TaskQueue β × Option (Task β)
  | (s, some t) => ({ q with strategy := s, depth := q.depth - 1 }, some t)
  | (s, none) => ({ q with strategy := s }, none)

/-- Takes a task that is ready at an instant for a worker. -/
def tryPop (q : TaskQueue β) (worker : Nat) (now : Instant) : TaskQueue β × Option (Task β) :=
  q.took (q.strategy.tryPop worker now)

/-- Begins a wait and takes the first look. -/
def enter (q : TaskQueue β) (worker : Nat) (now : Instant) : TaskQueue β × Option (Task β) :=
  q.took (q.strategy.enter.attempt worker now)

/-- Wakes a worker up for a further look. -/
def look (q : TaskQueue β) (worker : Nat) (now : Instant) : TaskQueue β × Option (Task β) :=
  q.took (q.strategy.rouse.attempt worker now)

/-- Puts a worker to sleep until there is work. -/
def sleep (q : TaskQueue β) : TaskQueue β := { q with strategy := q.strategy.sleep }

def popBlocking (q : TaskQueue β) (worker : Nat) (deadline : Option Instant) (now : Instant) :
    TaskQueue β × Instant × Pop β :=
  match q.strategy.popWait worker deadline now with
  | (s, now, .task t) => ({ q with strategy := s, depth := q.depth - 1 }, now, .task t)
  | (s, now, .timedOut) => ({ q with strategy := s }, now, .timedOut)
  | (s, now, .interrupted) =>
    ({ q with strategy := s }, now, if q.closed then .shutdown else .endless)
  | (s, now, .endless) => ({ q with strategy := s }, now, .endless)

/-- Whether the strategy can be exchanged for the given one. -/
def canSwitch (q : TaskQueue β) (kind : StrategyKind) : Bool := q.kind ≠ kind && !q.closed

/-- Has all waits given up. -/
def interrupt (q : TaskQueue β) : TaskQueue β := { q with strategy := q.strategy.interrupt }

/-- Moves all tasks into a new strategy, as if they were added anew, and gives their number. -/
def refill (q : TaskQueue β) (kind : StrategyKind) (now : Instant) : TaskQueue β × Nat :=
  let (old, tasks) := q.strategy.drain
  let empty := Strategy.ofKind kind q.shards q.stealing old.contention
  ({ q with
    strategy := tasks.foldl (fun s t => s.push now t) empty
    switches := q.switches + 1 }, q.depth)

/-- What an exchange compares with the depth: the number of tasks that it takes out of the old
strategy, and the number that the new one counts afterwards. -/
def refillCounts (q : TaskQueue β) (kind : StrategyKind) (now : Instant) : Nat × Nat :=
  (q.strategy.drain.2.length, (q.refill kind now).1.strategy.size)

/-- Exchanges the strategy and gives the number of tasks that were moved. A closed queue and one
that has the strategy already stay as they are. -/
def switch (q : TaskQueue β) (kind : StrategyKind) (now : Instant) : TaskQueue β × Option Nat :=
  if q.canSwitch kind then (q.interrupt.refill kind now).map id some else (q, none)

/-- The queue after tasks were taken out of its strategy. -/
def removed (q : TaskQueue β) : Strategy β × List (Task β) → TaskQueue β × List (Task β)
  | (s, tasks) => ({ q with strategy := s, depth := q.depth - tasks.length }, tasks)

def drain (q : TaskQueue β) : TaskQueue β × List (Task β) := q.removed q.strategy.drain

/-- Takes the tasks out of a queue that are not ready at an instant. -/
def drainDelayed (q : TaskQueue β) (now : Instant) : TaskQueue β × List (Task β) :=
  q.removed (q.strategy.drainDelayed now)

/-- Marks the queue as closed and has all waits given up. -/
def shut (q : TaskQueue β) : TaskQueue β := { q.interrupt with closed := true }

/-- Takes the tasks out that a close leaves no time for: those that are not ready at an instant, or
all of them if the close is not graceful. -/
def clear (q : TaskQueue β) (graceful : Bool) (now : Instant) : TaskQueue β × List (Task β) :=
  if graceful then q.drainDelayed now else q.drain

/-- Closes the queue and clears it. A queue is closed once. -/
def close (q : TaskQueue β) (graceful : Bool) (now : Instant) : TaskQueue β × List (Task β) :=
  if q.closed then (q, []) else q.shut.clear graceful now

/-- A queue is shown with its strategy and its size. -/
def text (q : TaskQueue β) : String :=
  Text.partialRecord "TaskQueue"
    [("strategy", q.kind.tag), ("depth", toString q.depth), ("capacity", toString q.capacity),
     ("closed", Text.truth q.closed)]

end TaskQueue

end Dispatch
