import Dispatch.Queue.Contention
import Dispatch.Task
/-!
# A backlog for each worker

Ready tasks are spread over shards in turn; a worker takes from its home shard first and, where
stealing is allowed or the queue is interrupted, from the other shards in cyclic order after it.
Delayed tasks are kept together until they are due. The sizes of all parts are counted beside the
parts, so that a look at an empty part takes no lock.
-/

namespace Dispatch

/-- The ready tasks of one shard. -/
structure Shard (β : Type) where
  /-- The tasks, the most urgent first. -/
  tasks : List (Task β) := []
  size : Nat := 0

/-- A backlog for each worker. -/
structure Sharded (β : Type) where
  shards : List (Shard β)
  /-- Tasks that were not ready when last looked at, the next one first. -/
  delayed : List (Task β) := []
  delayedCount : Nat := 0
  readyCount : Nat := 0
  /-- How many tasks were spread over the shards. -/
  cursor : Nat := 0
  /-- Whether a worker may take from other shards than its own. -/
  stealing : Bool
  /-- How many workers sleep until there is work. -/
  sleepers : Nat := 0
  /-- Whether waits are to be given up. -/
  interrupted : Bool := false
  contention : Contention := {}

namespace Sharded

variable {β : Type}

/-- An empty backlog of `n` shards, and at least one. -/
def ofCount (n : Nat) (stealing : Bool) (contention : Contention) : Sharded β where
  shards := List.replicate (max n 1) {}
  stealing := stealing
  contention := contention

def record (q : Sharded β) (n : Nat) : Sharded β :=
  { q with contention := q.contention.record n }

def size (q : Sharded β) : Nat := q.readyCount + q.delayedCount

/-- The tasks, in no particular order. -/
def tasks (q : Sharded β) : List (Task β) := q.shards.flatMap Shard.tasks ++ q.delayed

/-- The shard from which a worker takes first. -/
def home (q : Sharded β) (worker : Nat) : Nat := worker % q.shards.length

/-- Adds a ready task to a shard. -/
def pushShard (q : Sharded β) (index : Nat) (t : Task β) : Sharded β :=
  let q := q.record 1
  { q with
    shards := q.shards.modify index fun s =>
      { tasks := t.insertReady s.tasks, size := s.size + 1 }
    readyCount := q.readyCount + 1 }

/-- Adds a ready task to the shard whose turn it is. -/
def pushReady (q : Sharded β) (t : Task β) : Sharded β :=
  { q.pushShard (q.cursor % q.shards.length) t with cursor := q.cursor + 1 }

def push (q : Sharded β) (now : Instant) (t : Task β) : Sharded β :=
  if t.isReady now then q.pushReady t
  else
    let q := q.record 1
    { q with delayed := t.insertDelayed q.delayed, delayedCount := q.delayedCount + 1 }

/-- Takes the most urgent task of a shard. -/
def popShard (q : Sharded β) (index : Nat) : Sharded β × Option (Task β) :=
  match q.shards[index]? with
  | none => (q, none)
  | some shard =>
    if shard.size = 0 then (q, none)
    else
      match shard.tasks with
      | [] => (q.record 1, none)
      | t :: rest =>
        let q := q.record 1
        ({ q with
          shards := q.shards.set index { tasks := rest, size := shard.size - 1 }
          readyCount := q.readyCount - 1 }, some t)

/-- Takes the delayed tasks that are due out of the delayed ones. -/
def takeDue (q : Sharded β) (now : Instant) : Sharded β × List (Task β) :=
  let due := q.delayed.takeWhile (·.isReady now)
  ({ q with
    delayed := q.delayed.dropWhile (·.isReady now)
    delayedCount := q.delayedCount - due.length }, due)

/-- Moves the delayed tasks that are due into shards: spread in turn, or all into the home shard of
the worker if the queue is interrupted. -/
def promote (q : Sharded β) (worker : Nat) (now : Instant) : Sharded β :=
  if q.delayedCount = 0 then q
  else if q.interrupted then
    let (q, due) := (q.record 1).takeDue now
    due.foldl (fun q t => q.pushShard (q.home worker) t) q
  else
    let (q, due) := q.takeDue now
    due.foldl pushReady q

/-- Takes the most urgent task of the first of these shards that has one. -/
def popFirst (q : Sharded β) : List Nat → Sharded β × Option (Task β)
  | [] => (q, none)
  | index :: rest =>
    match q.popShard index with
    | (q, some t) => (q, some t)
    | (q, none) => popFirst q rest

/-- The other shards in cyclic order after the home shard of a worker. -/
def others (q : Sharded β) (worker : Nat) : List Nat :=
  (List.range (q.shards.length - 1)).map fun i => (q.home worker + (i + 1)) % q.shards.length

/-- The shards from which a worker may take, in order. -/
def route (q : Sharded β) (worker : Nat) : List Nat :=
  q.home worker :: if q.stealing || q.interrupted then q.others worker else []

/-- Takes a task that is ready at an instant for a worker. -/
def tryPop (q : Sharded β) (worker : Nat) (now : Instant) : Sharded β × Option (Task β) :=
  let q := q.promote worker now
  q.popFirst (q.route worker)

/-- The instant at which the next delayed task gets ready. -/
def nextReadyAt (q : Sharded β) : Option Instant :=
  if q.delayedCount = 0 then none else q.delayed.head?.map Task.readyAt

def drain (q : Sharded β) : Sharded β × List (Task β) :=
  ({ q with
    shards := q.shards.map fun s => { tasks := [], size := s.size - s.tasks.length }
    readyCount := q.readyCount - sumOf (·.tasks.length) q.shards
    delayed := []
    delayedCount := q.delayedCount - q.delayed.length }, q.tasks)

/-- Takes the tasks that are not ready at an instant. -/
def drainDelayed (q : Sharded β) (now : Instant) : Sharded β × List (Task β) :=
  let future := q.delayed.filter fun t => !t.isReady now
  ({ q with
    delayed := q.delayed.filter (·.isReady now)
    delayedCount := q.delayedCount - future.length }, future)

end Sharded

end Dispatch
