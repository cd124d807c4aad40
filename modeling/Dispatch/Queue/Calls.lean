import Dispatch.Queue.Strategy
/-!
# Calls to sleeping workers

A worker that finds no task sleeps, at the longest until the next delayed task gets ready. Whatever is
done to the tasks is followed by calls to those that sleep, and by no more of them than needed: a task
that any worker can take is announced to one worker only.

A look at shards has parts that other workers may come between. The delayed tasks that are due are taken
out together, put into shards one by one, and each of them is announced; while they are in hand nobody else
sees them. A worker that finds the delayed tasks being used goes on to the shards without them, and a task
that is to be added goes past the shards that are being used.
-/

namespace Dispatch

/-- A call to the workers that sleep at a queue. -/
inductive Call where
  /-- It wakes one of them. -/
  | one
  /-- It wakes all of them. -/
  | all
deriving DecidableEq, Repr

namespace Sharded

variable {β : Type}

/-- The call that announces a task in a shard. Without stealing it may be any worker's task, so all of
them are called. -/
def call (q : Sharded β) : Call := if q.stealing then .one else .all

/-- The shards with another one of them to get the next task. -/
def passTo (q : Sharded β) (cursor : Nat) : Sharded β := { q with cursor := cursor }

/-- Puts the delayed task at a place into a shard. -/
def deal (q : Sharded β) (place : Nat) : Sharded β :=
  match q.delayed[place]? with
  | none => q
  | some t =>
    { q with
      delayed := q.delayed.eraseIdx place
      delayedCount := q.delayedCount - 1 }.pushReady t

/-- What is seen while the first ones of the delayed tasks are in hand. -/
def without (q : Sharded β) (inHand : Nat) : Sharded β :=
  { q with delayed := q.delayed.drop inHand, delayedCount := q.delayedCount - inHand }

end Sharded

namespace Strategy

variable {β : Type}

/-- The calls that announce an added task. A delayed task is announced to all workers that have shards,
since any of them may sleep for longer. -/
def callsOfPush (now : Instant) (t : Task β) : Strategy β → List Call
  | locked _ => [.one]
  | sharded q => if t.isReady now then [q.call] else [.all]

/-- The calls that come of a look for a task: one if the look leaves a ready task in the single backlog,
and one for each task that it moves into a shard, unless waits are to be given up anyway. -/
def callsOfLook (now : Instant) : Strategy β → List Call
  | locked q => if (q.attempt now).1.ready.isEmpty then [] else [.one]
  | sharded q => if q.interrupted then [] else (q.takeDue now).2.map fun _ => q.call

/-- What is seen while the first ones of the delayed tasks are in hand. A single backlog is never seen
like that, since it is locked throughout a look. -/
def without (inHand : Nat) : Strategy β → Strategy β
  | locked q => locked q
  | sharded q => sharded (q.without inHand)

/-- A look of a worker at the shards only. -/
def glance (worker : Nat) : Strategy β → Strategy β × Option (Task β)
  | locked q => (locked q, none)
  | sharded q => (q.popFirst (q.route worker)).map sharded id

/-- Whether there is a reason for a worker not to fall asleep: a task that it may take, or a delayed one
that is due. -/
def hasWorkFor (worker : Nat) (now : Instant) : Strategy β → Bool
  | locked q => !q.ready.isEmpty || q.nextReadyAt.any (· ≤ now)
  | sharded q =>
    (if q.stealing || q.interrupted then 0 < q.readyCount
      else (q.shards[q.home worker]?).any (0 < ·.size)) || q.nextReadyAt.any (· ≤ now)

end Strategy

end Dispatch
