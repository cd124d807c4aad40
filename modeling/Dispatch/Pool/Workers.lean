import Dispatch.Pool
/-!
# The workers of a pool

Each worker in turn does what it can do at the present instant. This is repeated until no worker can
do anything more; then all of them wait, sleep or have stopped. When the waits are to be given up,
because the queue is closed or its strategy is exchanged, each waiting worker takes one last look.
-/

namespace Dispatch

namespace Worker

variable {α : Type}

/-- Whether a worker sleeps until there is a task for it. -/
def isWaiting : Worker α → Bool
  | waiting => true
  | _ => false

/-- Whether a worker has come to its end. -/
def isStopped : Worker α → Bool
  | stopped => true
  | _ => false

/-- When the body of a worker goes on, if it runs one. -/
def wakeAt? : Worker α → Option Instant
  | busy run => some run.wakeAt
  | _ => none

/-- For how long the body of a worker lets time pass at most, from an instant on. -/
def timeNeeded (now : Instant) : Worker α → Duration
  | busy run => run.wakeAt.since now + Action.total run.rest
  | _ => 0

/-- How much a worker can do at an instant without taking a task. -/
def pending (now : Instant) : Worker α → Nat
  | seeking => 1
  | busy run => if run.wakeAt ≤ now then 2 else 0
  | _ => 0

end Worker

namespace Pool

variable {α : Type}

/-- What a worker is at after a look at the queue: it takes on the task that it got; without one it
stops if the queue is closed, looks anew if the look was a last one, and sleeps otherwise. -/
def afterLook (p : Pool α) (index : Nat) :
    TaskQueue (Job α) × Option (Task (Job α)) → Pool α × Worker α
  | (q, some t) => { p with queue := q }.takeOn t
  | (q, none) =>
    if q.closed then
      ({ p with queue := q }.note .info ("worker " ++ toString index ++ " stopped"), .stopped)
    else if q.strategy.isInterrupted then ({ p with queue := q }, .seeking)
    else ({ p with queue := q.sleep }, .waiting)

/-- What a worker can do at the present instant. -/
def turn (p : Pool α) (index : Nat) : Worker α → Pool α × Worker α
  | .seeking => p.afterLook index (p.queue.enter index p.clock)
  | .waiting => p.afterLook index (p.queue.look index p.clock)
  | .busy run => if run.wakeAt ≤ p.clock then p.proceed run.task run.rest else (p, .busy run)
  | .stopped => (p, .stopped)

def turnAt (p : Pool α) (index : Nat) : Pool α :=
  match p.workers[index]? with
  | none => p
  | some w =>
    let (p, w) := p.turn index w
    { p with workers := p.workers.set index w }

def sweep (p : Pool α) : Pool α := (List.range p.workers.length).foldl turnAt p

/-- How much is left to do at the present instant, as a bound on the turns that change something. -/
def pending (p : Pool α) : Nat :=
  3 * p.queue.size + p.queue.strategy.delayedCount +
    sumOf (Worker.pending p.clock) p.workers

/-- Gives turns until no worker can do anything more. -/
def settle (p : Pool α) : Pool α :=
  let q := p.sweep
  if q.pending < p.pending then q.settle else q
termination_by p.pending

/-- Gives every waiting worker one last look at the queue. -/
def rouse (p : Pool α) : Pool α :=
  (List.range p.workers.length).foldl
    (fun p index => if (p.workers[index]?).any Worker.isWaiting then p.turnAt index else p) p

/-- Closes the queue and cancels the tasks that the close leaves no time for. -/
def closeQueue (p : Pool α) (graceful : Bool) : Pool α :=
  if p.queue.closed then p
  else
    let p := { p with queue := p.queue.shut }.rouse
    let (q, removed) := p.queue.clear graceful p.clock
    { p with queue := q }.cancelRemoved removed

/-- Admits no task any more and closes the queue. -/
def close (p : Pool α) (graceful : Bool) : Pool α :=
  if p.accepting then { p with accepting := false }.closeQueue graceful else p

/-- Cancels what the workers have left in the queue when all of them have stopped. -/
def join (p : Pool α) : Pool α :=
  if p.joined then p
  else
    let (q, stranded) := p.queue.drain
    { p with queue := q, joined := true }.cancelRemoved stranded

/-- For how long the bodies at hand let time pass at most, if they run one after the other. -/
def timeNeeded (p : Pool α) : Duration :=
  sumOf (fun t => Action.total t.body.body.actions) p.queue.tasks +
    sumOf (Worker.timeNeeded p.clock) p.workers

def isStopped (p : Pool α) : Bool := p.workers.all Worker.isStopped

/-- Closes the pool without waiting for the workers, and says so if it was not closed before. -/
def abandon (p : Pool α) : Pool α :=
  if p.accepting then
    (p.close false).note .debug "worker pool dropped without shutdown; workers detached"
  else p

/-- Exchanges the strategy of the queue and gives the number of tasks that were moved. -/
def switch (p : Pool α) (kind : StrategyKind) : Pool α × Option Nat :=
  if p.queue.canSwitch kind then
    let p := { p with queue := p.queue.interrupt }.rouse
    let (q, moved) := p.queue.refill kind p.clock
    ({ p with queue := q }, some moved)
  else (p, none)

/-- The next instant at which a worker can do something by itself: a sleep ends, or a delayed task
gets ready while a worker waits. -/
def nextWake (p : Pool α) : Option Instant :=
  let sleeps := (p.workers.filterMap Worker.wakeAt?).foldl
    (fun wake t => Instant.earliest? wake (some t)) none
  if p.workers.any Worker.isWaiting then Instant.earliest? sleeps p.queue.strategy.nextReadyAt
  else sleeps

end Pool

end Dispatch
