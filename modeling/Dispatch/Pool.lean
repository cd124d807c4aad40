import Dispatch.Breaker
import Dispatch.Metrics
import Dispatch.Queue
import Dispatch.Task.Cell
/-!
# The worker pool

A pool takes tasks into its queue and has workers run them. This module holds the state of a pool,
the admission of tasks, and what a worker does with a task that it has taken. A task is outstanding
from its admission until it has ended, and active while a worker has it; its outcome is delivered
once, when it ends. It comes in at the handle of the task if nobody has dropped the handle by then.
-/

namespace Dispatch

/-- What a task of a pool carries. -/
structure Job (α : Type) where
  /-- The name under which the start of the body is noted. -/
  label : String
  /-- The token by which the task can be cancelled, if it has one. -/
  token : Option Token
  body : Body α

/-- A body that is under way. -/
structure Run (α : Type) where
  task : Task (Job α)
  /-- What is left to do after the present sleep. -/
  rest : List Action
  wakeAt : Instant

/-- A task that a worker has taken out of the queue. -/
structure Take (α : Type) where
  task : Task (Job α)
  takenAt : Instant
  started : Bool

/-- What a worker is at. -/
inductive Worker (α : Type) where
  /-- It is about to look for a task. -/
  | seeking
  /-- It sleeps until there is a task for it. -/
  | waiting
  | busy (run : Run α)
  | stopped

/-- Counts admitted tasks until they have ended. -/
structure Tracker where
  /-- Admitted tasks that have not ended. -/
  outstanding : Nat := 0
  /-- How often an end was noted while nothing was outstanding. -/
  strayEnds : Nat := 0
deriving DecidableEq, Repr

namespace Tracker

/-- Counts a task that is about to be admitted. -/
def enter (t : Tracker) : Tracker := { t with outstanding := t.outstanding + 1 }

/-- Notes that a task has ended, or was not admitted after all. The count stays at zero. -/
def leave (t : Tracker) : Tracker where
  outstanding := t.outstanding - 1
  strayEnds := if t.outstanding = 0 then t.strayEnds + 1 else t.strayEnds

end Tracker

/-- The cell of a job whose body can be run. -/
def Job.cell {α : Type} (j : Job α) : Cell α := .ofEnding j.body.ending

/-- The cell of a job whose body ends as soon as it finds its token cancelled. -/
def Cell.gaveUp {α : Type} : Cell α := .ofEnding (.failure .gaveUp)

/-- The channels from tasks to their handles. -/
structure Channels (α : Type) where
  /-- The outcomes that have come in, by the numbers of their tasks, the newest first. -/
  arrived : List (Nat × Outcome α) := []
  /-- The numbers of the tasks whose handles have been dropped. -/
  dropped : List Nat := []

namespace Channels

variable {α : Type}

/-- Sends an outcome to the handle of a task, and tells whether the handle is still there. -/
def send (c : Channels α) (id : Nat) (o : Outcome α) : Channels α × Bool :=
  if c.dropped.contains id then (c, false)
  else ({ c with arrived := (id, o) :: c.arrived }, true)

def drop (c : Channels α) (id : Nat) : Channels α := { c with dropped := id :: c.dropped }

end Channels

/-- A pool of workers with a common queue. -/
structure Pool (α : Type) where
  clock : Instant
  /-- The tasks that no worker has taken yet. -/
  queue : TaskQueue (Job α)
  breaker : Breaker
  metrics : Metrics
  log : LogBook
  tokens : Cancellations := {}
  workers : List (Worker α)
  tracker : Tracker := {}
  /-- Tasks that workers have taken and not ended. -/
  active : Nat := 0
  accepting : Bool := true
  /-- Whether the end of all workers has been waited for. -/
  joined : Bool := false
  nextId : Nat := 1
  /-- The tasks that were submitted, with the answers, the newest first. -/
  answers : List (Task (Job α) × Except Fault Unit) := []
  /-- The outcomes that were delivered, by the numbers of their tasks, the newest first. -/
  delivered : List (Nat × Outcome α) := []
  /-- What workers have taken out of the queue, the newest first. -/
  takes : List (Take α) := []
  channels : Channels α := {}

/-- The numbers that describe a pool at one instant. -/
structure PoolStats where
  workerCount : Nat
  /-- Tasks that workers have taken and not ended. -/
  active : Nat
  queued : Nat
  /-- Admitted tasks that have not ended. -/
  outstanding : Nat
  strategy : StrategyKind
  switches : Nat
  circuit : Circuit
  submitted : Nat
  completed : Nat
  failed : Nat
  cancelled : Nat
deriving DecidableEq, Repr

/-- The means to learn the outcome of a task, which can be taken once. -/
structure Handle where
  id : Nat
  /-- The token of the task, if it has one. -/
  token : Option Token
  taken : Bool := false
deriving DecidableEq, Repr

/-- What is asked of a pool when a task is submitted. -/
structure Submission (α : Type) where
  /-- The name under which the start of the body is noted. -/
  label : String
  priority : Priority
  /-- The token of the task, if it has one. -/
  token : Option Token := none
  body : Body α

namespace Pool

variable {α : Type}

def note (p : Pool α) (level : Level) (message : String) : Pool α :=
  { p with log := p.log.log p.clock level message }

/-- Exchanges the breaker for one that it has become, and logs a change of the circuit. -/
def withBreaker (p : Pool α) (b : Breaker) : Pool α :=
  { p with breaker := b, log := p.log.logChange p.clock p.breaker.circuit b.circuit }

/-- Asks the breaker to let work through. -/
def acquire (p : Pool α) : Pool α × Except Fault Unit :=
  let (b, answer) := p.breaker.acquire p.clock
  (p.withBreaker b, answer)

def reject (p : Pool α) : Pool α := { p with metrics := p.metrics.recordRejected }

/-- Admitted tasks that have not ended. -/
def outstanding (p : Pool α) : Nat := p.tracker.outstanding

/-- Puts a task into the queue, or counts it as refused. It is outstanding before the queue answers,
and no longer so if the queue refuses it. -/
def enqueue (p : Pool α) (t : Task (Job α)) : Pool α × Except Fault Unit :=
  let p := { p with tracker := p.tracker.enter }
  match p.queue.push p.clock t with
  | (q, .error fault) =>
    ({ p with queue := q, tracker := p.tracker.leave }.reject, .error fault)
  | (q, .ok ()) => ({ p with queue := q, metrics := p.metrics.recordSubmitted }, .ok ())

/-- Admits a task if the pool is accepting, the circuit lets it through and the queue has room. -/
def accept (p : Pool α) (t : Task (Job α)) : Pool α × Except Fault Unit :=
  if p.accepting then
    match p.acquire with
    | (p, .error fault) => (p.reject, .error fault)
    | (p, .ok ()) => p.enqueue t
  else (p.reject, .error .shuttingDown)

/-- Submits a task that gets ready at an instant. A refused task uses up a number too. -/
def submitAt (p : Pool α) (readyAt : Instant) (s : Submission α) : Pool α × Except Fault Handle :=
  let task : Task (Job α) := ⟨p.nextId, s.priority, readyAt, ⟨s.label, s.token, s.body⟩⟩
  let (p, answer) := { p with nextId := p.nextId + 1 }.accept task
  ({ p with answers := (task, answer) :: p.answers },
    answer.map fun _ => { id := task.id, token := s.token })

/-- Submits a task that is ready now. -/
def submit (p : Pool α) (s : Submission α) : Pool α × Except Fault Handle := p.submitAt p.clock s

/-- Delivers what the cell of a task holds, whether its handle is still there or not; the task is no
longer outstanding. -/
def deliver (p : Pool α) (id : Nat) (c : Cell α) : Pool α :=
  { p with
    delivered := (c.delivered.map (id, ·)).toList ++ p.delivered
    tracker := p.tracker.leave
    channels := c.delivered.elim p.channels fun o => (p.channels.send id o).1 }

/-- Counts how a task ended, and tells the breaker about bodies that succeeded or failed. -/
def account (p : Pool α) (t : Task (Job α)) : JobStatus → Pool α
  | .completed =>
    { p with metrics := p.metrics.recordCompleted (p.clock.since t.readyAt) }.withBreaker
      p.breaker.onSuccess
  | .failed reason =>
    let p := { p with metrics := p.metrics.recordFailed }.withBreaker (p.breaker.onFailure p.clock)
    p.note .warn ("task " ++ toString t.id ++ " failed: " ++ reason)
  | .cancelled => { p with metrics := p.metrics.recordCancelled }
  | .rejected => { p with metrics := p.metrics.recordFailed }

/-- Ends a task that a worker has taken, by what became of its cell. -/
def finish (p : Pool α) (t : Task (Job α)) (ended : Cell α × JobStatus) : Pool α :=
  let p := (p.account t ended.2).deliver t.id ended.1
  { p with active := p.active - 1 }

/-- Goes on with the body of a task; gives what the worker is at afterwards. -/
def proceed (p : Pool α) (t : Task (Job α)) (actions : List Action) : Pool α × Worker α :=
  match Progress.ofActions p.clock t.body.token actions p.tokens with
  | (c, .sleeping wakeAt rest) => ({ p with tokens := c }, .busy ⟨t, rest, wakeAt⟩)
  | (c, .done) => ({ p with tokens := c }.finish t t.body.cell.run, .seeking)
  | (c, .gaveUp) => ({ p with tokens := c }.finish t Cell.gaveUp.run, .seeking)

/-- Notes that a worker takes a task. -/
def noteTake (p : Pool α) (t : Task (Job α)) (started : Bool) : Pool α :=
  { p with takes := ⟨t, p.clock, started⟩ :: p.takes }

/-- Takes on a task: it ends at once if it is cancelled or the circuit refuses it, and else its body
is started. -/
def takeOn (p : Pool α) (t : Task (Job α)) : Pool α × Worker α :=
  let p := { p with active := p.active + 1 }
  if p.tokens.asksToStop t.body.token then
    ((p.noteTake t false).finish t (t.body.cell.abandon .cancelled), .seeking)
  else
    match p.acquire with
    | (p, .error fault) => ((p.noteTake t false).finish t (t.body.cell.abandon fault), .seeking)
    | (p, .ok ()) => (p.noteTake t true).proceed t t.body.body.actions

/-- The labels of the bodies that were started, with the instants of their starts, in order. -/
def starts (p : Pool α) : List (String × Instant) :=
  (p.takes.filter (·.started)).reverse.map fun take => (take.task.body.label, take.takenAt)

/-- Ends tasks that were taken out of the queue without being run. -/
def cancelRemoved (p : Pool α) (removed : List (Task (Job α))) : Pool α :=
  removed.foldl
    (fun p t =>
      { p with metrics := p.metrics.recordCancelled }.deliver t.id
        (t.body.cell.abandon .cancelled).1) p

/-- The outcome that was delivered for the number of a task. -/
def outcome? (p : Pool α) (id : Nat) : Option (Outcome α) := p.delivered.lookup id

/-- Drops the handle of a task. -/
def dropHandle (p : Pool α) (id : Nat) : Pool α := { p with channels := p.channels.drop id }

def isIdle (p : Pool α) : Bool := p.outstanding = 0

def stats (p : Pool α) : Except SumOverflow PoolStats :=
  match p.metrics.snapshot p.clock with
  | .error overflow => .error overflow
  | .ok s => .ok {
      workerCount := p.workers.length
      active := p.active
      queued := p.queue.size
      outstanding := p.outstanding
      strategy := p.queue.kind
      switches := p.queue.switches
      circuit := p.breaker.circuit
      submitted := s.submitted
      completed := s.completed
      failed := s.failed
      cancelled := s.cancelled }

/-- A pool is shown with its number of workers and its queue. -/
def text (p : Pool α) : String :=
  Text.partialRecord "WorkerPool"
    [("worker_count", toString p.workers.length), ("accepting", Text.truth p.accepting),
     ("queue", p.queue.text)]

end Pool

/-- What is found in the channel of a task. -/
inductive Receipt (α : Type) where
  | outcome (o : Outcome α)
  | empty
  /-- There is nothing, and nothing will come any more. -/
  | disconnected

namespace Receipt

variable {α : Type}

/-- What a caller is shown who may ask again: nothing yet, or an outcome. -/
def shown : Receipt α → Option (Outcome α)
  | outcome o => some o
  | empty => none
  | disconnected => some (.failed .shuttingDown)

/-- What a caller is told who has waited for the value of a task. -/
def result : Receipt α → Except Fault α
  | outcome o => o.result
  | empty => .error .timeout
  | disconnected => .error .shuttingDown

end Receipt

namespace Handle

variable {α : Type}

/-- Looks into the channel of a task, out of which the outcome is taken once. -/
def receive (h : Handle) (p : Pool α) : Receipt α :=
  if h.taken then .disconnected
  else
    match p.channels.arrived.lookup h.id with
    | some o => .outcome o
    | none => if (p.outcome? h.id).isSome then .disconnected else .empty

/-- The handle after a look into its channel. -/
def after (h : Handle) : Receipt α → Handle
  | .outcome _ => { h with taken := true }
  | .empty | .disconnected => h

/-- What a look at a handle shows: nothing yet, or the outcome, which is then taken. A taken outcome
cannot be had again. -/
def poll (h : Handle) (p : Pool α) : Handle × Option (Outcome α) :=
  (h.after (h.receive p), (h.receive p).shown)

/-- Whether a wait for the outcome is over. -/
def isSettled (h : Handle) (p : Pool α) : Bool := h.taken || (p.outcome? h.id).isSome

end Handle

end Dispatch
