import Dispatch.Engine.Requests
/-!
# Letting time pass

Computing takes no time. When nothing can be done at the present instant, the clock jumps to the
next instant at which a worker or the coordinator wakes up. A caller lets time pass up to an instant,
or waits until something holds; what can be done at the last instant is done before a caller gives
its wait up.
-/

namespace Dispatch

namespace Engine

variable {α : Type}

/-- The next instant at which something happens by itself. -/
def nextWake (e : Engine α) : Option Instant :=
  Instant.earliest? e.pool.nextWake (e.coordinator.map Coordinator.wakeAt)

/-- Moves the clock forward to an instant and does all that can be done then. -/
def jump (e : Engine α) (t : Instant) : Engine α :=
  (e.mapPool fun p => { p with clock := max p.clock t }).settle

/-- The time left until a limit. -/
def timeLeft (e : Engine α) (limit : Instant) : Nat := (limit - e.clock).toNat

/-- Lets time pass until something holds, at the latest until a limit. -/
def runUntil (stop : Engine α → Bool) (limit : Instant) (e : Engine α) : Engine α :=
  if stop e then e
  else
    match e.nextWake with
    | none => e.jump limit
    | some t =>
      if limit < t then e.jump limit
      else
        let next := e.jump t
        if next.timeLeft limit < e.timeLeft limit then runUntil stop limit next else next
termination_by e.timeLeft limit

/-- The instant at which a wait is given up, the end of time if there is none. -/
def deadline (e : Engine α) (timeout : Option Duration) : Instant :=
  (timeout.bind e.clock.add?).getD .latest

/-- Lets a length of time pass. -/
def advance (e : Engine α) (d : Duration) : Engine α :=
  e.runUntil (fun _ => false) (e.clock + d)

/-- Waits until no admitted task is left, and tells whether that came about in time. -/
def waitIdle (e : Engine α) (timeout : Option Duration) : Engine α × Bool :=
  let e := e.runUntil (·.pool.isIdle) (e.deadline timeout)
  (e, e.pool.isIdle)

/-- Waits likewise without holding up the caller. The deadline is fixed before the wait begins. -/
def waitIdleAsync (e : Engine α) (timeout : Duration) : Engine α × Bool :=
  let deadline := e.clock.add? timeout
  e.waitIdle (deadline.map (·.since e.clock))

/-- Waits until there is something in the channel of a task, or nothing will come any more. -/
def receiveWithin (e : Engine α) (h : Handle) (timeout : Option Duration) :
    Engine α × Receipt α :=
  let e := e.runUntil (fun e => h.isSettled e.pool) (e.deadline timeout)
  (e, h.receive e.pool)

/-- Waits for the outcome of a task, which is then taken. -/
def await (e : Engine α) (h : Handle) (timeout : Option Duration) :
    Engine α × Handle × Option (Outcome α) :=
  let (e, receipt) := e.receiveWithin h timeout
  (e, h.after receipt, receipt.shown)

/-- What a bounded wait for the value of a task amounts to. -/
def valueOf : Option (Outcome α) → Except Fault α
  | some o => o.result
  | none => .error .timeout

/-- Waits for the value of a task. -/
def get (e : Engine α) (h : Handle) (timeout : Option Duration) : Engine α × Except Fault α :=
  let (e, _, outcome) := e.await h timeout
  (e, valueOf outcome)

/-- Waits for the value of a task without holding up the caller. -/
def getAsync (e : Engine α) (h : Handle) (timeout : Duration) : Engine α × Except Fault α :=
  let (e, receipt) := e.receiveWithin h (some timeout)
  (e, receipt.result)

/-- Waits until all workers of a closed pool have stopped. By the given limit all bodies at hand have
ended, however they are spread over the workers. -/
def awaitWorkers (e : Engine α) : Engine α :=
  e.runUntil (·.pool.isStopped) (e.clock + e.pool.timeNeeded)

/-- Waits for the workers of a closed pool, and cancels what they have left. -/
def joinWorkers (e : Engine α) : Engine α := e.awaitWorkers.mapPool .join

/-- Closes the pool and waits for its workers. -/
def shutdownPool (e : Engine α) (graceful : Bool) : Engine α :=
  (e.tell (·.close graceful)).joinWorkers

/-- Stops the coordinator and closes the pool, and waits for the workers. -/
def shutdown (e : Engine α) (graceful : Bool) : Engine α := e.stopCoordinator.shutdownPool graceful

end Engine

end Dispatch
