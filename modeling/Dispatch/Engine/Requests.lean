import Dispatch.Engine.Coordinator
/-!
# Requests to an engine

What a caller can ask of an engine without letting time pass. The answer is what the request itself
amounts to; afterwards everything is done that can be done at the present instant, so that a task has
started, if a worker was free for it, when its submission returns.
-/

namespace Dispatch.Engine

variable {α β : Type}

def ask (e : Engine α) (request : Pool α → Pool α × β) : Engine α × β :=
  let (pool, answer) := request e.pool
  ({ e with pool := pool }.settle, answer)

/-- Changes the pool and does what can be done then. -/
def tell (e : Engine α) (request : Pool α → Pool α) : Engine α := (e.mapPool request).settle

/-- Submits a task that is ready now. -/
def submit (e : Engine α) (s : Submission α) : Engine α × Except Fault Handle :=
  e.ask (·.submit s)

/-- Submits a task that gets ready at an instant. -/
def submitAt (e : Engine α) (readyAt : Instant) (s : Submission α) :
    Engine α × Except Fault Handle :=
  e.ask (·.submitAt readyAt s)

/-- Submits a task that gets ready after a delay. -/
def schedule (e : Engine α) (delay : Duration) (s : Submission α) :
    Engine α × Except Fault Handle :=
  e.submitAt (e.clock.after delay) s

/-- Registers a recurring task, as long as tasks are admitted. -/
def scheduleRecurring (e : Engine α) (interval : Duration) (s : Submission α) :
    Engine α × Except Fault Identifier :=
  if e.pool.accepting then
    let (recurring, answer) := e.recurring.schedule e.clock interval s
    ({ e with recurring := recurring }, answer)
  else (e, .error .shuttingDown)

/-- Cancels a recurring task, and tells whether it was there and not cancelled before. -/
def cancelRecurring (e : Engine α) (id : Identifier) : Engine α × Bool :=
  let (recurring, answer) := e.recurring.cancel id
  ({ e with recurring := recurring }, answer)

/-- Submits the recurring tasks that are due at `now`, and counts what was accepted. -/
def sweep (e : Engine α) (now : Instant) : Engine α × Nat :=
  let (e, count) := e.submitDue now
  (e.settle, count)

def freshToken (e : Engine α) : Engine α × Token :=
  e.ask fun p => ({ p with tokens := p.tokens.fresh.1 }, p.tokens.fresh.2)

def cancel (e : Engine α) (t : Token) : Engine α :=
  e.tell fun p => { p with tokens := p.tokens.cancel t }

/-- Exchanges the strategy of the queue and gives the number of tasks that were moved. -/
def switch (e : Engine α) (kind : StrategyKind) : Engine α × Option Nat := e.ask (·.switch kind)

/-- Tells the breaker about something from outside, and gives the state of the circuit then. -/
def tellBreaker (e : Engine α) (change : Breaker → Breaker) : Engine α × Circuit :=
  e.ask fun p => (p.withBreaker (change p.breaker), (change p.breaker).circuit)

def registerCheck (e : Engine α) (name : String) (probe : List CheckCall → Probe) : Engine α :=
  { e with health := e.health.register name probe }

/-- Removes a health check, and tells whether it was there. -/
def unregisterCheck (e : Engine α) (name : String) : Engine α × Bool :=
  ({ e with health := e.health.unregister name }, e.health.removes name)

/-- Reports on the health of the engine. -/
def report (e : Engine α) : Engine α × HealthReport :=
  let (health, report) :=
    e.health.evaluate e.pool.queue.utilization e.pool.breaker.circuit e.clock
  ({ e with health := health }, report)

/-- Stops the coordinator and removes the recurring tasks. -/
def stopCoordinator (e : Engine α) : Engine α :=
  { e with coordinator := none, recurring := e.recurring.clear }

/-- Gives the pool up without waiting for its workers. -/
def abandonPool (e : Engine α) : Engine α := e.tell .abandon

/-- Gives the engine up without waiting for its workers. -/
def abandon (e : Engine α) : Engine α := e.stopCoordinator.abandonPool

end Dispatch.Engine
