import Dispatch.Adaptive
import Dispatch.Config.Text
import Dispatch.Health
import Dispatch.Pool.Start
import Dispatch.Recurring
/-!
# The engine

An engine joins a pool, recurring tasks, health checks and the adaptive selection of the strategy. A
coordinator sweeps the recurring tasks once in every tick and samples the queue once in every
sampling interval. An engine without a coordinator is driven by hand.
-/

namespace Dispatch

/-- The schedules of the coordinator. -/
structure Coordinator where
  wakeAt : Instant
  /-- When it samples the queue next, if it does so at all. -/
  nextSample : Instant
deriving DecidableEq, Repr

/-- When a coordinator has acted, the latest instant first. -/
structure CoordinatorRecord where
  /-- When it swept the recurring tasks. -/
  sweptAt : List Instant := []
  /-- When it sampled the queue. -/
  sampledAt : List Instant := []
deriving DecidableEq, Repr

namespace CoordinatorRecord

def addSweep (r : CoordinatorRecord) (now : Instant) : CoordinatorRecord :=
  { r with sweptAt := now :: r.sweptAt }

def addSample (r : CoordinatorRecord) (now : Instant) : CoordinatorRecord :=
  { r with sampledAt := now :: r.sampledAt }

end CoordinatorRecord

/-- An engine. -/
structure Engine (α : Type) where
  config : EngineConfig
  pool : Pool α
  recurring : Recurring α := {}
  selector : Selector
  health : HealthEvaluator
  coordinator : Option Coordinator
  /-- What the coordinator has done so far. -/
  record : CoordinatorRecord := {}

/-- When a coordinator wakes up that has just acted, or has just begun. -/
def Coordinator.nextWake (config : EngineConfig) (now nextSample : Instant) : Instant :=
  let sweepAt := now.after config.schedulerTick
  if config.adaptive.enabled then min sweepAt nextSample else sweepAt

/-- A coordinator that begins at an instant. -/
def Coordinator.start (config : EngineConfig) (now : Instant) : Coordinator where
  nextSample := now.after config.adaptive.samplingInterval
  wakeAt := nextWake config now (now.after config.adaptive.samplingInterval)

namespace Engine

variable {α : Type}

def ofPool (config : EngineConfig) (pool : Pool α) (coordinator : Option Coordinator) :
    Engine α where
  config := config
  pool := pool
  selector := { config := config.adaptive, windowStarted := pool.clock }
  health := { degradedUtilization := config.degradedUtilization }
  coordinator := coordinator

def clock (e : Engine α) : Instant := e.pool.clock

def mapPool (e : Engine α) (f : Pool α → Pool α) : Engine α := { e with pool := f e.pool }

/-- Starts a pool at an instant, to be driven by hand. -/
def startPool (config : EngineConfig) (around : Surroundings) (now : Instant) (log : LogBook) :
    Except (StartFailure α) (Engine α) :=
  match Pool.start config around now log with
  | .error failure => .error failure
  | .ok pool => .ok (ofPool config pool none)

/-- Whether a coordinator can be started besides the workers. -/
def hasThread (config : EngineConfig) (around : Surroundings) : Bool :=
  around.threadLimit.all (config.resolvedWorkerCount around.processors < ·)

/-- Starts a pool and a coordinator at an instant. -/
def start (config : EngineConfig) (around : Surroundings) (now : Instant) (log : LogBook) :
    Except (StartFailure α) (Engine α) :=
  match Pool.start config around now log with
  | .error failure => .error failure
  | .ok pool =>
    if hasThread config around then
      .ok (ofPool config pool (some (Coordinator.start config now)))
    else .error ⟨threadFault "coordinator", some ((pool.close false).settle.join)⟩

/-- An engine is shown with its pool and the number of its recurring tasks. -/
def text (e : Engine α) : String :=
  Text.partialRecord "TaskEngine"
    [("pool", e.pool.text), ("recurring", toString e.recurring.size)]

end Engine

/-- The text of an engine that is still to be built, with its settings and the number of its health
checks. -/
def EngineConfig.builderText (c : EngineConfig) (checks : Nat) : String :=
  Text.partialRecord "EngineBuilder"
    [("config", c.text), ("health_checks", toString checks)]

end Dispatch
