import Dispatch.Pool.Workers
/-!
# Starting a pool

Workers are started one after the other. If one of them cannot be started, those before it are
stopped again and nothing is left running.
-/

namespace Dispatch

/-- Why a pool or an engine was not started, and what remains of it. -/
structure StartFailure (α : Type) where
  fault : Fault
  /-- The stopped pool, if some worker was started before the failure. -/
  remains : Option (Pool α)

/-- What limits the start of an engine. -/
structure Surroundings where
  processors : Nat := 1
  /-- How many threads can be started, if there is a limit. -/
  threadLimit : Option Nat := none

/-- The fault of a thread that cannot be started. -/
def threadFault (name : String) : Fault :=
  .internal ("failed to spawn " ++ name ++ ": Resource temporarily unavailable (os error 11)")

namespace Pool

variable {α : Type}

/-- A pool with `started` of `count` workers at their beginning. -/
def ofWorkers (config : EngineConfig) (count started : Nat) (now : Instant) (log : LogBook) :
    Pool α where
  clock := now
  queue := .ofKind config.initialStrategy config.maxQueueCapacity count config.workStealing
  breaker := { config := config.circuitBreaker }
  metrics := .start now config.latencySampleCapacity
  log := (List.range started).foldl
    (fun log index => log.log now .info ("worker " ++ toString index ++ " started")) log
  workers := List.replicate started .seeking

/-- How many of `count` threads can be started. -/
def startable (around : Surroundings) (count : Nat) : Nat :=
  match around.threadLimit with
  | none => count
  | some limit => min limit count

def start (config : EngineConfig) (around : Surroundings) (now : Instant) (log : LogBook) :
    Except (StartFailure α) (Pool α) :=
  match config.validate with
  | .error flaw => .error ⟨.invalidConfig flaw.message, none⟩
  | .ok () =>
    let count := config.resolvedWorkerCount around.processors
    let started := startable around count
    let pool := (ofWorkers config count started now log).settle
    if started < count then
      .error ⟨threadFault ("worker " ++ toString started), some ((pool.closeQueue false).settle)⟩
    else .ok pool

end Pool

end Dispatch
