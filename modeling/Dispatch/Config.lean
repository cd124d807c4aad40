import Dispatch.Time
import Dispatch.Queue.Kind
/-!
# Configuration

The settings of the circuit breaker, of the adaptive strategy selection and of the engine, with
their defaults and the rules that a usable configuration meets. `EngineConfig.validate` reports the
first rule that is broken.
-/

namespace Dispatch

/-- The smallest stack that a thread may have: 64 KiB. -/
def minStackSize : Nat := 64 * 1024

/-- Settings of the circuit breaker. -/
structure BreakerConfig where
  /-- Failures in a row that open a closed circuit. -/
  failureThreshold : Nat := 5
  successThreshold : Nat := 1
  /-- Milliseconds for which an open circuit refuses work. -/
  resetTimeoutMs : Nat := 30000
deriving DecidableEq, Repr

/-- Which rule of the breaker settings is broken. -/
inductive BreakerFlaw where
  /-- No failure would be needed. -/
  | failureThreshold
  /-- No success would be needed. -/
  | successThreshold
  /-- An open circuit would refuse nothing. -/
  | resetTimeout
deriving DecidableEq, Repr

def BreakerFlaw.message : BreakerFlaw → String
  | failureThreshold => "failure_threshold must be greater than 0"
  | successThreshold => "success_threshold must be greater than 0"
  | resetTimeout => "reset_timeout_ms must be greater than 0"

namespace BreakerConfig

/-- The time for which an open circuit refuses work. -/
def resetTimeout (c : BreakerConfig) : Duration := .ofMillis c.resetTimeoutMs

def validate (c : BreakerConfig) : Except BreakerFlaw Unit :=
  if c.failureThreshold = 0 then .error .failureThreshold
  else if c.successThreshold = 0 then .error .successThreshold
  else if c.resetTimeoutMs = 0 then .error .resetTimeout
  else .ok ()

end BreakerConfig

/-- Settings of the adaptive strategy selection. -/
structure AdaptiveConfig where
  enabled : Bool := true
  samplingIntervalMs : Nat := 100
  /-- Average wait in nanoseconds from which a window counts as hot. -/
  highWaterWaitNs : Nat := 20000
  /-- Average wait in nanoseconds up to which a window counts as quiet. -/
  lowWaterWaitNs : Nat := 2000
  /-- Operations a second below which a window is not hot, and is quiet. -/
  minThroughput : Nat := 1000
  /-- Windows in a row that call for a switch. -/
  consecutiveWindows : Nat := 3
  historyLen : Nat := 64
deriving DecidableEq, Repr

/-- Which rule of the adaptive settings is broken. -/
inductive AdaptiveFlaw where
  /-- Samples would be taken all the time. -/
  | samplingInterval
  /-- A window could be hot and quiet at once. -/
  | waterMarks
  /-- No window would be needed. -/
  | consecutiveWindows
  /-- No sample would be remembered. -/
  | historyLen
deriving DecidableEq, Repr

def AdaptiveFlaw.message : AdaptiveFlaw → String
  | samplingInterval => "sampling_interval_ms must be greater than 0"
  | waterMarks => "low_water_wait_ns must be below high_water_wait_ns"
  | consecutiveWindows => "consecutive_windows must be greater than 0"
  | historyLen => "history_len must be greater than 0"

namespace AdaptiveConfig

/-- The time between two samples. -/
def samplingInterval (c : AdaptiveConfig) : Duration := .ofMillis c.samplingIntervalMs

def validate (c : AdaptiveConfig) : Except AdaptiveFlaw Unit :=
  if c.samplingIntervalMs = 0 then .error .samplingInterval
  else if c.highWaterWaitNs ≤ c.lowWaterWaitNs then .error .waterMarks
  else if c.consecutiveWindows = 0 then .error .consecutiveWindows
  else if c.historyLen = 0 then .error .historyLen
  else .ok ()

end AdaptiveConfig

/-- Settings of the engine. -/
structure EngineConfig where
  /-- Workers; zero stands for one a processor. -/
  workerCount : Nat := 0
  /-- The most tasks that the queue may hold. -/
  maxQueueCapacity : Nat := 10000
  /-- Bytes of stack of each worker. -/
  threadStackSize : Nat := 2097152
  /-- Whether a worker may take from the backlog of another one. -/
  workStealing : Bool := true
  initialStrategy : StrategyKind := .locked
  latencySampleCapacity : Nat := 1000
  /-- Fill level of the queue above which the engine counts as degraded. -/
  degradedUtilization : Float := 0.8
  /-- Milliseconds between two looks at the recurring entries. -/
  schedulerTickMs : Nat := 100
  circuitBreaker : BreakerConfig := {}
  adaptive : AdaptiveConfig := {}
deriving BEq, Repr

/-- Which rule of the engine settings is broken. -/
inductive ConfigFlaw where
  | queueCapacity
  | stackSize
  /-- No latency would be remembered. -/
  | latencySamples
  /-- The fill level is not above zero and at most one. -/
  | degradedUtilization
  /-- The recurring entries would be looked at all the time. -/
  | schedulerTick
  | circuitBreaker (flaw : BreakerFlaw)
  | adaptive (flaw : AdaptiveFlaw)
deriving DecidableEq, Repr

def ConfigFlaw.message : ConfigFlaw → String
  | queueCapacity => "max_queue_capacity must be greater than 0"
  | stackSize => "thread_stack_size must be at least 64 KiB"
  | latencySamples => "latency_sample_capacity must be greater than 0"
  | degradedUtilization => "degraded_utilization must be in (0, 1]"
  | schedulerTick => "scheduler_tick_ms must be greater than 0"
  | circuitBreaker flaw => "circuit_breaker invalid: " ++ flaw.message
  | adaptive flaw => "adaptive invalid: " ++ flaw.message

namespace EngineConfig

/-- The time between two looks at the recurring entries. -/
def schedulerTick (c : EngineConfig) : Duration := .ofMillis c.schedulerTickMs

/-- Whether a fill level is above zero and at most one; a value that is no number is not. -/
def isFillLevel (x : Float) : Bool := 0.0 < x && x ≤ 1.0

def validate (c : EngineConfig) : Except ConfigFlaw Unit :=
  if c.maxQueueCapacity = 0 then .error .queueCapacity
  else if c.threadStackSize < minStackSize then .error .stackSize
  else if c.latencySampleCapacity = 0 then .error .latencySamples
  else if !isFillLevel c.degradedUtilization then .error .degradedUtilization
  else if c.schedulerTickMs = 0 then .error .schedulerTick
  else
    match c.circuitBreaker.validate with
    | .error flaw => .error (.circuitBreaker flaw)
    | .ok () =>
      match c.adaptive.validate with
      | .error flaw => .error (.adaptive flaw)
      | .ok () => .ok ()

/-- The workers that are started where `processors` are at hand. -/
def resolvedWorkerCount (processors : Nat) (c : EngineConfig) : Nat :=
  if c.workerCount = 0 then max processors 1 else c.workerCount

/-- Sets the scheduler tick to the whole milliseconds of a duration. -/
def withSchedulerTick (tick : Duration) (c : EngineConfig) : EngineConfig :=
  { c with schedulerTickMs := tick.millis }

/-- Sets the failures that open the circuit, and for how long it then stays open. -/
def withCircuitBreaker (failures : Nat) (reset : Duration) (c : EngineConfig) : EngineConfig :=
  { c with circuitBreaker :=
      { c.circuitBreaker with failureThreshold := failures, resetTimeoutMs := reset.millis } }

/-- Sets the successes that close a half-open circuit. -/
def withSuccessThreshold (successes : Nat) (c : EngineConfig) : EngineConfig :=
  { c with circuitBreaker := { c.circuitBreaker with successThreshold := successes } }

/-- Switches the adaptive strategy selection on or off. -/
def withAdaptive (enabled : Bool) (c : EngineConfig) : EngineConfig :=
  { c with adaptive := { c.adaptive with enabled := enabled } }

end EngineConfig

end Dispatch
