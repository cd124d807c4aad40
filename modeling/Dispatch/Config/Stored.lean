import Dispatch.Config
import Dispatch.Json.Record
import Dispatch.Json.Value
/-!
# Stored configurations

Settings are stored as maps. A map may leave fields out, which then have their defaults, and may
hold others, which are ignored.
-/

namespace Dispatch

open Json

namespace StrategyKind

def value (k : StrategyKind) : Value := .str k.text

def read : Reader StrategyKind := .variant (all.map fun k => (k.text, k))

end StrategyKind

namespace BreakerConfig

def value (c : BreakerConfig) : Value :=
  .obj
    [("failure_threshold", .int c.failureThreshold),
     ("success_threshold", .int c.successThreshold),
     ("reset_timeout_ms", .int c.resetTimeoutMs)]

def form : RecordForm BreakerConfig where
  name := "CircuitBreakerConfig"
  start := {}
  isLenient := true
  fields :=
    [.of "failure_threshold" .nat32 fun n c => { c with failureThreshold := n },
     .of "success_threshold" .nat32 fun n c => { c with successThreshold := n },
     .of "reset_timeout_ms" .nat64 fun n c => { c with resetTimeoutMs := n }]

end BreakerConfig

namespace AdaptiveConfig

def value (c : AdaptiveConfig) : Value :=
  .obj
    [("enabled", .bool c.enabled),
     ("sampling_interval_ms", .int c.samplingIntervalMs),
     ("high_water_wait_ns", .int c.highWaterWaitNs),
     ("low_water_wait_ns", .int c.lowWaterWaitNs),
     ("min_throughput", .int c.minThroughput),
     ("consecutive_windows", .int c.consecutiveWindows),
     ("history_len", .int c.historyLen)]

def form : RecordForm AdaptiveConfig where
  name := "AdaptiveConfig"
  start := {}
  isLenient := true
  fields :=
    [.of "enabled" .boolean fun b c => { c with enabled := b },
     .of "sampling_interval_ms" .nat64 fun n c => { c with samplingIntervalMs := n },
     .of "high_water_wait_ns" .nat64 fun n c => { c with highWaterWaitNs := n },
     .of "low_water_wait_ns" .nat64 fun n c => { c with lowWaterWaitNs := n },
     .of "min_throughput" .nat64 fun n c => { c with minThroughput := n },
     .of "consecutive_windows" .nat32 fun n c => { c with consecutiveWindows := n },
     .of "history_len" .size fun n c => { c with historyLen := n }]

end AdaptiveConfig

namespace EngineConfig

def value (c : EngineConfig) : Value :=
  .obj
    [("worker_count", .int c.workerCount),
     ("max_queue_capacity", .int c.maxQueueCapacity),
     ("thread_stack_size", .int c.threadStackSize),
     ("work_stealing", .bool c.workStealing),
     ("initial_strategy", c.initialStrategy.value),
     ("latency_sample_capacity", .int c.latencySampleCapacity),
     ("degraded_utilization", .float c.degradedUtilization),
     ("scheduler_tick_ms", .int c.schedulerTickMs),
     ("circuit_breaker", c.circuitBreaker.value),
     ("adaptive", c.adaptive.value)]

def form : RecordForm EngineConfig where
  name := "EngineConfig"
  start := {}
  isLenient := true
  fields :=
    [.of "worker_count" .size fun n c => { c with workerCount := n },
     .of "max_queue_capacity" .size fun n c => { c with maxQueueCapacity := n },
     .of "thread_stack_size" .size fun n c => { c with threadStackSize := n },
     .of "work_stealing" .boolean fun b c => { c with workStealing := b },
     .of "initial_strategy" StrategyKind.read fun k c => { c with initialStrategy := k },
     .of "latency_sample_capacity" .size fun n c => { c with latencySampleCapacity := n },
     .of "degraded_utilization" .float fun x c => { c with degradedUtilization := x },
     .of "scheduler_tick_ms" .nat64 fun n c => { c with schedulerTickMs := n },
     .of "circuit_breaker" BreakerConfig.form.read fun b c => { c with circuitBreaker := b },
     .of "adaptive" AdaptiveConfig.form.read fun a c => { c with adaptive := a }]

/-- Why a stored text gives no usable settings. -/
inductive StoredFlaw where
  | unreadable (flaw : Json.Flaw)
  | invalid (flaw : ConfigFlaw)

/-- Reads the stored form of the engine settings and checks them. -/
def ofText (text : String) : Except StoredFlaw EngineConfig :=
  match Reader.readAll form.read text with
  | .error flaw => .error (.unreadable flaw)
  | .ok c =>
    match c.validate with
    | .error flaw => .error (.invalid flaw)
    | .ok () => .ok c

end EngineConfig

end Dispatch
