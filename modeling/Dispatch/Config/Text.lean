import Dispatch.Config
import Dispatch.Decimal.Layout
import Dispatch.Text.Record
/-!
# Configurations as text
-/

namespace Dispatch

open Text Decimal

/-- The record text of the breaker settings. -/
def BreakerConfig.text (c : BreakerConfig) : String :=
  record "CircuitBreakerConfig"
    [("failure_threshold", toString c.failureThreshold),
     ("success_threshold", toString c.successThreshold),
     ("reset_timeout_ms", toString c.resetTimeoutMs)]

/-- The record text of the adaptive settings. -/
def AdaptiveConfig.text (c : AdaptiveConfig) : String :=
  record "AdaptiveConfig"
    [("enabled", truth c.enabled),
     ("sampling_interval_ms", toString c.samplingIntervalMs),
     ("high_water_wait_ns", toString c.highWaterWaitNs),
     ("low_water_wait_ns", toString c.lowWaterWaitNs),
     ("min_throughput", toString c.minThroughput),
     ("consecutive_windows", toString c.consecutiveWindows),
     ("history_len", toString c.historyLen)]

/-- The record text of the engine settings. -/
def EngineConfig.text (c : EngineConfig) : String :=
  record "EngineConfig"
    [("worker_count", toString c.workerCount),
     ("max_queue_capacity", toString c.maxQueueCapacity),
     ("thread_stack_size", toString c.threadStackSize),
     ("work_stealing", truth c.workStealing),
     ("initial_strategy", c.initialStrategy.tag),
     ("latency_sample_capacity", toString c.latencySampleCapacity),
     ("degraded_utilization", Layout.display.text c.degradedUtilization),
     ("scheduler_tick_ms", toString c.schedulerTickMs),
     ("circuit_breaker", c.circuitBreaker.text),
     ("adaptive", c.adaptive.text)]

end Dispatch
