import Dispatch.Metrics
import Dispatch.Json.Record
import Dispatch.Json.Value
/-!
# Stored metrics
-/

namespace Dispatch.MetricsSnapshot

open Json

def value (s : MetricsSnapshot) : Value :=
  .obj
    [("tasks_submitted", .int s.submitted),
     ("tasks_completed", .int s.completed),
     ("tasks_failed", .int s.failed),
     ("tasks_cancelled", .int s.cancelled),
     ("tasks_rejected", .int s.rejected),
     ("latency_samples", .int s.latencySamples),
     ("p50_latency_us", .int s.p50Micros),
     ("p95_latency_us", .int s.p95Micros),
     ("p99_latency_us", .int s.p99Micros),
     ("mean_latency_us", .int s.meanMicros),
     ("max_latency_us", .int s.maxMicros),
     ("uptime_ms", .int s.uptimeMs),
     ("taken_at_ms", .int s.takenAtMs)]

def form : RecordForm MetricsSnapshot where
  name := "MetricsSnapshot"
  start := {}
  isLenient := false
  fields :=
    [.of "tasks_submitted" .nat64 fun n s => { s with submitted := n },
     .of "tasks_completed" .nat64 fun n s => { s with completed := n },
     .of "tasks_failed" .nat64 fun n s => { s with failed := n },
     .of "tasks_cancelled" .nat64 fun n s => { s with cancelled := n },
     .of "tasks_rejected" .nat64 fun n s => { s with rejected := n },
     .of "latency_samples" .size fun n s => { s with latencySamples := n },
     .of "p50_latency_us" .nat64 fun n s => { s with p50Micros := n },
     .of "p95_latency_us" .nat64 fun n s => { s with p95Micros := n },
     .of "p99_latency_us" .nat64 fun n s => { s with p99Micros := n },
     .of "mean_latency_us" .nat64 fun n s => { s with meanMicros := n },
     .of "max_latency_us" .nat64 fun n s => { s with maxMicros := n },
     .of "uptime_ms" .nat64 fun n s => { s with uptimeMs := n },
     .of "taken_at_ms" .nat128 fun n s => { s with takenAtMs := n }]

end Dispatch.MetricsSnapshot
