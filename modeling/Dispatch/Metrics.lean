import Dispatch.Time
/-!
# Metrics

Counts of what became of tasks, and statistics of the newest latencies: the nearest-rank
percentiles, the mean and the maximum, in whole microseconds.
-/

namespace Dispatch

/-- The counts and latency statistics at one instant. -/
structure MetricsSnapshot where
  submitted : Nat := 0
  completed : Nat := 0
  failed : Nat := 0
  cancelled : Nat := 0
  rejected : Nat := 0
  latencySamples : Nat := 0
  /-- The latency that half of the samples do not exceed. -/
  p50Micros : Nat := 0
  /-- The latency that 95 of 100 samples do not exceed. -/
  p95Micros : Nat := 0
  /-- The latency that 99 of 100 samples do not exceed. -/
  p99Micros : Nat := 0
  meanMicros : Nat := 0
  maxMicros : Nat := 0
  /-- Milliseconds since counting began. -/
  uptimeMs : Nat := 0
  /-- The wall clock of the snapshot, in milliseconds. -/
  takenAtMs : Nat := 0
deriving DecidableEq, Repr

namespace MetricsSnapshot

/-- Accepted tasks that have ended; the count is one of 64 bits. -/
def ended (s : MetricsSnapshot) : Nat :=
  (s.completed + s.failed + s.cancelled) % (Duration.countLimit + 1)

/-- Accepted tasks that have not ended. -/
def inFlight (s : MetricsSnapshot) : Nat := s.submitted - s.ended

/-- The share of failed tasks among those that have ended. -/
def failureRate (s : MetricsSnapshot) : Float :=
  if s.ended = 0 then 0.0 else s.failed.toUInt64.toFloat / s.ended.toUInt64.toFloat

end MetricsSnapshot

/-- Counts tasks and remembers the newest latencies. -/
structure Metrics where
  /-- The most latencies that are remembered. -/
  capacity : Nat
  startedAt : Instant
  submitted : Nat := 0
  completed : Nat := 0
  failed : Nat := 0
  cancelled : Nat := 0
  rejected : Nat := 0
  /-- The newest latencies, the oldest first. -/
  latencies : List Duration := []
deriving DecidableEq, Repr

/-- The latencies add up to more than the longest duration, so they have no mean. -/
inductive SumOverflow where
  | latencies
deriving DecidableEq, Repr

def SumOverflow.message : SumOverflow → String
  | latencies => "overflow in iter::sum over durations"

namespace Metrics

/-- The capacity for which none is chosen. -/
def defaultCapacity : Nat := 1000

/-- Starts counting; at least one latency is remembered. -/
def start (now : Instant) (capacity : Nat) : Metrics where
  capacity := max capacity 1
  startedAt := now

def recordSubmitted (m : Metrics) : Metrics := { m with submitted := m.submitted + 1 }

/-- Counts a task that returned a value, and remembers its latency. -/
def recordCompleted (m : Metrics) (latency : Duration) : Metrics :=
  let latencies := m.latencies ++ [latency]
  { m with
    completed := m.completed + 1
    latencies := latencies.drop (latencies.length - m.capacity) }

/-- Counts a task that ended with a fault. -/
def recordFailed (m : Metrics) : Metrics := { m with failed := m.failed + 1 }

def recordCancelled (m : Metrics) : Metrics := { m with cancelled := m.cancelled + 1 }

def recordRejected (m : Metrics) : Metrics := { m with rejected := m.rejected + 1 }

/-- The place, counted from one, of the nearest-rank percentile among `n` sorted samples. -/
def rank (percent n : Nat) : Nat := min (max ((percent * n + 99) / 100) 1) n

/-- The nearest-rank percentile of sorted samples, zero if there are none. -/
def percentile (percent : Nat) (sorted : List Duration) : Duration :=
  sorted.getD (rank percent sorted.length - 1) 0

/-- The first count that a mean is not taken over. -/
def meanBound : Nat := 1 <<< 32

/-- The mean of samples, rounded down; zero if there are none, or too many. -/
def mean (samples : List Duration) : Duration :=
  if samples.length < meanBound then sumOf id samples / samples.length else 0

def snapshot (m : Metrics) (now : Instant) : Except SumOverflow MetricsSnapshot :=
  let sorted := m.latencies.mergeSort
  if Duration.longest < sumOf id sorted then .error .latencies
  else .ok {
    submitted := m.submitted
    completed := m.completed
    failed := m.failed
    cancelled := m.cancelled
    rejected := m.rejected
    latencySamples := sorted.length
    p50Micros := Duration.micros (percentile 50 sorted)
    p95Micros := Duration.micros (percentile 95 sorted)
    p99Micros := Duration.micros (percentile 99 sorted)
    meanMicros := Duration.micros (mean sorted)
    maxMicros := Duration.micros (sorted.getLastD 0)
    uptimeMs := Duration.millis (now.since m.startedAt)
    takenAtMs := now.wallMillis }

end Metrics

end Dispatch
