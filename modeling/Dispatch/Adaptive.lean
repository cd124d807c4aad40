import Dispatch.Config
import Dispatch.Queue
/-!
# Adaptive strategy selection

The contention of the queue is sampled in windows. Under the locked strategy, enough hot windows in
a row call for the sharded one; under the sharded strategy, enough quiet windows in a row call for
the locked one. A window is hot if waits are long and throughput is not low; it is quiet if waits
are short or throughput is low.
-/

namespace Dispatch

/-- What a window of contention says about the strategy in use. -/
structure StrategySample where
  /-- How often a lock had to be waited for. -/
  contentionCount : Nat
  /-- Lock operations a second. -/
  throughput : Float
  avgWait : Duration
  strategy : StrategyKind
  /-- The wall clock of the sample, in milliseconds. -/
  timestampMs : Nat

namespace StrategySample

/-- A duration in seconds. -/
def seconds (d : Duration) : Float :=
  (d / Duration.second).toUInt64.toFloat + (d % Duration.second).toUInt64.toFloat / 1e9

/-- The number of operations a second, zero if no time has passed. -/
def rate (operations : Nat) (elapsed : Duration) : Float :=
  let secs := seconds elapsed
  if 0.0 < secs then operations.toUInt64.toFloat / secs else 0.0

/-- The first count of waits over which no mean is taken. -/
def meanBound : Nat := 1 <<< 32

/-- The mean of the waits of a window, rounded down; zero if there are none, or too many. -/
def meanWait (w : ContentionWindow) : Duration :=
  if w.contended < meanBound then w.wait / w.contended else 0

/-- The sample of a window of the given length. -/
def ofWindow (w : ContentionWindow) (elapsed : Duration) (strategy : StrategyKind)
    (now : Instant) : StrategySample where
  contentionCount := w.contended
  throughput := rate w.operations elapsed
  avgWait := meanWait w
  strategy := strategy
  timestampMs := now.wallMillis

end StrategySample

/-- Recommends strategies from samples. -/
structure Selector where
  config : AdaptiveConfig
  /-- The newest samples, the oldest first. -/
  history : List StrategySample := []
  /-- Hot windows in a row. -/
  hotStreak : Nat := 0
  /-- Quiet windows in a row. -/
  quietStreak : Nat := 0
  windowStarted : Instant

namespace Selector

/-- The throughput from which a window is not low. -/
def minThroughput (c : AdaptiveConfig) : Float := c.minThroughput.toUInt64.toFloat

/-- Whether a sample says that a single backlog is a bottleneck. -/
def isHot (c : AdaptiveConfig) (s : StrategySample) : Bool :=
  c.highWaterWaitNs ≤ s.avgWait && minThroughput c ≤ s.throughput

/-- Whether a sample says that a single backlog is enough. -/
def isQuiet (c : AdaptiveConfig) (s : StrategySample) : Bool :=
  s.avgWait ≤ c.lowWaterWaitNs || s.throughput < minThroughput c

/-- Adds a sample to the history, of which the newest are kept. -/
def remember (sel : Selector) (s : StrategySample) : Selector :=
  let history := sel.history ++ [s]
  { sel with history := history.drop (history.length - max sel.config.historyLen 1) }

/-- A streak that goes on or is broken. -/
def extend (goesOn : Bool) (streak : Nat) : Nat := if goesOn then streak + 1 else 0

/-- Takes a sample into account, and recommends a strategy if a streak under the present one is long
enough. A recommendation ends both streaks. -/
def evaluate (sel : Selector) (current : StrategyKind) (s : StrategySample) :
    Selector × Option StrategyKind :=
  let sel := sel.remember s
  match current with
  | .locked =>
    let streak := extend (isHot sel.config s) sel.hotStreak
    if sel.config.consecutiveWindows ≤ streak then
      ({ sel with hotStreak := 0, quietStreak := 0 }, some .sharded)
    else ({ sel with hotStreak := streak }, none)
  | .sharded =>
    let streak := extend (isQuiet sel.config s) sel.quietStreak
    if sel.config.consecutiveWindows ≤ streak then
      ({ sel with hotStreak := 0, quietStreak := 0 }, some .locked)
    else ({ sel with quietStreak := streak }, none)

/-- Ends the present window at an instant, and gives its sample. -/
def endWindow (sel : Selector) (w : ContentionWindow) (current : StrategyKind) (now : Instant) :
    Selector × StrategySample :=
  ({ sel with windowStarted := now },
    .ofWindow w (now.since sel.windowStarted) current now)

/-- Ends the present window of a queue, whose counts begin anew, and takes its sample into account;
gives the strategy that is recommended. -/
def sampleQueue {β : Type} (sel : Selector) (q : TaskQueue β) (now : Instant) :
    Selector × TaskQueue β × Option StrategyKind :=
  let (sel, sample) := sel.endWindow q.contention.window q.kind now
  let (sel, target) := sel.evaluate q.kind sample
  (sel, q.withContention q.contention.clear, target)

/-- Samples a queue that nobody waits at, and exchanges its strategy if that is recommended; gives
the new strategy, if it was exchanged. -/
def adapt {β : Type} (sel : Selector) (q : TaskQueue β) (now : Instant) :
    Selector × TaskQueue β × Option StrategyKind :=
  match sel.sampleQueue q now with
  | (sel, q, none) => (sel, q, none)
  | (sel, q, some target) =>
    let (q, moved) := q.switch target now
    (sel, q, moved.map fun _ => target)

end Selector

end Dispatch
