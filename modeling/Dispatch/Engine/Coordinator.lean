import Dispatch.Engine
/-!
# What the coordinator does

When the coordinator wakes up it sweeps the recurring tasks; if it is time it also samples the queue
and exchanges its strategy where that is recommended. An engine is settled when neither a worker nor
the coordinator can do anything more at the present instant.
-/

namespace Dispatch.Engine

variable {α : Type}

/-- Samples the queue and exchanges its strategy if that is recommended; gives the new strategy, if it
was exchanged. -/
def sampleAndAdapt (e : Engine α) : Engine α × Option StrategyKind :=
  let (selector, queue, target) := e.selector.sampleQueue e.pool.queue e.clock
  let e :=
    { e with
      selector := selector
      pool := { e.pool with queue := queue }
      record := e.record.addSample e.clock }
  match target with
  | none => (e, none)
  | some kind =>
    let (pool, moved) := e.pool.switch kind
    ({ e with pool := pool }, moved.map fun _ => kind)

/-- Samples the queue and logs an exchange of its strategy. -/
def sample (e : Engine α) : Engine α :=
  match e.sampleAndAdapt with
  | (e, none) => e
  | (e, some kind) => e.mapPool (·.note .info ("queue strategy switched to " ++ kind.text))

/-- Submits the recurring tasks that are due at `now`, and counts what was accepted. -/
def submitDue (e : Engine α) (now : Instant) : Engine α × Nat :=
  let (recurring, pool, count) := e.recurring.sweep e.pool now
  ({ e with recurring := recurring, pool := pool }, count)

/-- What the coordinator does when it wakes up: it submits what is due, samples if it is time, and
goes to sleep again. -/
def coordinate (e : Engine α) (c : Coordinator) : Engine α :=
  let e := { (e.submitDue e.clock).1 with record := e.record.addSweep e.clock }
  let isSample := e.config.adaptive.enabled && c.nextSample ≤ e.clock
  let e := if isSample then e.sample else e
  let nextSample :=
    if isSample then e.clock.after e.config.adaptive.samplingInterval else c.nextSample
  { e with coordinator := some ⟨Coordinator.nextWake e.config e.clock nextSample, nextSample⟩ }

/-- Does all that can be done at the present instant. -/
def settle (e : Engine α) : Engine α :=
  let e := e.mapPool .settle
  match e.coordinator with
  | none => e
  | some c => if c.wakeAt ≤ e.clock then (e.coordinate c).mapPool .settle else e

end Dispatch.Engine
