import Dispatch.Breaker
/-!
# A breaker that reports

A breaker reports to a log book. Each call that moves the circuit reports the move at its own place,
with the state that the circuit leaves and the one that it enters; calls that leave the circuit as it
is report nothing.
-/

namespace Dispatch

/-- A breaker and the book to which it reports. -/
structure Reporter where
  breaker : Breaker
  log : LogBook
deriving Repr

namespace Reporter

/-- Exchanges the breaker without a word. -/
def become (r : Reporter) (b : Breaker) : Reporter := { r with breaker := b }

/-- Exchanges the breaker and reports how its circuit has moved. -/
def report (r : Reporter) (now : Instant) (b : Breaker) (before after : Circuit) : Reporter where
  breaker := b
  log := r.log.log now after.gravity (before.changeMessage after)

/-- Asks to let work through. -/
def acquire (r : Reporter) (now : Instant) : Reporter × Except Fault Unit :=
  let b := r.breaker
  if b.circuit ≠ .opened then (r, .ok ())
  else
    match b.remaining? now with
    | some left => (r.become { b with rejections := b.rejections + 1 }, .error (.circuitOpen left))
    | none =>
      (r.report now { b with circuit := .halfOpen, successes := 0 } .opened .halfOpen, .ok ())

/-- Takes note of a success. -/
def onSuccess (r : Reporter) (now : Instant) : Reporter :=
  let b := { r.breaker with failures := 0 }
  if b.circuit ≠ .halfOpen then r.become b
  else
    let b := { b with successes := b.successes + 1 }
    if b.config.successThreshold ≤ b.successes then r.report now b.close .halfOpen .closed
    else r.become b

/-- Whether the failures that a breaker has counted open its circuit. -/
def opens (b : Breaker) : Bool :=
  match b.circuit with
  | .closed => b.config.failureThreshold ≤ b.failures
  | .halfOpen => true
  | .opened => false

/-- Takes note of a failure, which the breaker has counted. -/
def countedFailure (r : Reporter) (now : Instant) (b : Breaker) : Reporter :=
  if opens b then r.report now (b.openAt now) b.circuit .opened else r.become b

/-- Takes note of a failure. -/
def onFailure (r : Reporter) (now : Instant) : Reporter :=
  r.countedFailure now
    { r.breaker with failures := min (r.breaker.failures + 1) Breaker.failureLimit }

/-- Closes the circuit and forgets the failures. -/
def reset (r : Reporter) (now : Instant) : Reporter :=
  let before := r.breaker.circuit
  if before ≠ .closed then r.report now r.breaker.reset before .closed
  else r.become r.breaker.reset

end Reporter

end Dispatch
