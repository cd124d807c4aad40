import Dispatch.Config
import Dispatch.Fault
import Dispatch.Log
/-!
# The circuit breaker

The breaker counts failures in a row. When they reach a threshold the circuit opens, and work is
refused until the reset timeout has passed. The first request after that makes the circuit half
open: work is let through again, enough successes close the circuit, and one failure opens it anew.
-/

namespace Dispatch

/-- What the circuit does with work. -/
inductive Circuit where
  | closed
  | opened
  /-- Work passes on trial. -/
  | halfOpen
deriving DecidableEq, Repr

namespace Circuit

/-- The name of a state of the circuit. -/
def text : Circuit → String
  | closed => "closed"
  | opened => "open"
  | halfOpen => "half_open"

/-- The name of a state of the circuit as the tag of a record. -/
def tag : Circuit → String
  | closed => "Closed"
  | opened => "Open"
  | halfOpen => "HalfOpen"

def all : List Circuit := [closed, opened, halfOpen]

/-- How grave it is that the circuit comes into a state. -/
def gravity : Circuit → Level
  | opened => .warn
  | _ => .info

end Circuit

/-- A circuit breaker. -/
structure Breaker where
  config : BreakerConfig
  circuit : Circuit := .closed
  /-- Failures since the last success. -/
  failures : Nat := 0
  /-- Successes of the present trial. -/
  successes : Nat := 0
  /-- When the circuit opened, until it is closed again. -/
  openedAt : Option Instant := none
  timesOpened : Nat := 0
  rejections : Nat := 0
deriving DecidableEq, Repr

/-- The counts of a breaker. -/
structure BreakerStats where
  state : Circuit
  /-- Failures since the last success. -/
  consecutiveFailures : Nat
  /-- Successes of the present trial. -/
  halfOpenSuccesses : Nat
  timesOpened : Nat
  rejections : Nat
deriving DecidableEq, Repr

namespace Breaker

/-- The largest count of failures; the count stays there. -/
def failureLimit : Nat := 1 <<< 32 - 1

def isOpen (b : Breaker) : Bool := b.circuit = .opened

/-- How long a circuit that was opened still refuses work, if it does. -/
def remaining? (b : Breaker) (now : Instant) : Option Duration :=
  b.openedAt.bind fun since =>
    let left := b.config.resetTimeout - now.since since
    if left = 0 then none else some left

/-- Asks to let work through: refused while the circuit is open, and the first request after the
reset timeout starts a trial. -/
def acquire (b : Breaker) (now : Instant) : Breaker × Except Fault Unit :=
  if b.circuit = .opened then
    match b.remaining? now with
    | some left => ({ b with rejections := b.rejections + 1 }, .error (.circuitOpen left))
    | none => ({ b with circuit := .halfOpen, successes := 0 }, .ok ())
  else (b, .ok ())

/-- The breaker with its circuit closed. -/
def close (b : Breaker) : Breaker := { b with circuit := .closed, successes := 0, openedAt := none }

/-- Takes note of a success. -/
def onSuccess (b : Breaker) : Breaker :=
  let b := { b with failures := 0 }
  if b.circuit = .halfOpen then
    let b := { b with successes := b.successes + 1 }
    if b.config.successThreshold ≤ b.successes then b.close else b
  else b

/-- The breaker with its circuit opened at an instant. -/
def openAt (b : Breaker) (now : Instant) : Breaker :=
  { b with
    circuit := .opened
    openedAt := some now
    successes := 0
    timesOpened := b.timesOpened + 1 }

/-- Takes note of a failure at an instant. -/
def onFailure (b : Breaker) (now : Instant) : Breaker :=
  let b := { b with failures := min (b.failures + 1) failureLimit }
  match b.circuit with
  | .closed => if b.config.failureThreshold ≤ b.failures then b.openAt now else b
  | .halfOpen => b.openAt now
  | .opened => b

/-- Closes the circuit and forgets the failures. -/
def reset (b : Breaker) : Breaker := { b.close with failures := 0 }

def stats (b : Breaker) : BreakerStats where
  state := b.circuit
  consecutiveFailures := b.failures
  halfOpenSuccesses := b.successes
  timesOpened := b.timesOpened
  rejections := b.rejections

end Breaker

/-- The message about a change of the circuit. -/
def Circuit.changeMessage (before after : Circuit) : String :=
  "circuit breaker " ++ before.text ++ " -> " ++ after.text

/-- Logs a change of the circuit, if there is one. -/
def LogBook.logChange (book : LogBook) (now : Instant) (before after : Circuit) : LogBook :=
  if before = after then book else book.log now after.gravity (before.changeMessage after)

end Dispatch
