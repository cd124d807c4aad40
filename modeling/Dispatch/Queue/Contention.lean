import Dispatch.Time
/-!
# Contention

How often the locks of a queue were taken, how often that meant a wait, and how long the waits were
in all. The counts are taken in windows: looking at them sets them back to zero.
-/

namespace Dispatch

/-- The counts of one window. -/
structure ContentionWindow where
  operations : Nat
  contended : Nat
  wait : Duration
deriving DecidableEq, Repr

/-- Counts the waits for the locks of a queue. -/
structure Contention where
  operations : Nat := 0
  contended : Nat := 0
  /-- Nanoseconds of all waits, in a counter of 64 bits. -/
  waitNanos : Nat := 0
deriving DecidableEq, Repr

namespace Contention

def record (c : Contention) (n : Nat) : Contention := { c with operations := c.operations + n }

def recordWait (c : Contention) (waited : Duration) : Contention :=
  { c with
    contended := c.contended + 1
    waitNanos := (c.waitNanos + waited.nanos) % (Duration.countLimit + 1) }

/-- The counts since the last look at them. -/
def window (c : Contention) : ContentionWindow := ⟨c.operations, c.contended, c.waitNanos⟩

def clear (_ : Contention) : Contention := {}

end Contention

end Dispatch
