/-!
# Time

Durations and instants are counted in nanoseconds. An instant is an offset from the origin of the
time line and may lie before it. Durations and instants are bounded: `Duration.longest` and
`Instant.latest` are the last values that can be held, and `Instant.add?` says when a sum passes
the end of the time line.
-/

namespace Dispatch

/-- The sum of a number for each item of a list. -/
def sumOf {β : Type} (f : β → Nat) : List β → Nat
  | [] => 0
  | b :: rest => f b + sumOf f rest

/-- A length of time in nanoseconds. -/
abbrev Duration := Nat

/-- A point on the time line, in nanoseconds after its origin. -/
abbrev Instant := Int

namespace Duration

/-- Nanoseconds in a microsecond. -/
def micro : Duration := 1000

/-- Nanoseconds in a millisecond. -/
def milli : Duration := 1000000

/-- Nanoseconds in a second. -/
def second : Duration := 1000000000

/-- The longest duration: one nanosecond short of `2 ^ 64` seconds. -/
def longest : Duration := 1 <<< 64 * second - 1

/-- The duration of `n` milliseconds. -/
def ofMillis (n : Nat) : Duration := n * milli

/-- The largest value of a 64-bit counter, at which counts of time units are capped. -/
def countLimit : Nat := 1 <<< 64 - 1

/-- Whole microseconds, capped at `countLimit`. -/
def micros (d : Duration) : Nat := min (d / micro) countLimit

/-- Whole milliseconds, capped at `countLimit`. -/
def millis (d : Duration) : Nat := min (d / milli) countLimit

/-- Whole nanoseconds, capped at `countLimit`. -/
def nanos (d : Duration) : Nat := min d countLimit

end Duration

namespace Instant

/-- The last instant of the time line: one nanosecond short of `2 ^ 63` seconds. -/
def latest : Instant := Int.ofNat (1 <<< 63 * Duration.second) - 1

/-- How far ahead an instant is set when the one asked for lies beyond `latest`: 365 days. -/
def farAhead : Duration := 365 * 24 * 60 * 60 * Duration.second

/-- The instant `d` after `t`, unless it lies beyond the end of the time line. -/
def add? (t : Instant) (d : Duration) : Option Instant :=
  if t + d ≤ latest then some (t + d) else none

/-- The instant `d` after `now`, or a year after `now` if that one cannot be held. -/
def after (now : Instant) (d : Duration) : Instant :=
  (add? now d).getD (now + farAhead)

/-- The time from `earlier` to `t`, zero if `earlier` is the later one. -/
def since (t earlier : Instant) : Duration := (t - earlier).toNat

/-- The earlier of two instants of which either may be missing. -/
def earliest? : Option Instant → Option Instant → Option Instant
  | some a, some b => some (min a b)
  | some a, none => some a
  | none, b => b

/-- The reading of the wall clock at the origin of the time line, in milliseconds. -/
def wallOrigin : Nat := 1700000000000

/-- The wall clock at `t`, in whole milliseconds; it reads zero before its own epoch. -/
def wallMillis (t : Instant) : Nat := (Int.fdiv t Duration.milli + wallOrigin).toNat

end Instant

end Dispatch
