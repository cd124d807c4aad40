import Dispatch.Time
/-!
# The text of a duration

A duration is written in the largest unit of seconds, milliseconds, microseconds and nanoseconds
of which it holds at least one, as an exact decimal: `1.2s`, `5ms`, `999.999µs`, `10ns`.
-/

namespace Dispatch.Duration

/-- The decimal digits of `n`, filled up with zeros on the left to `width` places. -/
def paddedDigits (width n : Nat) : List Char :=
  let digits := Nat.toDigits 10 n
  List.replicate (width - digits.length) '0' ++ digits

/-- A text without the zeros at its end. -/
def dropTrailingZeros (digits : List Char) : List Char :=
  (digits.reverse.dropWhile (· == '0')).reverse

/-- The exact decimal of `n / 10 ^ places`, without a fraction where it has none. -/
def decimalText (n places : Nat) : String :=
  let whole := toString (n / Nat.pow 10 places)
  match dropTrailingZeros (paddedDigits places (n % Nat.pow 10 places)) with
  | [] => whole
  | fraction => whole ++ "." ++ String.ofList fraction

/-- The text of a duration in its largest unit. -/
def text (d : Duration) : String :=
  if second ≤ d then decimalText d 9 ++ "s"
  else if milli ≤ d then decimalText d 6 ++ "ms"
  else if micro ≤ d then decimalText d 3 ++ "µs"
  else toString d ++ "ns"

end Dispatch.Duration
