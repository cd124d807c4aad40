/-!
# Shortest decimals

A binary number is written with the fewest digits that still name it among its neighbours.
`Binary.shortest` searches the grids of one, two, … significant digits for a decimal in the interval
of reals that round to the number; the first grid with a hit decides, and of two hits the nearer one
is taken.
-/

namespace Dispatch.Decimal

/-- A finite, non-negative binary number, `mantissa * 2 ^ exponent`. -/
structure Binary where
  mantissa : Nat
  exponent : Int
  /-- Whether the neighbour below is half as far away as the one above. -/
  narrowBelow : Bool
deriving DecidableEq, Repr

/-- A decimal number, `digits * 10 ^ exponent`. -/
structure Scaled where
  digits : Nat
  exponent : Int
deriving DecidableEq, Repr

/-- Which of two equally near decimals is taken. -/
inductive Tie where
  | toEven
  | up
deriving DecidableEq, Repr

/-- The magnitude of a double by its bits; the bits of infinities and of NaN name no number. -/
def Binary.ofBits (bits : UInt64) : Binary :=
  let biased := ((bits >>> 52) &&& 0x7FF).toNat
  let fraction := (bits &&& 0xFFFFFFFFFFFFF).toNat
  if biased = 0 then ⟨fraction, -1074, false⟩
  else ⟨1 <<< 52 + fraction, biased - 1075, fraction = 0 && 1 < biased⟩

/-- Compares `a * 10 ^ i` with `b * 2 ^ j`. -/
def compareScaled (a : Nat) (i : Int) (b : Nat) (j : Int) : Ordering :=
  compare ((a * Nat.pow 10 i.toNat) <<< (-j).toNat) ((b * Nat.pow 10 (-i).toNat) <<< j.toNat)

namespace Binary

/-- Whether a decimal lies among the reals that round to `x`, to nearest with ties to even. -/
def readsBack (x : Binary) (d : Scaled) : Bool :=
  let low := if x.narrowBelow then 4 * x.mantissa - 1 else 4 * x.mantissa - 2
  let high := 4 * x.mantissa + 2
  let closed := x.mantissa % 2 = 0
  let atLow := compareScaled d.digits d.exponent low (x.exponent - 2)
  let atHigh := compareScaled d.digits d.exponent high (x.exponent - 2)
  (atLow = .gt || (closed && atLow = .eq)) && (atHigh = .lt || (closed && atHigh = .eq))

/-- The least power of ten above `x`, for an `x` that is not zero. -/
def scale (x : Binary) : Int :=
  let guess := Int.fdiv ((x.mantissa.log2 + x.exponent) * 30103) 100000
  let above (k : Int) : Bool := compareScaled 1 k x.mantissa x.exponent = .gt
  if above guess then guess
  else if above (guess + 1) then guess + 1
  else guess + 2

/-- The largest multiple of `10 ^ e` that is at most `x`, counted in that unit. -/
def floorAt (x : Binary) (e : Int) : Nat :=
  ((x.mantissa * Nat.pow 10 (-e).toNat) <<< x.exponent.toNat) /
    (Nat.pow 10 e.toNat <<< (-x.exponent).toNat)

/-- The decimal on the grid of `10 ^ e` that reads back to `x`, if one does. -/
def onGrid? (tie : Tie) (x : Binary) (e : Int) : Option Scaled :=
  let below := x.floorAt e
  match x.readsBack ⟨below, e⟩, x.readsBack ⟨below + 1, e⟩ with
  | true, true =>
    match compareScaled (2 * below + 1) e (2 * x.mantissa) x.exponent with
    | .gt => some ⟨below, e⟩
    | .lt => some ⟨below + 1, e⟩
    | .eq =>
      match tie with
      | .up => some ⟨below + 1, e⟩
      | .toEven => if below % 2 = 0 then some ⟨below, e⟩ else some ⟨below + 1, e⟩
  | true, false => some ⟨below, e⟩
  | false, true => some ⟨below + 1, e⟩
  | false, false => none

/-- The exact decimal value of `x`. -/
def exact (x : Binary) : Scaled :=
  ⟨(x.mantissa * Nat.pow 5 (-x.exponent).toNat) <<< x.exponent.toNat, min x.exponent 0⟩

end Binary

/-- Moves zeros at the end of the digits into the exponent, at most `fuel` of them. -/
def Scaled.trim : Nat → Scaled → Scaled
  | 0, d => d
  | fuel + 1, d =>
    if d.digits ≠ 0 ∧ d.digits % 10 = 0 then trim fuel ⟨d.digits / 10, d.exponent + 1⟩ else d

/-- The decimal with the fewest digits that reads back to `x`; zero is written as zero. -/
def Binary.shortest (tie : Tie) (x : Binary) : Scaled :=
  if x.mantissa = 0 then ⟨0, 0⟩
  else
    let k := x.scale
    let found := (List.range 17).findSome? fun (n : Nat) => x.onGrid? tie (k - (n + 1))
    (found.getD x.exact).trim 400

end Dispatch.Decimal
