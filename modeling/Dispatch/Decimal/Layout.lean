import Dispatch.Decimal.Shortest
/-!
# Laying out decimals

A floating point number is written positionally where the exponent of its leading digit lies in a
range, and with an explicit exponent elsewhere. What the formats of this library decide differently
is one `Layout` each: `Layout.display` for texts and `Layout.json` for stored data.
-/

namespace Dispatch.Decimal

/-- The decisions of a format for floating point numbers. -/
structure Layout where
  /-- The least exponent of the leading digit that is written positionally. -/
  plainFrom : Int
  /-- The greatest exponent of the leading digit that is written positionally. -/
  plainUpTo : Int
  signedExponent : Bool
  /-- The least number of digits of an exponent. -/
  exponentWidth : Nat
  /-- Which of two equally near decimals is taken. -/
  tie : Tie

namespace Layout

/-- Texts are positional from `0.0001` up to sixteen digits before the point, exponents are bare,
and of two equally near decimals the larger is written. -/
def display : Layout := ⟨-4, 15, false, 1, .up⟩

/-- Stored numbers are positional from `0.00001` up to sixteen digits before the point, exponents
have a sign and at least two digits, and of two equally near decimals the even one is written. -/
def json : Layout := ⟨-5, 15, true, 2, .toEven⟩

def exponentText (layout : Layout) (e : Int) : String :=
  let digits := Nat.toDigits 10 e.natAbs
  let padded := List.replicate (layout.exponentWidth - digits.length) '0' ++ digits
  let sign := if e < 0 then "-" else if layout.signedExponent then "+" else ""
  "e" ++ sign ++ String.ofList padded

/-- The text of a decimal without a sign. -/
def scaledText (layout : Layout) (d : Scaled) : String :=
  let digits := Nat.toDigits 10 d.digits
  let size : Int := digits.length
  let lead := size - 1 + d.exponent
  if layout.plainFrom ≤ lead ∧ lead ≤ layout.plainUpTo then
    if 0 ≤ d.exponent then
      String.ofList (digits ++ List.replicate d.exponent.toNat '0') ++ ".0"
    else if 0 ≤ lead then
      let (whole, fraction) := digits.splitAt (lead + 1).toNat
      String.ofList whole ++ "." ++ String.ofList fraction
    else
      "0." ++ String.ofList (List.replicate (-lead - 1).toNat '0' ++ digits)
  else
    match digits with
    | [] => ""
    | [c] => String.ofList [c] ++ layout.exponentText lead
    | c :: rest => String.ofList [c] ++ "." ++ String.ofList rest ++ layout.exponentText lead

def text (layout : Layout) (x : Float) : String :=
  if x.isNaN then "NaN"
  else
    let sign := if x.toBits >>> 63 = 1 then "-" else ""
    if x.isInf then sign ++ "inf"
    else if x == 0.0 then sign ++ "0.0"
    else sign ++ layout.scaledText ((Binary.ofBits x.toBits).shortest layout.tie)

end Layout

end Dispatch.Decimal
