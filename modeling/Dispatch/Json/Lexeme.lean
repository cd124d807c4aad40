import Dispatch.Decimal.Reading
/-!
# The smallest parts of stored data

Blanks, quoted texts and numbers. Each reader takes one part from the front of the text and gives
it with the rest, or gives nothing where the text breaks the grammar.

A number without a fraction and an exponent is an integer if it fits 64 bits. Any other number is a
significand of at most 64 bits, whose further digits only count as places, times a power of ten.
-/

namespace Dispatch.Json

/-- Whether a character may stand between the parts of a text. -/
def isGap (c : Char) : Bool := c = ' ' || c = '\n' || c = '\t' || c = '\r'

/-- The text from its first character that is no gap. -/
def dropGaps (text : List Char) : List Char := text.dropWhile isGap

/-- The rest of a text after a word that it starts with. -/
def afterWord? (word text : List Char) : Option (List Char) :=
  if word.isPrefixOf text then some (text.drop word.length) else none

/-- The value of a hexadecimal digit. -/
def hexValue? (c : Char) : Option Nat :=
  if '0' ≤ c && c ≤ '9' then some (c.toNat - '0'.toNat)
  else if 'a' ≤ c && c ≤ 'f' then some (c.toNat - 'a'.toNat + 10)
  else if 'A' ≤ c && c ≤ 'F' then some (c.toNat - 'A'.toNat + 10)
  else none

/-- The value of four hexadecimal digits. -/
def hexUnit? (a b c d : Char) : Option Nat := do
  let a ← hexValue? a
  let b ← hexValue? b
  let c ← hexValue? c
  let d ← hexValue? d
  pure (((a * 16 + b) * 16 + c) * 16 + d)

/-- The character that a letter stands for after a backslash. -/
def unescape? : Char → Option Char
  | '"' => some '"'
  | '\\' => some '\\'
  | '/' => some '/'
  | 'b' => some '\x08'
  | 'f' => some '\x0c'
  | 'n' => some '\n'
  | 'r' => some '\r'
  | 't' => some '\t'
  | _ => none

def opensPair (unit : Nat) : Bool := 0xD800 ≤ unit && unit < 0xDC00

def closesPair (unit : Nat) : Bool := 0xDC00 ≤ unit && unit < 0xE000

/-- The character of a pair of 16-bit units. -/
def pairChar (first second : Nat) : Char :=
  Char.ofNat (0x10000 + (first - 0xD800) * 0x400 + (second - 0xDC00))

/-- Puts a character in front of a text that was read. -/
def consChar (c : Char) (read : Option (List Char × List Char)) : Option (List Char × List Char) :=
  read.map fun (text, rest) => (c :: text, rest)

/-- Reads a quoted text up to its closing quote; `opened` is the first unit of a pair that has to be
closed next. -/
def readQuoted (opened : Option Nat) : List Char → Option (List Char × List Char)
  | [] => none
  | c :: rest =>
    if c = '\\' then
      match rest with
      | [] => none
      | e :: rest =>
        if e = 'u' then
          match rest with
          | h₁ :: h₂ :: h₃ :: h₄ :: rest =>
            match opened, hexUnit? h₁ h₂ h₃ h₄ with
            | _, none => none
            | some first, some unit =>
              if closesPair unit then consChar (pairChar first unit) (readQuoted none rest)
              else none
            | none, some unit =>
              if opensPair unit then readQuoted (some unit) rest
              else if closesPair unit then none
              else consChar (Char.ofNat unit) (readQuoted none rest)
          | _ => none
        else
          match opened, unescape? e with
          | none, some d => consChar d (readQuoted none rest)
          | _, _ => none
    else
      match opened with
      | some _ => none
      | none =>
        if c = '"' then some ([], rest)
        else if c.toNat < 32 then none
        else consChar c (readQuoted none rest)

/-- Skips a quoted text up to its closing quote. Pairs of units are not looked at. -/
def skipQuoted : List Char → Option (List Char)
  | [] => none
  | c :: rest =>
    if c = '\\' then
      match rest with
      | [] => none
      | e :: rest =>
        if e = 'u' then
          match rest with
          | h₁ :: h₂ :: h₃ :: h₄ :: rest =>
            if (hexUnit? h₁ h₂ h₃ h₄).isSome then skipQuoted rest else none
          | _ => none
        else if (unescape? e).isSome then skipQuoted rest
        else none
    else if c = '"' then some rest
    else if c.toNat < 32 then none
    else skipQuoted rest

/-- A number as it stands in a text. -/
inductive Number where
  /-- An integer of 64 bits, with or without a sign. -/
  | integer (n : Int)
  | floating (x : Float)

namespace Number

/-- The first number that a significand cannot hold. -/
def significandBound : Nat := 1 <<< 64

/-- Takes digits into a significand as long as it can hold them, and gives the digits left. -/
def takeDigits : Nat → List Char → Nat × List Char
  | n, [] => (n, [])
  | n, c :: rest =>
    let m := 10 * n + (c.toNat - '0'.toNat)
    if m < significandBound then takeDigits m rest else (n, c :: rest)

/-- The greatest exponent of ten that a floating point number can hold. -/
def greatestPower : Nat := 308

/-- The floating point number nearest to a power of ten. -/
def powerOfTen (e : Nat) : Float := Float.ofScientific 1 false e

/-- Divides by a power of ten, in two steps where one would be out of range. -/
def shrink (x : Float) (e : Nat) : Float :=
  if e ≤ greatestPower then x / powerOfTen e
  else if e ≤ 2 * greatestPower then x / powerOfTen greatestPower / powerOfTen (e - greatestPower)
  else 0.0

/-- The floating point number `n * 10 ^ e`, unless it is out of range. -/
def scale? (n : Nat) (e : Int) : Option Float :=
  let x := n.toUInt64.toFloat
  if e < 0 then some (shrink x (-e).toNat)
  else if e.toNat ≤ greatestPower then
    let y := x * powerOfTen e.toNat
    if y.isInf then none else some y
  else if n = 0 then some x
  else none

/-- The largest exponent that is computed with. -/
def exponentLimit : Nat := 1 <<< 31 - 1

/-- Reads the digits of an exponent of ten whose sign was read. -/
def exponentDigits? (negative : Bool) (text : List Char) : Option (Bool × Nat × List Char) :=
  match text.takeWhile Char.isDigit with
  | [] => none
  | digits => some (negative, Decimal.digitsValue digits, text.dropWhile Char.isDigit)

/-- Reads an exponent of ten after its mark: whether it is negative, and its digits. -/
def readExponent? (text : List Char) : Option (Bool × Nat × List Char) :=
  match text with
  | '-' :: rest => exponentDigits? true rest
  | '+' :: rest => exponentDigits? false rest
  | text => exponentDigits? false text

/-- Reads the exponent of a number, if it has one, and computes the number. -/
def readScaled? (n : Nat) (places : Int) (text : List Char) : Option (Float × List Char) :=
  match text with
  | 'e' :: rest | 'E' :: rest =>
    match readExponent? rest with
    | none => none
    | some (negative, e, rest) =>
      if exponentLimit < e then
        if n = 0 || negative then some (0.0, rest) else none
      else (scale? n (if negative then places - e else places + e)).map (·, rest)
  | text => (scale? n places).map (·, text)

/-- The digits before the point of a number: no zero stands before another digit. -/
def readWhole? (text : List Char) : Option (List Char × List Char) :=
  match text.takeWhile Char.isDigit with
  | [] => none
  | '0' :: _ :: _ => none
  | digits => some (digits, text.dropWhile Char.isDigit)

/-- A number without a fraction and an exponent. -/
def whole? (negative : Bool) (n : Nat) (dropped : Nat) : Option Number :=
  if dropped = 0 && !negative then some (.integer n)
  else if dropped = 0 && negative && 0 < n && n ≤ 1 <<< 63 then some (.integer (-n))
  else (scale? n dropped).map fun x => .floating (if negative then -x else x)

/-- A floating point number with its sign. -/
def signed (negative : Bool) (x : Float) : Number := .floating (if negative then -x else x)

/-- Reads the rest of a number behind its digits before the point, and computes the number. -/
def readBehind? (negative : Bool) (digits : List Char) (text : List Char) :
    Option (Number × List Char) :=
  let (n, left) := takeDigits 0 digits
  match text with
  | '.' :: rest =>
    match rest.takeWhile Char.isDigit with
    | [] => none
    | fraction =>
      let (n, more) := takeDigits n fraction
      let places : Int := left.length - (fraction.length - more.length)
      (readScaled? n places (rest.dropWhile Char.isDigit)).map fun (x, rest) =>
        (signed negative x, rest)
  | 'e' :: _ | 'E' :: _ =>
    (readScaled? n left.length text).map fun (x, rest) => (signed negative x, rest)
  | text => (whole? negative n left.length).map (·, text)

/-- Reads a number whose sign was read. -/
def readUnsigned? (negative : Bool) (text : List Char) : Option (Number × List Char) :=
  match readWhole? text with
  | none => none
  | some (digits, rest) => readBehind? negative digits rest

def read? (text : List Char) : Option (Number × List Char) :=
  match text with
  | '-' :: rest => readUnsigned? true rest
  | text => readUnsigned? false text

/-- Skips the digits behind the point of a number, if it has one. -/
def skipFraction? (text : List Char) : Option (List Char) :=
  match text with
  | '.' :: rest =>
    if (rest.takeWhile Char.isDigit).isEmpty then none else some (rest.dropWhile Char.isDigit)
  | text => some text

/-- Skips the exponent of a number, if it has one. -/
def skipExponent? (text : List Char) : Option (List Char) :=
  match text with
  | 'e' :: rest | 'E' :: rest => (readExponent? rest).map fun (_, _, rest) => rest
  | text => some text

/-- Skips a number by its grammar alone. -/
def skip? (text : List Char) : Option (List Char) :=
  let text := match text with
    | '-' :: rest => rest
    | text => text
  match readWhole? text with
  | none => none
  | some (_, rest) => (skipFraction? rest).bind skipExponent?

end Number

end Dispatch.Json
