/-!
# Reading decimals

Numbers are read from text by a grammar and then rounded once. Exponents far outside of the range of
floating point numbers give infinity or zero without computing the power of ten.
-/

namespace Dispatch.Decimal

/-- The value of a run of decimal digits. -/
def digitsValue (digits : List Char) : Nat :=
  digits.foldl (fun n c => 10 * n + (c.toNat - '0'.toNat)) 0

/-- The floating point number nearest to `m * 10 ^ e`, infinity if that is too large. -/
def nearest (m : Nat) (e : Int) : Float :=
  let lead := (Nat.toDigits 10 m).length + e
  if m = 0 then 0.0
  else if 400 < lead then 1.0 / 0.0
  else if lead < -400 then 0.0
  else Float.ofScientific m (e < 0) e.natAbs

/-- Why a text is no natural number below a bound. -/
inductive NaturalFlaw where
  | empty
  | badDigit
  | tooLarge
deriving DecidableEq, Repr

def NaturalFlaw.message : NaturalFlaw → String
  | empty => "cannot parse integer from empty string"
  | badDigit => "invalid digit found in string"
  | tooLarge => "number too large to fit in target type"

/-- Takes digits into a natural number below `bound`, up to the first character at which that fails. -/
def takeNatural (bound : Nat) : Nat → List Char → Except NaturalFlaw Nat
  | n, [] => .ok n
  | n, c :: rest =>
    if !c.isDigit then .error .badDigit
    else
      let m := 10 * n + (c.toNat - '0'.toNat)
      if m < bound then takeNatural bound m rest else .error .tooLarge

/-- Reads a natural number below `bound`: decimal digits after an optional plus sign. -/
def readNatural (bound : Nat) (text : List Char) : Except NaturalFlaw Nat :=
  match text with
  | [] => .error .empty
  | first :: rest =>
    let digits := if first = '+' then rest else text
    if digits.isEmpty then .error .badDigit else takeNatural bound 0 digits

/-- Why a text is no floating point number. -/
inductive FloatFlaw where
  | empty
  | badLiteral
deriving DecidableEq, Repr

def FloatFlaw.message : FloatFlaw → String
  | empty => "cannot parse float from empty string"
  | badLiteral => "invalid float literal"

/-- Reads an exponent: nothing, or the mark, an optional sign and at least one digit. -/
def readExponent? : List Char → Option Int
  | [] => some 0
  | mark :: rest =>
    if mark = 'e' || mark = 'E' then
      let (negative, digits) :=
        match rest with
        | '-' :: digits => (true, digits)
        | '+' :: digits => (false, digits)
        | digits => (false, digits)
      if digits.isEmpty || !digits.all Char.isDigit then none
      else
        let n : Int := digitsValue digits
        some (if negative then -n else n)
    else none

/-- Reads digits, at least one of them, with an optional point among them and an optional
exponent after them. -/
def readMagnitude? (text : List Char) : Option Float :=
  let whole := text.takeWhile Char.isDigit
  let afterWhole := text.dropWhile Char.isDigit
  let (fraction, rest) :=
    match afterWhole with
    | '.' :: more => (more.takeWhile Char.isDigit, more.dropWhile Char.isDigit)
    | _ => ([], afterWhole)
  if whole.isEmpty && fraction.isEmpty then none
  else
    (readExponent? rest).map fun e => nearest (digitsValue (whole ++ fraction)) (e - fraction.length)

/-- Reads the words for infinity and for what is no number, in any case. -/
def readWord? (text : List Char) : Option Float :=
  let word := text.map Char.toLower
  if word = ['i', 'n', 'f'] || word = ['i', 'n', 'f', 'i', 'n', 'i', 't', 'y'] then some (1.0 / 0.0)
  else if word = ['n', 'a', 'n'] then some (0.0 / 0.0)
  else none

/-- Reads a floating point number after an optional sign. -/
def readFloat (text : List Char) : Except FloatFlaw Float :=
  let signed : Option (Bool × List Char) :=
    match text with
    | [] => none
    | '-' :: rest => some (true, rest)
    | '+' :: rest => some (false, rest)
    | _ => some (false, text)
  match signed with
  | none => .error .empty
  | some (negative, body) =>
    match readMagnitude? body <|> readWord? body with
    | none => .error .badLiteral
    | some x => .ok (if negative then -x else x)

end Dispatch.Decimal
