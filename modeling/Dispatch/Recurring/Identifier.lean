import Dispatch.Json.Reader
import Dispatch.Json.Value
/-!
# Identifiers

An identifier has 128 bits. It is written as 32 hexadecimal digits in groups of 8, 4, 4, 4 and 12;
it may be read without the hyphens, between braces, or after `urn:uuid:`, and in any case.
-/

namespace Dispatch

/-- An identifier of 128 bits. -/
structure Identifier where
  bits : Fin (1 <<< 128)
deriving DecidableEq, Repr

namespace Identifier

/-- The identifier of a number, of which the low 128 bits count. -/
def ofNat (n : Nat) : Identifier := ⟨n % 1 <<< 128, Nat.mod_lt n (by decide)⟩

def version (id : Identifier) : Nat := (id.bits.val >>> 76) % 16

/-- The identifier of version 4 with the number `n` in its low 62 bits. -/
def numbered (n : Nat) : Identifier := .ofNat (4 <<< 76 + 2 <<< 62 + n % 1 <<< 62)

def digits (id : Identifier) : List Char :=
  let digits := Nat.toDigits 16 id.bits.val
  List.replicate (32 - digits.length) '0' ++ digits

/-- The sizes of the groups of digits. -/
def groups : List Nat := [8, 4, 4, 4, 12]

/-- Puts hyphens between groups of characters. -/
def hyphenate : List Nat → List Char → List Char
  | [], cs => cs
  | [_], cs => cs
  | n :: more, cs => cs.take n ++ '-' :: hyphenate more (cs.drop n)

/-- Takes the hyphens out from between groups of characters. -/
def unhyphenate? : List Nat → List Char → Option (List Char)
  | [], cs => some cs
  | [_], cs => some cs
  | n :: more, cs =>
    match cs.drop n with
    | '-' :: rest => (unhyphenate? more rest).map (cs.take n ++ ·)
    | _ => none

def text (id : Identifier) : String := String.ofList (hyphenate groups id.digits)

def ofDigits? (digits : List Char) : Option Identifier :=
  if digits.length = 32 then
    (digits.mapM Json.hexValue?).map fun ds => .ofNat (ds.foldl (16 * · + ·) 0)
  else none

def ofHyphenated? (cs : List Char) : Option Identifier :=
  unhyphenate? groups cs >>= ofDigits?

/-- The text before the hyphenated form of a resource name. -/
def resourceMark : List Char := "urn:uuid:".toList

/-- Reads an identifier in any of its forms. -/
def ofText? (text : String) : Option Identifier :=
  let cs := text.toList
  match cs.length with
  | 32 => ofDigits? cs
  | 36 => ofHyphenated? cs
  | 38 =>
    if cs.head? = some '\x7b' ∧ cs.getLast? = some '\x7d' then ofHyphenated? (cs.tail.dropLast)
    else none
  | 45 =>
    if resourceMark.isPrefixOf cs then ofHyphenated? (cs.drop resourceMark.length) else none
  | _ => none

def value (id : Identifier) : Json.Value := .str id.text

def read : Json.Reader Identifier := fun cs =>
  match Json.Reader.quoted "a UUID string" cs with
  | .error flaw => .error flaw
  | .ok (text, rest) =>
    match ofText? text with
    | some id => .ok (id, rest)
    | none => .error .badIdentifier

end Identifier

end Dispatch
