import Dispatch.Decimal.Layout
import Dispatch.Text.Quoted
import Dispatch.Text.Record
/-!
# What is wrong with stored data

A text is refused because it breaks the grammar, because a value in it is not what the reader
expects at its place, or because an identifier does not follow the form of identifiers. The first
flaw that is met on the way through the text is the one that is reported.
-/

namespace Dispatch.Json

/-- What stands in the text where something else is expected. -/
inductive Found where
  | null
  | boolean (b : Bool)
  | integer (n : Int)
  | floating (x : Float)
  | string (s : String)
  | sequence
  | map

def Found.text : Found → String
  | null => "null"
  | boolean b => "boolean `" ++ Text.truth b ++ "`"
  | integer n => "integer `" ++ toString n ++ "`"
  | floating x => "floating point `" ++ Decimal.Layout.json.text x ++ "`"
  | string s => "string " ++ Text.quoted s
  | sequence => "sequence"
  | map => "map"

/-- How a value differs from what is expected. -/
inductive Mismatch where
  | wrongType (found : Found) (expected : String)
  /-- It is of the right kind and out of range. -/
  | wrongValue (found : Found) (expected : String)
  /-- A sequence that stands for a record is too short. -/
  | wrongLength (length : Nat) (expected : String)
  /-- A name is none of the known ones. -/
  | unknownVariant (name : String) (known : List String)
  | missingField (name : String)
  | duplicateField (name : String)

def tick (name : String) : String := "`" ++ name ++ "`"

def choiceText : List String → String
  | [] => "there are no variants"
  | [a] => "expected " ++ tick a
  | [a, b] => "expected " ++ tick a ++ " or " ++ tick b
  | names => "expected one of " ++ ", ".intercalate (names.map tick)

def Mismatch.message : Mismatch → String
  | wrongType found expected => "invalid type: " ++ found.text ++ ", expected " ++ expected
  | wrongValue found expected => "invalid value: " ++ found.text ++ ", expected " ++ expected
  | wrongLength length expected => "invalid length " ++ toString length ++ ", expected " ++ expected
  | unknownVariant name known => "unknown variant " ++ tick name ++ ", " ++ choiceText known
  | missingField name => "missing field " ++ tick name
  | duplicateField name => "duplicate field " ++ tick name

/-- Why a text is refused. -/
inductive Flaw where
  /-- It breaks the grammar, or a number in it is out of all range. -/
  | malformed
  /-- An identifier does not have the form of one. -/
  | badIdentifier
  | mismatch (m : Mismatch)

end Dispatch.Json
