import Dispatch.Decimal.Layout
/-!
# Stored data

Values of the data format, and their text. Texts are written between double quotes; quotes,
backslashes and controls are escaped and every other character stands for itself.
-/

namespace Dispatch.Json

/-- A value of the data format. -/
inductive Value where
  | null
  | bool (b : Bool)
  | int (n : Int)
  | float (x : Float)
  | str (s : String)
  | arr (items : List Value)
  /-- A map; its members stand in order. -/
  | obj (members : List (String × Value))

/-- How a character stands in a quoted text. -/
def escape (c : Char) : List Char :=
  match c with
  | '"' => ['\\', '"']
  | '\\' => ['\\', '\\']
  | '\n' => ['\\', 'n']
  | '\r' => ['\\', 'r']
  | '\t' => ['\\', 't']
  | '\x08' => ['\\', 'b']
  | '\x0c' => ['\\', 'f']
  | c =>
    if c.toNat < 32 then
      ['\\', 'u', '0', '0', if c.toNat < 16 then '0' else '1', Nat.digitChar (c.toNat % 16)]
    else [c]

def quote (s : String) : List Char := '"' :: s.toList.flatMap escape ++ ['"']

def integer (n : Int) : List Char :=
  if n < 0 then '-' :: Nat.toDigits 10 n.natAbs else Nat.toDigits 10 n.natAbs

mutual

/-- The characters of a value, without any white space. -/
def Value.chars : Value → List Char
  | .null => ['n', 'u', 'l', 'l']
  | .bool true => ['t', 'r', 'u', 'e']
  | .bool false => ['f', 'a', 'l', 's', 'e']
  | .int n => integer n
  | .float x => (Decimal.Layout.json.text x).toList
  | .str s => quote s
  | .arr items => '[' :: Value.itemChars items
  | .obj members => '\x7b' :: Value.memberChars members

/-- The characters of the items of a sequence, up to the closing bracket. -/
def Value.itemChars : List Value → List Char
  | [] => [']']
  | [item] => item.chars ++ [']']
  | item :: rest => item.chars ++ ',' :: Value.itemChars rest

/-- The characters of the members of a map, up to the closing brace. -/
def Value.memberChars : List (String × Value) → List Char
  | [] => ['\x7d']
  | [(key, value)] => quote key ++ ':' :: (value.chars ++ ['\x7d'])
  | (key, value) :: rest => quote key ++ ':' :: (value.chars ++ ',' :: Value.memberChars rest)

end

def Value.text (v : Value) : String := String.ofList v.chars

end Dispatch.Json
