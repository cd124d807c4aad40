import Dispatch.Json.Lexeme
/-!
# Skipping values

The value of an unknown field is skipped. It has to follow the grammar, and nothing else is asked of
it: its numbers may be out of range and its texts may hold half of a pair. Every value is at least
one character long, so the length of the text bounds the depth of the values in it.
-/

namespace Dispatch.Json

mutual

/-- Skips one value; `depth` bounds how many values lie in one another or follow one another. -/
def skipValue : Nat → List Char → Option (List Char)
  | 0, _ => none
  | depth + 1, text =>
    match dropGaps text with
    | [] => none
    | '"' :: rest => skipQuoted rest
    | '[' :: rest =>
      match dropGaps rest with
      | ']' :: rest => some rest
      | rest => skipItems depth rest
    | '\x7b' :: rest =>
      match dropGaps rest with
      | '\x7d' :: rest => some rest
      | rest => skipMembers depth rest
    | c :: rest =>
      if c = 'n' then afterWord? ['u', 'l', 'l'] rest
      else if c = 't' then afterWord? ['r', 'u', 'e'] rest
      else if c = 'f' then afterWord? ['a', 'l', 's', 'e'] rest
      else if c = '-' || c.isDigit then Number.skip? (c :: rest)
      else none

/-- Skips the items of a sequence, of which at least one follows, and its end. -/
def skipItems : Nat → List Char → Option (List Char)
  | 0, _ => none
  | depth + 1, text =>
    match skipValue depth text with
    | none => none
    | some rest =>
      match dropGaps rest with
      | ',' :: rest => skipItems depth rest
      | ']' :: rest => some rest
      | _ => none

/-- Skips the members of a map, of which at least one follows, and its end. -/
def skipMembers : Nat → List Char → Option (List Char)
  | 0, _ => none
  | depth + 1, text =>
    match dropGaps text with
    | '"' :: rest =>
      match (skipQuoted rest).map dropGaps with
      | some (':' :: rest) =>
        match skipValue depth rest with
        | none => none
        | some rest =>
          match dropGaps rest with
          | ',' :: rest => skipMembers depth rest
          | '\x7d' :: rest => some rest
          | _ => none
      | _ => none
    | _ => none

end

/-- The rest of a text after its first value. -/
def skip? (text : List Char) : Option (List Char) := skipValue (2 * text.length + 2) text

end Dispatch.Json
