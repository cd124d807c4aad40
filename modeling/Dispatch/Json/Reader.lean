import Dispatch.Json.Flaw
import Dispatch.Json.Lexeme
import Dispatch.Json.Skip
/-!
# Reading typed values

A reader takes a value of one type from the front of a text. Readers report the first flaw on their
way: a value of a wrong kind is reported before anything that follows it is looked at.

A record is written as a map from field names to values, of which unknown ones are skipped, or as a
sequence of the values of its fields in order. A name out of a choice is written as a text, or as a
map from that name to nothing.
-/

namespace Dispatch.Json

/-- Takes a value from the front of a text. -/
abbrev Reader (α : Type) := List Char → Except Flaw (α × List Char)

/-- What was read, or else that the text is malformed. -/
def wellFormed {α : Type} : Option α → Except Flaw α
  | some a => .ok a
  | none => .error .malformed

/-- A complaint about a value of another kind than expected, if a word stands where it starts. -/
def wrongWord (word : List Char) (found : Found) (expected : String) (text : List Char) : Flaw :=
  match afterWord? word text with
  | some _ => .mismatch (.wrongType found expected)
  | none => .malformed

/-- The complaint about the value at the front of a text, which is of another kind than expected. -/
def wrongType (expected : String) (text : List Char) : Flaw :=
  match text with
  | [] => .malformed
  | c :: rest =>
    if c = 'n' then wrongWord ['n', 'u', 'l', 'l'] .null expected text
    else if c = 't' then wrongWord ['t', 'r', 'u', 'e'] (.boolean true) expected text
    else if c = 'f' then wrongWord ['f', 'a', 'l', 's', 'e'] (.boolean false) expected text
    else if c = '"' then
      match readQuoted none rest with
      | some (s, _) => .mismatch (.wrongType (.string (String.ofList s)) expected)
      | none => .malformed
    else if c = '[' then .mismatch (.wrongType .sequence expected)
    else if c = '\x7b' then .mismatch (.wrongType .map expected)
    else if c = '-' || c.isDigit then
      match Number.read? text with
      | some (.integer n, _) => .mismatch (.wrongType (.integer n) expected)
      | some (.floating x, _) => .mismatch (.wrongType (.floating x) expected)
      | none => .malformed
    else .malformed

namespace Reader

variable {α : Type}

def map {β : Type} (f : α → β) (read : Reader α) : Reader β := fun text =>
  match read text with
  | .ok (a, rest) => .ok (f a, rest)
  | .error flaw => .error flaw

def startsNumber : List Char → Bool
  | c :: _ => c = '-' || c.isDigit
  | [] => false

/-- Reads a natural number below `bound`; `word` names the numbers that are expected. -/
def natural (word : String) (bound : Nat) : Reader Nat := fun text =>
  let text := dropGaps text
  if startsNumber text then
    match Number.read? text with
    | none => .error .malformed
    | some (.floating x, _) => .error (.mismatch (.wrongType (.floating x) word))
    | some (.integer n, rest) =>
      if 0 ≤ n ∧ n < bound then .ok (n.toNat, rest)
      else .error (.mismatch (.wrongValue (.integer n) word))
  else .error (wrongType word text)

def nat8 : Reader Nat := natural "u8" (1 <<< 8)

def nat32 : Reader Nat := natural "u32" (1 <<< 32)

def nat64 : Reader Nat := natural "u64" (1 <<< 64)

def size : Reader Nat := natural "usize" (1 <<< 64)

/-- Reads a natural number of 128 bits, of which only the digits are taken. -/
def nat128 : Reader Nat := fun text =>
  match Number.readWhole? (dropGaps text) with
  | none => .error .malformed
  | some (digits, rest) =>
    let n := Decimal.digitsValue digits
    if n < 1 <<< 128 then .ok (n, rest) else .error .malformed

/-- Reads a number as a floating point number. -/
def float : Reader Float := fun text =>
  let text := dropGaps text
  if startsNumber text then
    match Number.read? text with
    | none => .error .malformed
    | some (.floating x, rest) => .ok (x, rest)
    | some (.integer n, rest) =>
      let x := n.natAbs.toUInt64.toFloat
      .ok (if n < 0 then -x else x, rest)
  else .error (wrongType "f64" text)

def boolean : Reader Bool := fun text =>
  match dropGaps text with
  | 't' :: rest => (wellFormed (afterWord? ['r', 'u', 'e'] rest)).map (true, ·)
  | 'f' :: rest => (wellFormed (afterWord? ['a', 'l', 's', 'e'] rest)).map (false, ·)
  | text => .error (wrongType "a boolean" text)

/-- Reads a text; `word` names what is expected. -/
def quoted (word : String) : Reader String := fun text =>
  match dropGaps text with
  | '"' :: rest => (wellFormed (readQuoted none rest)).map fun (s, rest) => (String.ofList s, rest)
  | text => .error (wrongType word text)

def string : Reader String := quoted "a string"

def unit : Reader Unit := fun text =>
  match dropGaps text with
  | 'n' :: rest => (wellFormed (afterWord? ['u', 'l', 'l'] rest)).map ((), ·)
  | text => .error (wrongType "unit" text)

/-- Reads a value, or nothing in its place. -/
def optional (read : Reader α) : Reader (Option α) := fun text =>
  match dropGaps text with
  | 'n' :: rest => (wellFormed (afterWord? ['u', 'l', 'l'] rest)).map (none, ·)
  | text => map some read text

/-- Reads items up to the end of a sequence, of which at least one follows. -/
def itemsFrom (read : Reader α) : Nat → Reader (List α)
  | 0, _ => .error .malformed
  | count + 1, text =>
    match read text with
    | .error flaw => .error flaw
    | .ok (item, rest) =>
      match dropGaps rest with
      | ',' :: rest => map (item :: ·) (itemsFrom read count) rest
      | ']' :: rest => .ok ([item], rest)
      | _ => .error .malformed

def list (read : Reader α) : Reader (List α) := fun text =>
  match dropGaps text with
  | '[' :: rest =>
    match dropGaps rest with
    | ']' :: rest => .ok ([], rest)
    | rest => itemsFrom read (rest.length + 1) rest
  | text => .error (wrongType "a sequence" text)

def named (known : List (String × α)) (name : String) : Except Flaw α :=
  match known.lookup name with
  | some a => .ok a
  | none => .error (.mismatch (.unknownVariant name (known.map Prod.fst)))

def colon (text : List Char) : Except Flaw (List Char) :=
  match dropGaps text with
  | ':' :: rest => .ok rest
  | _ => .error .malformed

/-- Reads one of the known names. -/
def variant (known : List (String × α)) : Reader α := fun text =>
  match dropGaps text with
  | '"' :: rest => do
    let (s, rest) ← wellFormed (readQuoted none rest)
    let a ← named known (String.ofList s)
    pure (a, rest)
  | '\x7b' :: rest => do
    let (s, rest) ← quoted "variant identifier" rest
    let a ← named known s
    let rest ← colon rest
    let ((), rest) ← unit rest
    match dropGaps rest with
    | '\x7d' :: rest => pure (a, rest)
    | _ => .error .malformed
  | _ => .error .malformed

def readAll (read : Reader α) (text : String) : Except Flaw α :=
  match read text.toList with
  | .error flaw => .error flaw
  | .ok (a, rest) => if (dropGaps rest).isEmpty then .ok a else .error .malformed

end Reader

end Dispatch.Json
