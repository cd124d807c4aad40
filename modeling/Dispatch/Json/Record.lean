import Dispatch.Json.Reader
/-!
# Reading records

A `RecordForm` describes how a record is stored: its name, its fields in order, and what is taken
for fields that are not there. A map may list the fields in any order and may hold others, but no
field twice. A sequence holds the fields in order; a lenient record may end early.
-/

namespace Dispatch.Json

/-- A field of a stored record of type `σ`. -/
structure Field (σ : Type) where
  name : String
  /-- Reads the value of the field into a record. -/
  read : Reader (σ → σ)
  isOptional : Bool

namespace Field

variable {σ α : Type}

/-- A field with a reader and a way to set it. -/
def of (name : String) (read : Reader α) (set : α → σ → σ) : Field σ :=
  ⟨name, read.map set, false⟩

/-- A field that a map may lack. -/
def optional (name : String) (read : Reader α) (set : Option α → σ → σ) : Field σ :=
  ⟨name, read.optional.map set, true⟩

end Field

/-- How a record is stored. -/
structure RecordForm (σ : Type) where
  name : String
  start : σ
  /-- Whether every field may be missing, and then stays as it is in `start`. -/
  isLenient : Bool
  /-- The fields in order. -/
  fields : List (Field σ)

namespace RecordForm

variable {σ : Type}

/-- Checks that all fields that a map has to have were seen. -/
def complete (form : RecordForm σ) (seen : List String) : Except Flaw Unit :=
  match form.fields.find? fun f => !(form.isLenient || f.isOptional || seen.contains f.name) with
  | some f => .error (.mismatch (.missingField f.name))
  | none => .ok ()

/-- Reads one member of a map into a record, from its name on. -/
def readMember (form : RecordForm σ) (s : σ) (seen : List String) (text : List Char) :
    Except Flaw (σ × List String × List Char) :=
  match dropGaps text with
  | '"' :: rest =>
    match readQuoted none rest with
    | none => .error .malformed
    | some (name, rest) =>
      let name := String.ofList name
      match form.fields.find? (·.name = name) with
      | some f =>
        if seen.contains name then .error (.mismatch (.duplicateField name))
        else do
          let rest ← Reader.colon rest
          let (set, rest) ← f.read rest
          pure (set s, name :: seen, rest)
      | none => do
        let rest ← Reader.colon rest
        let rest ← wellFormed (skip? rest)
        pure (s, seen, rest)
  | _ => .error .malformed

/-- Reads members up to the end of a map, of which at least one follows. -/
def readMembers (form : RecordForm σ) : Nat → σ → List String → Reader σ
  | 0, _, _, _ => .error .malformed
  | count + 1, s, seen, text =>
    match form.readMember s seen text with
    | .error flaw => .error flaw
    | .ok (s, seen, rest) =>
      match dropGaps rest with
      | ',' :: rest => readMembers form count s seen rest
      | '\x7d' :: rest => (form.complete seen).map fun () => (s, rest)
      | _ => .error .malformed

/-- The wording of a record in a complaint about its length. -/
def lengthText (form : RecordForm σ) : String :=
  "struct " ++ form.name ++ " with " ++ toString form.fields.length ++
    (if form.fields.length = 1 then " element" else " elements")

/-- Reads the items of a sequence into the fields of a record, and the end of the sequence; `index`
is the place of the next item. -/
def readItems (form : RecordForm σ) : List (Field σ) → Nat → σ → Reader σ
  | [], _, s, text =>
    match dropGaps text with
    | ']' :: rest => .ok (s, rest)
    | _ => .error .malformed
  | f :: more, index, s, text =>
    match dropGaps text with
    | [] => .error .malformed
    | c :: rest =>
      if c = ']' then
        if form.isLenient then .ok (s, rest)
        else .error (.mismatch (.wrongLength index form.lengthText))
      else if index ≠ 0 ∧ c ≠ ',' then .error .malformed
      else do
        let (set, rest) ← f.read (if index = 0 then c :: rest else rest)
        readItems form more (index + 1) (set s) rest

def read (form : RecordForm σ) : Reader σ := fun text =>
  match dropGaps text with
  | '[' :: rest => form.readItems form.fields 0 form.start rest
  | '\x7b' :: rest =>
    match dropGaps rest with
    | '\x7d' :: rest => (form.complete []).map fun () => (form.start, rest)
    | rest => form.readMembers (rest.length + 1) form.start [] rest
  | text => .error (wrongType ("struct " ++ form.name) text)

end RecordForm

end Dispatch.Json
