import Dispatch.Config.Environment
/-!
# Variable files

A variable file sets variables line by line, `NAME=text`. Empty lines and lines that start with `#`
say nothing, and so does what follows a `#` after a blank. A text may stand between quotation marks,
and a backslash takes its meaning from marks and blanks. Of two lines with one name the first counts,
and a variable that is set otherwise keeps its text. Reading stops at the first line that is none of
these.
-/

namespace Dispatch.VariableFile

/-- Whether a character may stand in the name of a variable. -/
def isNameChar (c : Char) : Bool := c.isAlphanum || c = '_' || c = '.'

/-- Whether a name starts as the names of variables do. -/
def startsName : List Char → Bool
  | [] => false
  | c :: _ => c.isAlpha || c = '_'

/-- Whether a character is a blank within a line. -/
def isGap (c : Char) : Bool := c = ' ' || c = '\t'

/-- The single quotation mark, between which every character stands for itself. -/
def singleMark : Char := '\x27'

/-- The double quotation mark, between which backslashes keep their meaning. -/
def doubleMark : Char := '"'

/-- The character that one stands for after a backslash. -/
def unescape? (c : Char) : Option Char :=
  if c = 'n' then some '\n'
  else if c = '\\' || c = singleMark || c = doubleMark || c = '$' || c = ' ' then some c
  else none

/-- Reads the text of a variable up to the end of the line; `mark` is the quotation mark that is
open, if one is. -/
def readText (mark : Option Char) : List Char → Option (List Char)
  | [] => if mark.isNone then some [] else none
  | c :: rest =>
    if mark = some c then readText none rest
    else if c = '\\' && mark ≠ some singleMark then
      match rest with
      | [] => if mark.isNone then some [] else none
      | d :: rest =>
        match unescape? d with
        | none => none
        | some d => (readText mark rest).map (d :: ·)
    else if mark.isSome then (readText mark rest).map (c :: ·)
    else if c = singleMark || c = doubleMark then readText (some c) rest
    else if isGap c then
      match rest.dropWhile isGap with
      | [] => some []
      | d :: _ => if d = '#' then some [] else none
    else (readText none rest).map (c :: ·)

/-- Reads the text of a variable after the sign; it is empty if only a comment follows. -/
def readBinding (text : List Char) : Option (List Char) :=
  match text.dropWhile Text.isBlank with
  | '#' :: _ => some []
  | text => readText none text

/-- What a line of a variable file says. -/
inductive Line where
  | blank
  | binding (name : String) (text : String)
  | bad
deriving DecidableEq, Repr

/-- The characters of a line after the word `export`, if it starts with it. -/
def dropExport (line : List Char) : List Char :=
  let word := "export ".toList
  if word.isPrefixOf line then (line.drop word.length).dropWhile isGap else line

def readLine (line : List Char) : Line :=
  match dropExport (Text.trimBlank line) with
  | [] => .blank
  | '#' :: _ => .blank
  | body =>
    let name := body.takeWhile isNameChar
    match (body.dropWhile isNameChar).dropWhile Text.isBlank with
    | '=' :: rest =>
      if startsName name then
        match readBinding rest with
        | some text => .binding (String.ofList name) (String.ofList text)
        | none => .bad
      else .bad
    | _ => .bad

/-- Cuts a text into its lines. -/
def lines : List Char → List (List Char)
  | [] => [[]]
  | c :: rest =>
    match lines rest with
    | [] => [[c]]
    | line :: more => if c = '\n' then [] :: line :: more else (c :: line) :: more

/-- The bindings of lines, up to the first bad one. -/
def bindings : List (List Char) → List (String × String)
  | [] => []
  | line :: rest =>
    match readLine line with
    | .blank => bindings rest
    | .binding name text => (name, text) :: bindings rest
    | .bad => []

/-- The environment with the variables of a file added to it. -/
def extend (env : Environment) (file : String) : Environment := fun name =>
  env name <|> (bindings (lines file.toList)).lookup name

end Dispatch.VariableFile
