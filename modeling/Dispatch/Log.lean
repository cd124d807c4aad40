import Dispatch.Time
/-!
# The log book

Lifecycle messages go to a book that keeps the newest records up to its limit. A book of limit
zero keeps nothing.
-/

namespace Dispatch

/-- How grave a log message is. -/
inductive Level where
  | debug
  | info
  | warn
  | error
deriving DecidableEq, Repr

namespace Level

def text : Level → String
  | debug => "debug"
  | info => "info"
  | warn => "warn"
  | error => "error"

/-- The levels, from the least grave to the gravest. -/
def all : List Level := [debug, info, warn, error]

/-- The place of a level among all levels. -/
def rank : Level → Nat
  | debug => 0
  | info => 1
  | warn => 2
  | error => 3

/-- Levels are ordered by how grave they are. -/
def order (a b : Level) : Ordering := compare a.rank b.rank

end Level

/-- One message in the log book. -/
structure LogRecord where
  level : Level
  message : String
  /-- The wall clock when it was logged, in milliseconds. -/
  loggedAt : Nat
deriving DecidableEq, Repr

/-- A bounded book of log records, the oldest first. -/
structure LogBook where
  /-- The most records that are kept. -/
  limit : Nat
  records : List LogRecord
deriving Repr

namespace LogBook

/-- An empty book that keeps the newest `limit` records, and at least one. -/
def ofLimit (limit : Nat) : LogBook := ⟨max limit 1, []⟩

/-- A book that keeps nothing. -/
def discarding : LogBook := ⟨0, []⟩

/-- The limit of a book for which none is chosen. -/
def defaultLimit : Nat := 1024

/-- Adds a record at the end; the oldest record goes if the book was full. -/
def append (book : LogBook) (record : LogRecord) : LogBook :=
  let records := book.records ++ [record]
  { book with records := records.drop (records.length - book.limit) }

def log (book : LogBook) (now : Instant) (level : Level) (message : String) : LogBook :=
  book.append ⟨level, message, now.wallMillis⟩

/-- Whether `needle` occurs in `text` as a run of characters. -/
def occursIn (needle : List Char) : List Char → Bool
  | [] => needle.isEmpty
  | c :: text => needle.isPrefixOf (c :: text) || occursIn needle text

/-- Whether the message of some record contains the text. -/
def contains (book : LogBook) (text : String) : Bool :=
  book.records.any fun record => occursIn text.toList record.message.toList

end LogBook

end Dispatch
