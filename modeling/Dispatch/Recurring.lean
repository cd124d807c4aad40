import Dispatch.Pool
import Dispatch.Recurring.Identifier
/-!
# Recurring tasks

An entry is submitted to a pool once in each of its intervals. A sweep submits the entries that are
due, each of them once however many intervals have passed, and moves each on to the first instant of
its grid that lies after the sweep. Cancelled entries are removed by the next sweep.
-/

namespace Dispatch

/-- A task that is submitted again and again. -/
structure RecurringEntry (α : Type) where
  id : Identifier
  interval : Duration
  priority : Priority
  /-- The name under which the starts of the body are noted. -/
  label : String
  body : Body α
  nextExecution : Instant
  cancelled : Bool := false
  /-- How often the entry was due in a sweep. -/
  fired : Nat := 0

/-- The recurring tasks. -/
structure Recurring (α : Type) where
  /-- The entries, in the order of their registration. -/
  entries : List (RecurringEntry α) := []
  made : Nat := 0

namespace RecurringEntry

variable {α : Type}

/-- The most intervals by which an entry is moved on at once. -/
def skipLimit : Nat := 1 <<< 32 - 1

/-- The instant some intervals after another one, if the way there and the instant can be held. -/
def advance? (scheduled : Instant) (interval : Duration) (steps : Nat) : Option Instant :=
  if interval * steps ≤ Duration.longest then scheduled.add? (interval * steps) else none

/-- The next instant of the grid of an entry after `now`; `clock` is the present instant. -/
def nextAfter (scheduled : Instant) (interval : Duration) (now clock : Instant) : Instant :=
  let steps := min (now.since scheduled / max interval 1 + 1) skipLimit
  match advance? scheduled interval steps with
  | some t => t
  | none =>
    match now.add? interval with
    | some t => t
    | none => clock.after interval

/-- Whether an entry is due at an instant. -/
def isDue (now : Instant) (e : RecurringEntry α) : Bool := e.nextExecution ≤ now

/-- The entry after a sweep in which it was due. -/
def fire (now clock : Instant) (e : RecurringEntry α) : RecurringEntry α :=
  { e with
    nextExecution := nextAfter e.nextExecution e.interval now clock
    fired := e.fired + 1 }

def swept (now clock : Instant) (e : RecurringEntry α) : RecurringEntry α :=
  if e.isDue now then e.fire now clock else e

/-- What is submitted for an entry. -/
def submission (e : RecurringEntry α) : Submission α where
  label := e.label
  priority := e.priority
  body := e.body

end RecurringEntry

namespace Recurring

variable {α : Type}

/-- The fault of an interval of no length. -/
def intervalFault : Fault := .invalidConfig "recurring interval must be greater than 0"

/-- Registers an entry at an instant; it is due for the first time after one interval. -/
def schedule (r : Recurring α) (now : Instant) (interval : Duration) (s : Submission α) :
    Recurring α × Except Fault Identifier :=
  if interval = 0 then (r, .error intervalFault)
  else
    let entry : RecurringEntry α :=
      { id := .numbered r.made
        interval := interval
        priority := s.priority
        label := s.label
        body := s.body
        nextExecution := now.after interval }
    ({ entries := r.entries ++ [entry], made := r.made + 1 }, .ok entry.id)

def find? (r : Recurring α) (id : Identifier) : Option (RecurringEntry α) :=
  r.entries.find? (·.id = id)

/-- Cancels an entry, and tells whether it was there and not cancelled before. -/
def cancel (r : Recurring α) (id : Identifier) : Recurring α × Bool :=
  ({ r with entries := r.entries.map fun e => if e.id = id then { e with cancelled := true } else e },
    (r.find? id).any (!·.cancelled))

/-- Submits what an entry asks for, and logs a refusal; tells whether it was accepted. -/
def submitEntry (p : Pool α) (e : RecurringEntry α) : Pool α × Bool :=
  match p.submit e.submission with
  | (p, .ok _) => (p, true)
  | (p, .error fault) =>
    (p.note .warn ("recurring task " ++ e.id.text ++ " skipped: " ++ fault.message), false)

/-- Submits what entries ask for, in order, and counts what was accepted. -/
def submitAll (p : Pool α) : List (RecurringEntry α) → Pool α × Nat
  | [] => (p, 0)
  | e :: rest =>
    let (p, accepted) := submitEntry p e
    let (p, count) := submitAll p rest
    (p, if accepted then count + 1 else count)

/-- Removes the cancelled entries, submits those that are due at `now`, and counts what was
accepted. -/
def sweep (r : Recurring α) (p : Pool α) (now : Instant) : Recurring α × Pool α × Nat :=
  let live := r.entries.filter (!·.cancelled)
  let (p', count) := submitAll p (live.filter (·.isDue now))
  ({ r with entries := live.map (·.swept now p.clock) }, p', count)

/-- The earliest instant at which an entry is due that is not cancelled. -/
def nextDue (r : Recurring α) : Option Instant :=
  ((r.entries.filter (!·.cancelled)).map RecurringEntry.nextExecution).foldl
    (fun due t => Instant.earliest? due (some t)) none

/-- How often an entry was due in a sweep. -/
def fireCount (r : Recurring α) (id : Identifier) : Option Nat := (r.find? id).map (·.fired)

/-- The number of entries, cancelled ones included. -/
def size (r : Recurring α) : Nat := r.entries.length

def clear (r : Recurring α) : Recurring α := { r with entries := [] }

/-- The recurring tasks are shown with their number. -/
def text (r : Recurring α) : String :=
  Text.record "RecurringScheduler" [("entries", toString r.size)]

end Recurring

end Dispatch
