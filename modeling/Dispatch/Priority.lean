/-!
# Priorities

A priority is a level; the larger level is the more urgent. Levels chosen by a caller are capped at
`Priority.critical`; a level read back from stored data is kept as it stands.
-/

namespace Dispatch

/-- How urgent a task is. -/
structure Priority where
  /-- The level; the larger one goes first. -/
  level : Nat
deriving DecidableEq, Repr

namespace Priority

/-- Work for idle time. -/
def background : Priority := ⟨0⟩

/-- Below the usual urgency. -/
def low : Priority := ⟨32⟩

/-- The usual urgency. -/
def normal : Priority := ⟨64⟩

/-- Above the usual urgency. -/
def high : Priority := ⟨96⟩

/-- The most urgent level that a caller can ask for. -/
def critical : Priority := ⟨127⟩

/-- The priority of a level, capped at `critical`. -/
def ofLevel (n : Nat) : Priority := ⟨min n critical.level⟩

instance : Inhabited Priority := ⟨normal⟩

/-- Priorities are ordered by their levels. -/
def order (a b : Priority) : Ordering := compare a.level b.level

/-- The text of a priority is its level. -/
def text (p : Priority) : String := toString p.level

end Priority

end Dispatch
