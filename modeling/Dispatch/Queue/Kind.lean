/-!
# Queue strategies

The two ways in which a queue can hold its tasks.
-/

namespace Dispatch

/-- How a queue holds its tasks. -/
inductive StrategyKind where
  /-- One backlog for all workers. -/
  | locked
  /-- One backlog for each worker. -/
  | sharded
deriving DecidableEq, Repr

namespace StrategyKind

def text : StrategyKind → String
  | locked => "locked"
  | sharded => "sharded"

/-- The name of a strategy as the tag of a record. -/
def tag : StrategyKind → String
  | locked => "Locked"
  | sharded => "Sharded"

def all : List StrategyKind := [locked, sharded]

end StrategyKind

end Dispatch
