import Dispatch.Fault
/-!
# Cancellation

A token stands for a request to stop that many parties can share. Once a token is cancelled it stays
so, for everyone that holds it.
-/

namespace Dispatch

/-- A token, by its number. -/
structure Token where
  number : Nat
deriving DecidableEq, Repr

/-- The tokens that were made and those of them that are cancelled. -/
structure Cancellations where
  made : Nat := 0
  cancelled : List Token := []
deriving DecidableEq, Repr

namespace Cancellations

def fresh (c : Cancellations) : Cancellations × Token := ({ c with made := c.made + 1 }, ⟨c.made⟩)

def isCancelled (c : Cancellations) (t : Token) : Bool := c.cancelled.contains t

def cancel (c : Cancellations) (t : Token) : Cancellations :=
  if c.isCancelled t then c else { c with cancelled := t :: c.cancelled }

/-- A fault if a token is cancelled. -/
def check (c : Cancellations) (t : Token) : Except Fault Unit :=
  if c.isCancelled t then .error .cancelled else .ok ()

end Cancellations

end Dispatch
