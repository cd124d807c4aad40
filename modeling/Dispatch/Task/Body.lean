import Dispatch.Cancellation
import Dispatch.Time
/-!
# Bodies of tasks

A body does a number of things one after the other and then ends, with a value, with an error or by
breaking off. The only thing that takes time is to sleep. An error has a root and may be wrapped in
contexts; a root that is the fault of a cancelled task means that the body gave up because it was
asked to.
-/

namespace Dispatch

/-- One thing that a body does. -/
inductive Action where
  | sleep (d : Duration)
  | cancel (token : Token)
  /-- Gives up if the token of the task is cancelled. -/
  | check
  /-- So many times gives up if the token of the task is cancelled, and lets time pass. -/
  | poll (times : Nat) (d : Duration)
deriving DecidableEq, Repr

/-- What went wrong first. -/
inductive Root where
  | text (s : String)
  | fault (f : Fault)
deriving DecidableEq, Repr

def Root.message : Root → String
  | text s => s
  | fault f => f.message

/-- An error of a body. -/
structure Failure where
  /-- What went wrong first. -/
  root : Root
  /-- The contexts around it, the innermost first. -/
  contexts : List String
deriving DecidableEq, Repr

/-- The error of a body that found its token cancelled. -/
def Failure.gaveUp : Failure := ⟨.fault .cancelled, []⟩

/-- The wording of an error: the outermost context first, the root last. -/
def Failure.message (f : Failure) : String :=
  ": ".intercalate (f.contexts.reverse ++ [f.root.message])

/-- What a body that breaks off leaves behind. -/
inductive Panic where
  | text (s : String)
  | nameless
deriving DecidableEq, Repr

def Panic.message : Panic → String
  | text s => "task panicked: " ++ s
  | nameless => "task panicked: non-string panic payload"

/-- How a body ends. -/
inductive Ending (α : Type) where
  /-- With a value. -/
  | value (a : α)
  /-- With an error. -/
  | failure (f : Failure)
  /-- By breaking off. -/
  | panic (p : Panic)
deriving DecidableEq, Repr

/-- What the end of a body means for its task. -/
def Ending.outcome {α : Type} : Ending α → Outcome α
  | value a => .completed a
  | failure f => if f.root = .fault .cancelled then .cancelled else .failed (.payloadFailed f.message)
  | panic p => .failed (.payloadFailed p.message)

/-- What a task does. -/
structure Body (α : Type) where
  /-- What it does, in order. -/
  actions : List Action
  ending : Ending α
deriving DecidableEq, Repr

/-- How far a body has come. -/
inductive Progress where
  | sleeping (wakeAt : Instant) (rest : List Action)
  | done
  | gaveUp
deriving DecidableEq, Repr

/-- For how long an action lets time pass at most. -/
def Action.duration : Action → Duration
  | sleep d => d
  | poll times d => times * d
  | _ => 0

/-- For how long actions let time pass at most. -/
def Action.total (actions : List Action) : Duration := sumOf duration actions

/-- Whether the task of this token, if it has one, was asked to give up. -/
def Cancellations.asksToStop (c : Cancellations) (own : Option Token) : Bool := own.any c.isCancelled

/-- Does actions at an instant until one takes time; `own` is the token of the task. -/
def Progress.ofActions (now : Instant) (own : Option Token) :
    List Action → Cancellations → Cancellations × Progress
  | [], c => (c, .done)
  | .sleep d :: rest, c => if d = 0 then ofActions now own rest c else (c, .sleeping (now + d) rest)
  | .cancel t :: rest, c => ofActions now own rest (c.cancel t)
  | .check :: rest, c => if c.asksToStop own then (c, .gaveUp) else ofActions now own rest c
  | .poll 0 _ :: rest, c => ofActions now own rest c
  | .poll (n + 1) d :: rest, c =>
    if c.asksToStop own then (c, .gaveUp)
    else if d = 0 then ofActions now own rest c
    else (c, .sleeping (now + d) (.poll n d :: rest))

end Dispatch
