import Dispatch.Pool.Workers
import Mathlib.Logic.Relation
/-!
# What can happen to a pool

The turns of workers, the passing of time and the requests of callers come in any order. A step is
one of them, with an exchange of the strategy and a close taken apart, since workers have their turns
in between. What is shown of every step holds in particular in the order in which a settled pool
gives its turns.
-/

namespace Dispatch

namespace Pool

variable {α : Type}

/-- What happens without a request: a worker has its turn, or time passes. -/
inductive Work : Pool α → Pool α → Prop where
  | turn (p : Pool α) (index : Nat) : Work p (p.turnAt index)
  | tick (p : Pool α) (now : Instant) (hle : p.clock ≤ now) : Work p { p with clock := now }

/-- One thing that can happen to a pool. -/
inductive Step : Pool α → Pool α → Prop where
  | work {p q : Pool α} (h : Work p q) : Step p q
  | submitAt (p : Pool α) (readyAt : Instant) (s : Submission α) : Step p (p.submitAt readyAt s).1
  | freshToken (p : Pool α) : Step p { p with tokens := p.tokens.fresh.1 }
  | cancel (p : Pool α) (t : Token) : Step p { p with tokens := p.tokens.cancel t }
  | tellBreaker (p : Pool α) (change : Breaker → Breaker) : Step p (p.withBreaker (change p.breaker))
  | note (p : Pool α) (level : Level) (message : String) : Step p (p.note level message)
  /-- The lock operations of the queue are looked at. -/
  | sample (p : Pool α) (c : Contention) : Step p { p with queue := p.queue.withContention c }
  | interrupt (p : Pool α) (hopen : p.queue.closed = false) :
      Step p { p with queue := p.queue.interrupt }
  | refill (p : Pool α) (kind : StrategyKind) (hopen : p.queue.closed = false) :
      Step p { p with queue := (p.queue.refill kind p.clock).1 }
  | refuse (p : Pool α) : Step p { p with accepting := false }
  | shut (p : Pool α) (hrefusing : p.accepting = false) : Step p { p with queue := p.queue.shut }
  /-- The tasks are removed that a close leaves no time for. -/
  | clear (p : Pool α) (graceful : Bool) (hclosed : p.queue.closed = true) :
      Step p ({ p with queue := (p.queue.clear graceful p.clock).1 }.cancelRemoved
        (p.queue.clear graceful p.clock).2)
  /-- The tasks are removed that the workers have left. -/
  | strand (p : Pool α) :
      Step p ({ p with queue := p.queue.drain.1, joined := true }.cancelRemoved p.queue.drain.2)

/-- Whether a pool can become another one without a request. -/
def Works : Pool α → Pool α → Prop := Relation.ReflTransGen Work

/-- Whether a pool can become another one. -/
def Reaches : Pool α → Pool α → Prop := Relation.ReflTransGen Step

variable {p q r : Pool α}

theorem Works.refl (p : Pool α) : p.Works p := Relation.ReflTransGen.refl

theorem Works.trans (hpq : p.Works q) (hqr : q.Works r) : p.Works r :=
  Relation.ReflTransGen.trans hpq hqr

theorem Work.works (h : Work p q) : p.Works q := Relation.ReflTransGen.single h

theorem Reaches.refl (p : Pool α) : p.Reaches p := Relation.ReflTransGen.refl

theorem Reaches.trans (hpq : p.Reaches q) (hqr : q.Reaches r) : p.Reaches r :=
  Relation.ReflTransGen.trans hpq hqr

theorem Step.reaches (h : Step p q) : p.Reaches q := Relation.ReflTransGen.single h

theorem Works.reaches (h : p.Works q) : p.Reaches q := by
  induction h with
  | refl => exact Reaches.refl p
  | tail _ hlast ih => exact ih.trans (Step.work hlast).reaches

/-- What every step keeps holds of all that a pool can become. -/
theorem Reaches.keeps {I : Pool α → Prop} (hstep : ∀ {p q : Pool α}, Step p q → I p → I q)
    (h : p.Reaches q) (hp : I p) : I q := by
  induction h with
  | refl => exact hp
  | tail _ hlast ih => exact hstep hlast ih

theorem Works.keeps {I : Pool α → Prop} (hwork : ∀ {p q : Pool α}, Work p q → I p → I q)
    (h : p.Works q) (hp : I p) : I q := by
  induction h with
  | refl => exact hp
  | tail _ hlast ih => exact hwork hlast ih

/-! ## Turns of several workers -/

theorem works_turnAt (p : Pool α) (index : Nat) : p.Works (p.turnAt index) := (Work.turn p index).works

theorem works_withClock {now : Instant} (hle : p.clock ≤ now) :
    p.Works { p with clock := now } :=
  (Work.tick p now hle).works

theorem keeps_foldl {I : Pool α → Prop} {f : Pool α → Nat → Pool α}
    (hf : ∀ p index, I p → I (f p index)) (indices : List Nat) (hp : I p) :
    I (indices.foldl f p) := by
  induction indices generalizing p with
  | nil => exact hp
  | cons index rest ih => exact ih (hf p index hp)

theorem keeps_sweep {I : Pool α → Prop} (hturn : ∀ p index, I p → I (turnAt p index)) (hp : I p) :
    I p.sweep :=
  keeps_foldl hturn _ hp

/-- What every turn keeps holds when no worker can do anything more. -/
theorem keeps_settle {I : Pool α → Prop} (hturn : ∀ p index, I p → I (turnAt p index))
    (hp : I p) : I p.settle := by
  fun_induction settle p with
  | case1 p q _ ih => exact ih (keeps_sweep hturn hp)
  | case2 p q _ => exact keeps_sweep hturn hp

theorem keeps_rouse {I : Pool α → Prop} (hturn : ∀ p index, I p → I (turnAt p index)) (hp : I p) :
    I p.rouse := by
  refine keeps_foldl (fun p index h => ?_) _ hp
  split
  · exact hturn p index h
  · exact h

theorem works_sweep (p : Pool α) : p.Works p.sweep :=
  keeps_sweep (I := p.Works) (fun q index h => h.trans (works_turnAt q index)) (Works.refl p)

theorem works_settle (p : Pool α) : p.Works p.settle :=
  keeps_settle (I := p.Works) (fun q index h => h.trans (works_turnAt q index)) (Works.refl p)

theorem works_rouse (p : Pool α) : p.Works p.rouse :=
  keeps_rouse (I := p.Works) (fun q index h => h.trans (works_turnAt q index)) (Works.refl p)

end Pool

end Dispatch
