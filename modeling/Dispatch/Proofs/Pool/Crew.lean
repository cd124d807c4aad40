import Dispatch.Proofs.Pool.Idle
import Dispatch.Proofs.Queue.Pieces
/-!
# Workers that sleep until they are called

A waiting worker is either up, so that it takes a further look, or it sleeps. Sleepers are woken by
calls; which one of them a call for one worker reaches is left to the lock that they sleep at. A worker
also wakes up by itself, at the end of its time or for no reason. Everything else that can happen to a
pool happens to it with or without sleepers, in any order: calls may be on their way for any time, and a
look at shards is taken at once or in parts, with anything in between.
-/

namespace Dispatch

variable {α : Type}

/-- What a call can leave of the sleepers, where a lock tells at which places a call for one worker may
reach them. -/
inductive Call.Leaves (lock : List Sleeper → Nat → Prop) :
    Call → List Sleeper → List Sleeper → Prop where
  /-- A call is lost if nobody sleeps. -/
  | nobody (k : Call) : Leaves lock k [] []
  | one {sleepers : List Sleeper} {place : Nat} (hplace : place < sleepers.length)
      (hlock : lock sleepers place) : Leaves lock .one sleepers (sleepers.eraseIdx place)
  | all (sleepers : List Sleeper) : Leaves lock .all sleepers []

/-- Whether a lock keeps those that sleep at it in a queue: whoever falls asleep is appended to it, and a
call for one worker reaches the first one. The locks come from `parking_lot`, which documents this: `park`
appends the current thread to the queue, and `unpark_requeue`, by which one sleeper is called, unparks the
first one. -/
def KeepsQueue (lock : List Sleeper → Nat → Prop) : Prop :=
  ∀ sleepers place, lock sleepers place → place = 0

namespace Pool

/-- The calls that go out while the worker of a number has its turn. -/
def callsOfTurn (p : Pool α) (index : Nat) : List Call :=
  if (p.workers[index]?).any Worker.isIdle then p.queue.strategy.callsOfLook p.clock else []

/-- The calls that go out with a submission. A refused task is not announced. -/
def callsOfSubmit (p : Pool α) (readyAt : Instant) (s : Submission α) : List Call :=
  match (p.submitAt readyAt s).2 with
  | .ok _ => p.queue.strategy.callsOfPush p.clock (p.newTask readyAt s)
  | .error _ => []

/-- The pool with its tasks arranged in another way. -/
def withStrategy (p : Pool α) (s : Strategy (Job α)) : Pool α :=
  { p with queue := { p.queue with strategy := s } }

/-- What an idle worker finds when it looks at the shards only: it begins a wait, or wakes up from one. -/
def glance? (p : Pool α) (index : Nat) :
    Worker α → Option (TaskQueue (Job α) × Option (Task (Job α)))
  | .seeking => some (p.queue.took (p.queue.strategy.enter.glance index))
  | .waiting => some (p.queue.took (p.queue.strategy.rouse.glance index))
  | _ => none

/-- The turn of an idle worker that looks at the shards only. -/
def glanceAt (p : Pool α) (index : Nat) : Pool α :=
  match (p.workers[index]?).bind (p.glance? index) with
  | none => p
  | some r =>
    let (p, w) := p.afterLook index r
    { p with workers := p.workers.set index w }

end Pool

/-- A pool some of whose workers sleep. -/
structure Crew (α : Type) where
  pool : Pool α
  /-- The workers that sleep, the one that fell asleep first in front. -/
  sleepers : List Sleeper := []
  /-- The calls that are on their way. -/
  calls : List Call := []
  /-- How many of the delayed tasks are in hand, to be put into shards. They are the first ones. -/
  inHand : Nat := 0

namespace Crew

/-- A crew nobody of which sleeps. -/
def up (p : Pool α) : Crew α := { pool := p }

/-- Whether the worker of a number does not sleep. -/
def IsUp (c : Crew α) (index : Nat) : Prop := index ∉ c.sleepers.map Sleeper.index

/-- What a worker sees of the tasks. -/
def seen (c : Crew α) : Strategy (Job α) := c.pool.queue.strategy.without c.inHand

/-- One thing that can happen to a crew. -/
inductive Step (lock : List Sleeper → Nat → Prop) : Crew α → Crew α → Prop where
  /-- A worker that is up has its turn, with a whole look if it is idle. -/
  | turn (c : Crew α) (index : Nat) (hup : c.IsUp index)
      (hfree : (c.pool.workers[index]?).any Worker.isIdle = true → c.inHand = 0) :
      Step lock c
        { c with pool := c.pool.turnAt index, calls := c.calls ++ c.pool.callsOfTurn index }
  /-- An idle worker takes the delayed tasks in hand that are due. -/
  | takeDue (c : Crew α) {q : Sharded (Job α)} (index : Nat) (hup : c.IsUp index)
      (hidle : (c.pool.workers[index]?).any Worker.isIdle = true)
      (hsharded : c.pool.queue.strategy = .sharded q) :
      Step lock c { c with inHand := (q.takeDue c.pool.clock).2.length }
  /-- A task in hand is put into a shard. It need not be announced if waits are to be given up. -/
  | deal (c : Crew α) {q : Sharded (Job α)} {place : Nat} {calls : List Call}
      (hsharded : c.pool.queue.strategy = .sharded q) (hplace : place < c.inHand)
      (hcalls : calls = [q.call] ∨ q.interrupted = true ∧ calls = []) :
      Step lock c
        { c with
          pool := c.pool.withStrategy (.sharded (q.deal place))
          calls := c.calls ++ calls
          inHand := c.inHand - 1 }
  /-- A worker that is up looks at the shards only. -/
  | glance (c : Crew α) (index : Nat) (hup : c.IsUp index)
      (hkind : c.pool.queue.kind = .sharded) :
      Step lock c { c with pool := c.pool.glanceAt index }
  /-- The next task is to go past shards that are being used. -/
  | passTo (c : Crew α) {q : Sharded (Job α)} (cursor : Nat)
      (hsharded : c.pool.queue.strategy = .sharded q) :
      Step lock c { c with pool := c.pool.withStrategy (.sharded (q.passTo cursor)) }
  /-- A waiting worker falls asleep, until the next delayed task gets ready at the longest, if it finds
  no reason to stay up. -/
  | fallAsleep (c : Crew α) (index : Nat) (hup : c.IsUp index)
      (hwaiting : c.pool.workers[index]? = some .waiting)
      (hcalm : c.pool.queue.strategy.isInterrupted = false)
      (hwork : c.seen.hasWorkFor index c.pool.clock = false) :
      Step lock c { c with sleepers := c.sleepers ++ [⟨index, c.seen.nextReadyAt⟩] }
  /-- The sleeper at a place wakes up by itself. -/
  | wake (c : Crew α) (place : Nat) : Step lock c { c with sleepers := c.sleepers.eraseIdx place }
  /-- A call arrives. -/
  | call (c : Crew α) {k : Call} {sleepers : List Sleeper} (hcall : k ∈ c.calls)
      (hleaves : k.Leaves lock c.sleepers sleepers) :
      Step lock c { c with sleepers := sleepers, calls := c.calls.erase k }
  | tick (c : Crew α) (now : Instant) (hle : c.pool.clock ≤ now) :
      Step lock c { c with pool := { c.pool with clock := now } }
  | submitAt (c : Crew α) (readyAt : Instant) (s : Submission α) :
      Step lock c { c with
        pool := (c.pool.submitAt readyAt s).1
        calls := c.calls ++ c.pool.callsOfSubmit readyAt s }
  /-- Something is done that neither the workers nor the tasks in the queue have to do with. -/
  | aside (c : Crew α) {q : Pool α} (hstep : Pool.Step c.pool q)
      (hworkers : q.workers = c.pool.workers) (hsame : Pool.Undisturbed c.pool q) :
      Step lock c { c with pool := q }
  | interrupt (c : Crew α) (hopen : c.pool.queue.closed = false) :
      Step lock c { c with
        pool := { c.pool with queue := c.pool.queue.interrupt }
        calls := c.calls ++ [.all] }
  /-- The strategy is exchanged when nobody sleeps or has tasks in hand any more. -/
  | refill (c : Crew α) (kind : StrategyKind) (hopen : c.pool.queue.closed = false)
      (hnobody : c.sleepers = []) (hfree : c.inHand = 0) :
      Step lock c { c with
        pool := { c.pool with queue := (c.pool.queue.refill kind c.pool.clock).1 } }
  | shut (c : Crew α) (hrefusing : c.pool.accepting = false) :
      Step lock c { c with
        pool := { c.pool with queue := c.pool.queue.shut }
        calls := c.calls ++ [.all] }
  /-- The tasks are removed that a close leaves no time for. If it leaves none to any, those in hand have
  been put into shards before. -/
  | clear (c : Crew α) (graceful : Bool) (hclosed : c.pool.queue.closed = true)
      (hfree : graceful = false → c.inHand = 0) :
      Step lock c { c with
        pool := { c.pool with
          queue := (c.pool.queue.clear graceful c.pool.clock).1 }.cancelRemoved
            (c.pool.queue.clear graceful c.pool.clock).2 }
  /-- The tasks are removed that the workers have left. -/
  | strand (c : Crew α) (hfree : c.inHand = 0) :
      Step lock c { c with
        pool := { c.pool with queue := c.pool.queue.drain.1, joined := true }.cancelRemoved
          c.pool.queue.drain.2 }

/-- Whether a crew can become another one. -/
def Reaches (lock : List Sleeper → Nat → Prop) : Crew α → Crew α → Prop :=
  Relation.ReflTransGen (Step lock)

/-- Whether nothing more can be done by a crew at the present instant. -/
structure IsQuiet (c : Crew α) : Prop where
  calls_eq_nil : c.calls = []
  inHand_eq : c.inHand = 0
  /-- No sleeper's time has come. -/
  sleepsBeyond : ∀ x ∈ c.sleepers, x.SleepsBeyond c.pool.clock
  /-- The others run bodies that sleep, or have stopped. -/
  isQuiet : ∀ index w, c.pool.workers[index]? = some w → c.IsUp index → w.IsQuiet c.pool.clock

variable {lock : List Sleeper → Nat → Prop} {c c' c'' : Crew α}

theorem Reaches.refl (c : Crew α) : c.Reaches lock c := Relation.ReflTransGen.refl

theorem Reaches.trans (h : c.Reaches lock c') (h' : c'.Reaches lock c'') : c.Reaches lock c'' :=
  Relation.ReflTransGen.trans h h'

theorem Step.reaches (h : Step lock c c') : c.Reaches lock c' := Relation.ReflTransGen.single h

/-- What every step keeps holds of all that a crew can become. -/
theorem Reaches.keeps {I : Crew α → Prop} (hstep : ∀ {c c' : Crew α}, Step lock c c' → I c → I c')
    (h : c.Reaches lock c') (hc : I c) : I c' := by
  induction h with
  | refl => exact hc
  | tail _ hlast ih => exact hstep hlast ih

/-! ## Crews that are up -/

/-- All sleepers can wake up, and calls do not reach anyone then. -/
theorem reaches_up (c : Crew α) (hfree : c.inHand = 0) : c.Reaches lock (up c.pool) := by
  obtain ⟨p, sleepers, calls, inHand⟩ := c
  obtain rfl : inHand = 0 := hfree
  have hwake : Reaches lock ⟨p, sleepers, calls, 0⟩ ⟨p, [], calls, 0⟩ := by
    induction sleepers with
    | nil => exact Reaches.refl _
    | cons x rest ih => exact (Step.wake ⟨p, x :: rest, calls, 0⟩ 0).reaches.trans ih
  refine hwake.trans ?_
  clear hwake
  induction calls with
  | nil => exact Reaches.refl _
  | cons k rest ih =>
      have hcall : Step lock ⟨p, [], k :: rest, 0⟩ _ :=
        .call _ (k := k) List.mem_cons_self (.nobody k)
      rw [List.erase_cons_head] at hcall
      exact hcall.reaches.trans ih

/-- What can happen to a pool can happen to it while all its workers are up. -/
theorem reaches_of_step {p q : Pool α} (h : Pool.Step p q) :
    (up p).Reaches lock (up q) := by
  have hup : ∀ {c' : Crew α}, Step lock (up p) c' → c'.inHand = 0 → c'.pool = q →
      (up p).Reaches lock (up q) := by
    rintro c' hstep hfree rfl
    exact hstep.reaches.trans (reaches_up c' hfree)
  have haside : q.workers = p.workers → Pool.Undisturbed p q →
      (up p).Reaches lock (up q) := fun hworkers hsame =>
    hup (.aside (up p) h hworkers hsame) rfl rfl
  cases h with
  | work hwork =>
      cases hwork with
      | turn index => exact hup (.turn (up p) index List.not_mem_nil fun _ => rfl) rfl rfl
      | tick now hle => exact hup (.tick (up p) now hle) rfl rfl
  | submitAt readyAt s => exact hup (.submitAt (up p) readyAt s) rfl rfl
  | freshToken => exact haside rfl ⟨rfl, rfl⟩
  | cancel t => exact haside rfl ⟨rfl, rfl⟩
  | tellBreaker change => exact haside rfl ⟨rfl, rfl⟩
  | note level message => exact haside rfl ⟨rfl, rfl⟩
  | sample c =>
      refine haside rfl ⟨rfl, ?_⟩
      exact congrArg (fun s => { p.queue with strategy := s })
        (Strategy.bare_withContention c p.queue.strategy)
  | interrupt hopen => exact hup (.interrupt (up p) hopen) rfl rfl
  | refill kind hopen => exact hup (.refill (up p) kind hopen rfl rfl) rfl rfl
  | refuse => exact haside rfl ⟨rfl, rfl⟩
  | shut hrefusing => exact hup (.shut (up p) hrefusing) rfl rfl
  | clear graceful hclosed => exact hup (.clear (up p) graceful hclosed fun _ => rfl) rfl rfl
  | strand => exact hup (.strand (up p) rfl) rfl rfl

theorem reaches_of_reaches {p q : Pool α} (h : p.Reaches q) :
    (up p).Reaches lock (up q) := by
  induction h with
  | refl => exact Reaches.refl _
  | tail _ hlast ih => exact ih.trans (reaches_of_step hlast)

end Crew

end Dispatch
