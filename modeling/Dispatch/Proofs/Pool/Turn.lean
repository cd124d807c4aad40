import Dispatch.Proofs.Pool.Step
import Dispatch.Proofs.Queue.Bounded
import Dispatch.Proofs.Task.Body
/-!
# What a turn amounts to

A turn of a worker does one of five things: nothing, a look at the queue that finds no task, a task
that ends before its body is started, the start of a body, or the next part of a body. This module
says once what each of them does to a pool; what a turn keeps is read off from there.
-/

namespace Dispatch

variable {α : Type}

/-- The task that a worker has. -/
def Worker.task? : Worker α → Option (Task (Job α))
  | .busy run => some run.task
  | _ => none

/-- Whether a worker has stopped or sleeps beyond an instant. -/
def Worker.IsQuiet (now : Instant) : Worker α → Prop
  | .stopped => True
  | .busy run => now < run.wakeAt
  | _ => False

/-- Whether counts are others after one task more has ended with an outcome, some time after it was
ready. -/
structure Metrics.CountsEnd (o : Outcome α) (latency : Duration) (m m' : Metrics) : Prop where
  submitted_eq : m'.submitted = m.submitted
  rejected_eq : m'.rejected = m.rejected
  completed_eq : m'.completed = m.completed + o.isCompleted.toNat
  failed_eq : m'.failed = m.failed + o.isFailed.toNat
  cancelled_eq : m'.cancelled = m.cancelled + o.isCancelled.toNat
  latencies_eq : m'.latencies =
    if o.isCompleted then (m.recordCompleted latency).latencies else m.latencies

theorem Metrics.countsEnd_recordCancelled (m : Metrics) (latency : Duration) :
    m.CountsEnd (.cancelled : Outcome α) latency m.recordCancelled :=
  ⟨rfl, rfl, rfl, rfl, rfl, rfl⟩

/-- What a breaker becomes by the end of a task: it is told of bodies that succeeded or failed, but
neither of a cancellation nor of its own refusal. -/
def Breaker.learn (b : Breaker) (now : Instant) : JobStatus → Breaker
  | .completed => b.onSuccess
  | .failed _ => b.onFailure now
  | .cancelled | .rejected => b

namespace Pool

variable {p p' : Pool α} {t : Task (Job α)} {index : Nat}

/-- The look at the queue that a worker takes in its turn, if it takes one. -/
def look? (p : Pool α) (index : Nat) : Worker α → Option (TaskQueue (Job α) × Option (Task (Job α)))
  | .seeking => some (p.queue.enter index p.clock)
  | .waiting => some (p.queue.look index p.clock)
  | _ => none

/-- The task that a worker takes if it has its turn. -/
def taken? (p : Pool α) (index : Nat) : Option (Task (Job α)) :=
  ((p.workers[index]?).bind (p.look? index)).bind Prod.snd

/-! ## The end of a task -/

/-- Whether counts and a breaker are those of a pool after a task has ended with an outcome. -/
structure Accounts (p : Pool α) (t : Task (Job α)) (o : Outcome α) (metrics : Metrics)
    (breaker : Breaker) : Prop
    extends Metrics.CountsEnd o (p.clock.since t.readyAt) p.metrics metrics where
  breaker_eq : breaker = p.breaker.learn p.clock (.ofOutcome o)

/-- Whether a pool is another one after a task that a worker had has ended with an outcome. -/
def Ends (p : Pool α) (t : Task (Job α)) (o : Outcome α) (p' : Pool α) : Prop :=
  ∃ metrics breaker log, p.Accounts t o metrics breaker ∧
    p' = { p with
      metrics := metrics
      breaker := breaker
      log := log
      delivered := (t.id, o) :: p.delivered
      tracker := p.tracker.leave
      channels := (p.channels.send t.id o).1
      active := p.active - 1 }

theorem account_eq (p : Pool α) (t : Task (Job α)) (o : Outcome α) :
    ∃ metrics breaker log, p.Accounts t o metrics breaker ∧
      p.account t (.ofOutcome o) = { p with metrics := metrics, breaker := breaker, log := log } := by
  cases o with
  | completed value =>
      refine ⟨_, _, _, ⟨?_, rfl⟩, rfl⟩
      exact ⟨rfl, rfl, rfl, rfl, rfl, rfl⟩
  | cancelled => exact ⟨_, _, _, ⟨Metrics.countsEnd_recordCancelled _ _, rfl⟩, rfl⟩
  | failed fault =>
      -- a failed body and a refused task are told apart here, but both count as failed
      cases fault <;> refine ⟨_, _, _, ⟨?_, rfl⟩, rfl⟩ <;> exact ⟨rfl, rfl, rfl, rfl, rfl, rfl⟩

theorem ends_finish {o : Outcome α} {ended : Cell α × JobStatus} (h : Cell.HasEnded o ended) :
    p.Ends t o (p.finish t ended) := by
  obtain ⟨c, status⟩ := ended
  obtain ⟨hcell, hstatus⟩ := h
  obtain ⟨metrics, breaker, log, hcounts, haccount⟩ := account_eq p t o
  refine ⟨metrics, breaker, log, hcounts, ?_⟩
  simp only at hcell hstatus
  simp only [finish, deliver, hcell, hstatus, haccount, Option.map_some, Option.toList_some,
    Option.elim_some, List.singleton_append]

/-! ## The next part of a body -/

/-- Whether a body whose task has a token can end with an outcome while some tokens are cancelled:
as it ends by itself, or by giving up. -/
def CanEnd (t : Task (Job α)) (c : Cancellations) (o : Outcome α) : Prop :=
  o = t.body.body.ending.outcome ∨ o = .cancelled ∧ c.asksToStop t.body.token = true

/-- Whether a pool and what a worker is at come of the next actions of a body. -/
inductive Proceeds (p : Pool α) (t : Task (Job α)) (actions : List Action) :
    Pool α → Worker α → Prop where
  | sleeps {c : Cancellations} {run : Run α} (htokens : c.Extends p.tokens) (htask : run.task = t)
      (hwake : p.clock < run.wakeAt)
      (htime : run.wakeAt.since p.clock + Action.total run.rest ≤ Action.total actions) :
      Proceeds p t actions { p with tokens := c } (.busy run)
  | ends {c : Cancellations} {o : Outcome α} {p' : Pool α} (htokens : c.Extends p.tokens)
      (hcan : CanEnd t c o) (hends : Ends { p with tokens := c } t o p') :
      Proceeds p t actions p' .seeking

theorem hasEnded_gaveUp : Cell.HasEnded (.cancelled : Outcome α) Cell.gaveUp.run := ⟨rfl, rfl⟩

theorem proceeds_proceed (p : Pool α) (t : Task (Job α)) (actions : List Action) :
    p.Proceeds t actions (p.proceed t actions).1 (p.proceed t actions).2 := by
  have h : Progress.ComesOf p.clock t.body.token actions p.tokens
      (Progress.ofActions p.clock t.body.token actions p.tokens) :=
    Progress.comesOf_ofActions actions p.tokens
  unfold proceed
  cases hprogress : Progress.ofActions p.clock t.body.token actions p.tokens with
  | mk c progress =>
      rw [hprogress] at h
      cases progress with
      | sleeping wakeAt rest => exact .sleeps h.1 rfl h.2.1 h.2.2
      | done => exact .ends h (.inl rfl) (ends_finish (Cell.hasEnded_run _))
      | gaveUp => exact .ends h.1 (.inr ⟨rfl, h.2⟩) (ends_finish hasEnded_gaveUp)

/-! ## A taken task -/

/-- The pool after a worker took a task out of the queue and noted whether it starts the body. -/
def withTake (p : Pool α) (q : TaskQueue (Job α)) (take : Take α) (breaker : Breaker)
    (log : LogBook) : Pool α :=
  { p with
    queue := q
    active := p.active + 1
    takes := take :: p.takes
    breaker := breaker
    log := log }

/-- Whether a pool and what a worker is at come of taking on a task. -/
inductive TakesOn (p : Pool α) (q : TaskQueue (Job α)) (t : Task (Job α)) :
    Pool α → Worker α → Prop where
  | cancels {p' : Pool α} (hstop : p.tokens.asksToStop t.body.token = true)
      (hends : Ends (p.withTake q ⟨t, p.clock, false⟩ p.breaker p.log) t .cancelled p') :
      TakesOn p q t p' .seeking
  | refuses {p' : Pool α} (breaker : Breaker) (log : LogBook) {retryAfter : Duration}
      (hstop : p.tokens.asksToStop t.body.token = false)
      (hrefuse : (p.breaker.acquire p.clock).2 = .error (.circuitOpen retryAfter))
      (hends : Ends (p.withTake q ⟨t, p.clock, false⟩ breaker log) t
        (.failed (.circuitOpen retryAfter)) p')
      (hbreaker : breaker = (p.breaker.acquire p.clock).1) :
      TakesOn p q t p' .seeking
  | starts {p' : Pool α} {w' : Worker α} (breaker : Breaker) (log : LogBook)
      (hstop : p.tokens.asksToStop t.body.token = false)
      (hpass : (p.breaker.acquire p.clock).2 = .ok ())
      (hproceeds : Proceeds (p.withTake q ⟨t, p.clock, true⟩ breaker log) t t.body.body.actions
        p' w')
      (hbreaker : breaker = (p.breaker.acquire p.clock).1) :
      TakesOn p q t p' w'

end Pool

/-- A breaker refuses work only because its circuit is open. -/
theorem Breaker.eq_circuitOpen_of_acquire {b b' : Breaker} {now : Instant} {fault : Fault}
    (h : b.acquire now = (b', .error fault)) : ∃ retryAfter, fault = .circuitOpen retryAfter := by
  unfold acquire at h
  split at h
  · split at h
    · simp only [Prod.mk.injEq, Except.error.injEq] at h
      exact ⟨_, h.2.symm⟩
    · simp at h
  · simp at h

namespace Pool

variable {p p' : Pool α} {t : Task (Job α)} {index : Nat}

theorem takesOn_takeOn (p : Pool α) (q : TaskQueue (Job α)) (t : Task (Job α)) :
    p.TakesOn q t ({ p with queue := q }.takeOn t).1 ({ p with queue := q }.takeOn t).2 := by
  unfold takeOn
  simp only
  split
  · rename_i hstop
    exact .cancels hstop (ends_finish (Cell.hasEnded_abandon _ _))
  · rename_i hstop
    have hstop' : p.tokens.asksToStop t.body.token = false := Bool.eq_false_iff.2 hstop
    unfold acquire
    cases hacquire : p.breaker.acquire p.clock with
    | mk breaker answer =>
        let log := p.log.logChange p.clock p.breaker.circuit breaker.circuit
        cases answer with
        | error fault =>
            obtain ⟨retryAfter, rfl⟩ := Breaker.eq_circuitOpen_of_acquire hacquire
            refine .refuses breaker log hstop' (by rw [hacquire]) ?_ (by rw [hacquire])
            exact ends_finish (Cell.hasEnded_abandon _ (.circuitOpen retryAfter))
        | ok =>
            exact .starts breaker log hstop' (by rw [hacquire]) (proceeds_proceed _ _ _)
              (by rw [hacquire])

/-! ## Turns -/

/-- Whether a pool and what a worker is at afterwards come of the turn of a worker. -/
inductive Turned (p : Pool α) (index : Nat) (w : Worker α) : Pool α → Worker α → Prop where
  | rests (hquiet : w.IsQuiet p.clock) : Turned p index w p w
  | goesOn {run : Run α} {p' : Pool α} {w' : Worker α} (hw : w = .busy run)
      (hdue : run.wakeAt ≤ p.clock) (hproceeds : Proceeds p run.task run.rest p' w') :
      Turned p index w p' w'
  | misses {q : TaskQueue (Job α)} (log : LogBook) {w' : Worker α} (hw : w.task? = none)
      (hlook : (p.look? index w).bind Prod.snd = none)
      (hlooks : TaskQueue.Looks p.clock p.queue (q, none)) (htask : w'.task? = none)
      (hstopped : w' = .stopped ↔ p.queue.closed = true) :
      Turned p index w { p with queue := q, log := log } w'
  | takes {q : TaskQueue (Job α)} {t : Task (Job α)} {p' : Pool α} {w' : Worker α}
      (hw : w.task? = none) (hlook : (p.look? index w).bind Prod.snd = some t)
      (hlooks : TaskQueue.Looks p.clock p.queue (q, some t)) (htakes : TakesOn p q t p' w') :
      Turned p index w p' w'

theorem turned_afterLook {w : Worker α} {r : TaskQueue (Job α) × Option (Task (Job α))}
    (hw : w.task? = none) (hlook : p.look? index w = some r)
    (hlooks : TaskQueue.Looks p.clock p.queue r) :
    p.Turned index w (p.afterLook index r).1 (p.afterLook index r).2 := by
  obtain ⟨q, found⟩ := r
  have hfound : (p.look? index w).bind Prod.snd = found := by simp [hlook]
  cases found with
  | some t => exact .takes hw hfound hlooks (takesOn_takeOn p q t)
  | none =>
      have hclosed : q.closed = p.queue.closed := hlooks.closed_eq
      unfold afterLook
      simp only
      split
      · rename_i hq
        exact .misses _ hw hfound hlooks rfl (by simp [← hclosed, hq])
      · rename_i hq
        have hopen : p.queue.closed ≠ true := hclosed ▸ hq
        split
        · exact .misses p.log hw hfound hlooks rfl (by simp [hopen])
        · exact .misses p.log hw hfound hlooks.sleep rfl (by simp [hopen])

theorem turned_turn (hs : p.queue.Sound p.clock) (index : Nat) (w : Worker α) :
    p.Turned index w (p.turn index w).1 (p.turn index w).2 := by
  cases w with
  | seeking => exact turned_afterLook rfl rfl (hs.enter index)
  | waiting => exact turned_afterLook rfl rfl (hs.look index)
  | stopped => exact .rests trivial
  | busy run =>
      by_cases hdue : run.wakeAt ≤ p.clock
      · rw [show p.turn index (.busy run) = p.proceed run.task run.rest from if_pos hdue]
        exact .goesOn rfl hdue (proceeds_proceed p run.task run.rest)
      · rw [show p.turn index (.busy run) = (p, .busy run) from if_neg hdue]
        exact .rests (Int.not_le.1 hdue)

/-! ## What a turn leaves as it is -/

/-- Whether neither time nor the other workers nor the answers to submissions were touched. -/
structure SameFrame (p q : Pool α) : Prop where
  clock_eq : q.clock = p.clock
  workers_eq : q.workers = p.workers
  answers_eq : q.answers = p.answers

theorem Ends.sameFrame {o : Outcome α} (h : p.Ends t o p') : SameFrame p p' := by
  obtain ⟨metrics, breaker, log, -, rfl⟩ := h
  exact ⟨rfl, rfl, rfl⟩

theorem Proceeds.sameFrame {actions : List Action} {w : Worker α}
    (h : p.Proceeds t actions p' w) : SameFrame p p' := by
  cases h with
  | sleeps _ _ _ _ => exact ⟨rfl, rfl, rfl⟩
  | ends _ _ hends => exact { hends.sameFrame with }

theorem TakesOn.sameFrame {q : TaskQueue (Job α)} {w : Worker α} (h : p.TakesOn q t p' w) :
    SameFrame p p' := by
  cases h with
  | cancels _ hends => exact { hends.sameFrame with }
  | refuses _ _ _ _ hends => exact { hends.sameFrame with }
  | starts _ _ _ _ hproceeds => exact { hproceeds.sameFrame with }

theorem Turned.sameFrame {w w' : Worker α} (h : p.Turned index w p' w') : SameFrame p p' := by
  cases h with
  | rests _ => exact ⟨rfl, rfl, rfl⟩
  | goesOn _ _ hproceeds => exact hproceeds.sameFrame
  | misses _ _ _ _ _ _ => exact ⟨rfl, rfl, rfl⟩
  | takes _ _ _ htakes => exact htakes.sameFrame

theorem Ends.queue_eq {o : Outcome α} (h : p.Ends t o p') : p'.queue = p.queue := by
  obtain ⟨metrics, breaker, log, -, rfl⟩ := h
  rfl

theorem Proceeds.queue_eq {actions : List Action} {w : Worker α}
    (h : p.Proceeds t actions p' w) : p'.queue = p.queue := by
  cases h with
  | sleeps _ _ _ _ => rfl
  | ends _ _ hends => exact hends.queue_eq

theorem TakesOn.queue_eq {q : TaskQueue (Job α)} {w : Worker α} (h : p.TakesOn q t p' w) :
    p'.queue = q := by
  cases h with
  | cancels _ hends => exact hends.queue_eq
  | refuses _ _ _ _ hends => exact hends.queue_eq
  | starts _ _ _ _ hproceeds => exact hproceeds.queue_eq

/-- What a turn does to the pool, and where the worker is then put. -/
theorem turnAt_cases (hs : p.queue.Sound p.clock) (index : Nat) :
    p.workers[index]? = none ∧ p.turnAt index = p ∨
      ∃ w p' w', p.workers[index]? = some w ∧ p.Turned index w p' w' ∧
        p.turnAt index = { p' with workers := p'.workers.set index w' } := by
  unfold turnAt
  split
  · exact .inl ⟨‹_›, rfl⟩
  · rename_i w hw
    exact .inr ⟨w, _, _, hw, turned_turn hs index w, rfl⟩

/-- A turn takes no time. -/
theorem clock_turnAt (hs : p.queue.Sound p.clock) (index : Nat) :
    (p.turnAt index).clock = p.clock := by
  rcases turnAt_cases hs index with ⟨-, heq⟩ | ⟨w, p', w', -, hturned, heq⟩
  · rw [heq]
  · rw [heq]
    exact hturned.sameFrame.clock_eq

end Pool

end Dispatch
