import Dispatch.Proofs.Queue.Bounded
import Dispatch.Pool
/-!
# What a submission and a removal amount to

A submission either is refused and counted as such, or puts one task into the queue. A removal gives
each of its tasks the same outcome, one after the other.
-/

namespace Dispatch

variable {α : Type}

/-- A task that was not admitted after all leaves no trace in the count of outstanding tasks. -/
@[simp] theorem Tracker.leave_enter (t : Tracker) : t.enter.leave = t := by
  simp [enter, leave]

namespace Pool

variable {p : Pool α}

/-- The task that a submission makes. -/
def newTask (p : Pool α) (readyAt : Instant) (s : Submission α) : Task (Job α) :=
  ⟨p.nextId, s.priority, readyAt, ⟨s.label, s.token, s.body⟩⟩

/-- Whether a pool comes of the submission of a task. -/
inductive Submits (p : Pool α) (t : Task (Job α)) : Pool α → Prop where
  | refused (fault : Fault) (breaker : Breaker) (log : LogBook) :
      Submits p t { p with
        nextId := p.nextId + 1
        breaker := breaker
        log := log
        metrics := p.metrics.recordRejected
        answers := (t, .error fault) :: p.answers }
  | accepted (breaker : Breaker) (log : LogBook) (hpush : (p.queue.push p.clock t).2 = .ok ()) :
      Submits p t { p with
        nextId := p.nextId + 1
        breaker := breaker
        log := log
        queue := (p.queue.push p.clock t).1
        tracker := p.tracker.enter
        metrics := p.metrics.recordSubmitted
        answers := (t, .ok ()) :: p.answers }

/-- The pool with an answer to the submission of a task noted. -/
def withAnswer (t : Task (Job α)) (r : Pool α × Except Fault Unit) : Pool α :=
  { r.1 with answers := (t, r.2) :: r.1.answers }

theorem submits_enqueue (p : Pool α) (t : Task (Job α)) (breaker : Breaker) (log : LogBook) :
    p.Submits t (withAnswer t
      ({ p with nextId := p.nextId + 1, breaker := breaker, log := log }.enqueue t)) := by
  unfold enqueue
  cases hpush : p.queue.push p.clock t with
  | mk q answer =>
      cases answer with
      | error fault =>
          have hq : q = p.queue := by
            have h := TaskQueue.push_of_error (congrArg Prod.snd hpush)
            rwa [hpush] at h
          have h : p.Submits t _ := .refused fault breaker log
          simp only [hpush, hq, Tracker.leave_enter]
          exact h
      | ok =>
          have h : p.Submits t _ := .accepted breaker log (congrArg Prod.snd hpush)
          rw [hpush] at h
          simp only [hpush]
          exact h

theorem submits_accept (p : Pool α) (t : Task (Job α)) :
    p.Submits t (withAnswer t ({ p with nextId := p.nextId + 1 }.accept t)) := by
  let numbered := { p with nextId := p.nextId + 1 }
  by_cases haccepting : numbered.accepting = true
  · have haccept : numbered.accept t = _ := if_pos haccepting
    let breaker := (numbered.breaker.acquire numbered.clock).1
    let log := p.log.logChange p.clock p.breaker.circuit breaker.circuit
    rw [haccept]
    unfold acquire
    cases hanswer : (numbered.breaker.acquire numbered.clock).2 with
    | error fault =>
        have h : p.Submits t _ := .refused fault breaker log
        simp only [hanswer]
        exact h
    | ok =>
        simp only [hanswer]
        exact submits_enqueue p t breaker log
  · have haccept : numbered.accept t = _ := if_neg haccepting
    have h : p.Submits t _ := .refused .shuttingDown p.breaker p.log
    rw [haccept]
    exact h

theorem submits_submitAt (p : Pool α) (readyAt : Instant) (s : Submission α) :
    p.Submits (p.newTask readyAt s) (p.submitAt readyAt s).1 :=
  submits_accept p (p.newTask readyAt s)

theorem Submits.workers_eq {q : Pool α} {t : Task (Job α)} (h : p.Submits t q) :
    q.workers = p.workers := by
  cases h <;> rfl

theorem Submits.clock_eq {q : Pool α} {t : Task (Job α)} (h : p.Submits t q) :
    q.clock = p.clock := by
  cases h <;> rfl

theorem Submits.accepting_eq {q : Pool α} {t : Task (Job α)} (h : p.Submits t q) :
    q.accepting = p.accepting := by
  cases h <;> rfl

theorem Submits.takes_eq {q : Pool α} {t : Task (Job α)} (h : p.Submits t q) :
    q.takes = p.takes := by
  cases h <;> rfl

theorem Submits.delivered_eq {q : Pool α} {t : Task (Job α)} (h : p.Submits t q) :
    q.delivered = p.delivered := by
  cases h <;> rfl

/-- An answer is counted, whichever it is. -/
theorem Submits.exists_counted {q : Pool α} {t : Task (Job α)} (h : p.Submits t q) :
    ∃ answer, q.answers = (t, answer) :: p.answers ∧ q.metrics =
      if answer.isOk then p.metrics.recordSubmitted else p.metrics.recordRejected := by
  cases h with
  | refused fault breaker log => exact ⟨.error fault, rfl, rfl⟩
  | accepted breaker log hpush => exact ⟨.ok (), rfl, rfl⟩

/-- Who submits a task is told whether it was accepted. -/
theorem isOk_submitAt (p : Pool α) (readyAt : Instant) (s : Submission α)
    {attempt : Task (Job α) × Except Fault Unit}
    (h : (p.submitAt readyAt s).1.answers = attempt :: p.answers) :
    (p.submitAt readyAt s).2.isOk = attempt.2.isOk := by
  have hmap : ∀ answer : Except Fault Unit,
      (answer.map fun _ => (⟨p.nextId, s.token, false⟩ : Handle)).isOk = answer.isOk := by
    rintro (_ | _) <;> rfl
  obtain ⟨rfl, -⟩ := List.cons.inj h
  exact hmap _

/-- The pool after a task was cancelled that no worker took. -/
def cancelUntaken (p : Pool α) (t : Task (Job α)) : Pool α :=
  { p with
    metrics := p.metrics.recordCancelled
    delivered := (t.id, .cancelled) :: p.delivered
    tracker := p.tracker.leave
    channels := (p.channels.send t.id .cancelled).1 }

/-- A removal cancels its tasks one by one. -/
theorem cancelRemoved_eq (p : Pool α) (removed : List (Task (Job α))) :
    p.cancelRemoved removed = removed.foldl cancelUntaken p := rfl

theorem cancelRemoved_eq_with (p : Pool α) (removed : List (Task (Job α))) :
    ∃ metrics delivered tracker channels, p.cancelRemoved removed =
      { p with
        metrics := metrics
        delivered := delivered
        tracker := tracker
        channels := channels } := by
  rw [cancelRemoved_eq]
  induction removed generalizing p with
  | nil => exact ⟨_, _, _, _, rfl⟩
  | cons t rest ih => exact ih (p.cancelUntaken t)

@[simp] theorem cancelRemoved_workers (removed : List (Task (Job α))) :
    (p.cancelRemoved removed).workers = p.workers := by
  obtain ⟨_, _, _, _, h⟩ := cancelRemoved_eq_with p removed
  rw [h]

@[simp] theorem cancelRemoved_takes (removed : List (Task (Job α))) :
    (p.cancelRemoved removed).takes = p.takes := by
  obtain ⟨_, _, _, _, h⟩ := cancelRemoved_eq_with p removed
  rw [h]

/-- A removal delivers no value. -/
theorem mem_delivered_of_cancelRemoved {id : Nat} {value : α} (removed : List (Task (Job α)))
    (h : (id, .completed value) ∈ (p.cancelRemoved removed).delivered) :
    (id, .completed value) ∈ p.delivered := by
  rw [cancelRemoved_eq] at h
  induction removed generalizing p with
  | nil => exact h
  | cons t rest ih =>
      have hone : (id, .completed value) ∈ (t.id, .cancelled) :: p.delivered := ih h
      simpa using hone

@[simp] theorem cancelRemoved_queue (removed : List (Task (Job α))) :
    (p.cancelRemoved removed).queue = p.queue := by
  obtain ⟨_, _, _, _, h⟩ := cancelRemoved_eq_with p removed
  rw [h]

@[simp] theorem cancelRemoved_clock (removed : List (Task (Job α))) :
    (p.cancelRemoved removed).clock = p.clock := by
  obtain ⟨_, _, _, _, h⟩ := cancelRemoved_eq_with p removed
  rw [h]

end Pool

end Dispatch
