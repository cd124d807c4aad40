import Dispatch.Proofs.Engine.Starts
import Dispatch.Proofs.Pool.Cancelled
/-!
# Cancellation before the start

The main statement of this module holds from the start of a pool or an engine on, whatever the strategy
and the circuit are, whoever cancels a token, and however the pool is closed: a task whose token is
cancelled while it is queued is not run, and comes out as cancelled.
-/

namespace Dispatch

variable {α : Type}

namespace Pool

variable {p q r : Pool α} {t : Task (Job α)}

/-- The pool after somebody has cancelled a token. -/
def withCancelled (p : Pool α) (token : Token) : Pool α :=
  { p with tokens := p.tokens.cancel token }

/-- Whether a task is cancelled, and nothing else, in all that can become of a pool. -/
structure StaysCancelled (p : Pool α) (t : Task (Job α)) : Prop where
  /-- Its body is never started. -/
  startsOf_eq : ∀ q, p.Reaches q → q.startsOf t.id = 0
  /-- As long as it is queued, it has no outcome. -/
  sentFor_held : ∀ q, p.Reaches q → t ∈ q.queue.tasks → q.sentFor t.id = 0
  /-- The step at which it leaves the queue, be it that a worker takes it or that it is removed,
  cancels it, counts this once, and leaves the breaker as it is. -/
  leaves : ∀ q r, p.Reaches q → Step q r → t ∈ q.queue.tasks → t ∉ r.queue.tasks →
    ∃ left, t ∈ left ∧ q.Cancels left r
  /-- From then on it has one outcome, a cancellation. -/
  ended : ∀ q, p.Reaches q → t ∉ q.queue.tasks →
    q.outcome? t.id = some .cancelled ∧ q.sentFor t.id = 1

theorem Doomed.startsOf_eq (h : p.Doomed t) : p.startsOf t.id = 0 := by
  refine List.count_eq_zero_of_not_mem fun hmem => ?_
  obtain ⟨take, htake, hid⟩ := List.mem_map.1 hmem
  obtain ⟨htake, hstarted⟩ := List.mem_filter.1 htake
  exact absurd (hstarted.symm.trans (h.unstarted take htake hid)) (by simp)

theorem Doomed.ended (h : p.Doomed t) (hleft : t ∉ p.queue.tasks) :
    p.outcome? t.id = some .cancelled ∧ p.sentFor t.id = 1 := by
  have hmem := h.held_or_cancelled.resolve_left hleft
  exact ⟨h.kept.outcome?_eq_some_iff.2 hmem,
    List.count_eq_one_of_mem h.kept.delivered_nodup (List.mem_map_of_mem hmem)⟩

theorem Doomed.staysCancelled (h : p.Doomed t) : p.StaysCancelled t where
  startsOf_eq := fun _ hreaches => (hreaches.doomed h).startsOf_eq
  sentFor_held := fun _ hreaches hmem =>
    List.count_eq_zero_of_not_mem
      ((hreaches.doomed h).kept.balanced.not_mem_delivered (List.mem_append_left _ hmem))
  leaves := fun _ _ hreaches hstep hbefore hafter =>
    have hq := hreaches.doomed h
    hstep.exists_cancels hq.kept.balanced.sound hbefore hafter hq.asksToStop
  ended := fun _ hreaches hleft => (hreaches.doomed h).ended hleft

/-- A queued task stays cancelled once its token is. -/
theorem Kept.staysCancelled (h : p.Kept) (ht : t ∈ p.queue.tasks)
    (hstop : p.tokens.asksToStop t.body.token = true) : p.StaysCancelled t :=
  (h.doomed ht hstop).staysCancelled

end Pool

namespace Engine

variable {e : Engine α}

/-- The state after somebody has cancelled a token leads to all that comes of the request and those
after it. -/
theorem reaches_cancel (hs : e.pool.queue.Sound e.pool.clock) (token : Token)
    (later : List (Request α)) :
    (e.pool.withCancelled token).Reaches ((e.cancel token).run later).pool :=
  reaches_settle_run (e.mapPool (·.withCancelled token)) hs later

/-- From the start of a pool or an engine on, a task whose token is cancelled while it is queued stays
cancelled, and a body is started only while the token of its task is not cancelled. -/
theorem run_staysCancelled (config : EngineConfig) (around : Surroundings) (now : Instant)
    (log : LogBook) (e : Engine α)
    (h : startPool config around now log = .ok e ∨ start config around now log = .ok e) :
    (∀ q t, e.pool.Reaches q → t ∈ q.queue.tasks → q.tokens.asksToStop t.body.token = true →
        q.StaysCancelled t) ∧
      (∀ q r, e.pool.Reaches q → Pool.Step q r → ∀ take ∈ r.takes, take ∉ q.takes →
        take.started = true → q.tokens.asksToStop take.task.body.token = false) ∧
      ∀ requests token t, t ∈ (e.run requests).pool.queue.tasks → t.body.token = some token →
        ((e.run requests).pool.withCancelled token).StaysCancelled t ∧
          ∀ later, ((e.run requests).pool.withCancelled token).Reaches
            (e.run (requests ++ .cancel token :: later)).pool := by
  have hkept := Pool.kept_of_start (start_pool h)
  refine ⟨fun q t hreaches ht hstop => (hreaches.kept hkept).staysCancelled ht hstop,
    fun q r hreaches hstep take htake hnew hstarted => ?_, fun requests token t ht htoken => ?_⟩
  · exact hstep.asksToStop_of_started (hreaches.kept hkept).balanced.sound htake hnew hstarted
  · have hrun := kept_run hkept requests
    have hcancelled := (Pool.Step.cancel (e.run requests).pool token).kept hrun
    refine ⟨hcancelled.staysCancelled ht ?_, fun later => ?_⟩
    · show (Cancellations.cancel _ token).asksToStop t.body.token = true
      rw [htoken]
      exact Cancellations.isCancelled_cancel _ token
    · rw [run_append]
      exact reaches_cancel hrun.balanced.sound token later

/-- A task that can be cancelled. -/
def cancellableSubmission : Submission Nat := ⟨"late", .normal, some ⟨0⟩, ⟨[.sleep 3], .value 7⟩⟩

/-- A pool of two in which the task was cancelled while it was queued. -/
def cancelledPool : Pool Nat := (pairPool.submitAt 5 cancellableSubmission).1.withCancelled ⟨0⟩

theorem reaches_cancelledPool : pairPool.Reaches cancelledPool :=
  (Pool.Step.submitAt pairPool 5 cancellableSubmission).reaches.trans
    (Pool.Step.cancel _ ⟨0⟩).reaches

theorem cancelledPool_tasks :
    cancelledPool.queue.tasks = [⟨1, .normal, 5, ⟨"late", some ⟨0⟩, ⟨[.sleep 3], .value 7⟩⟩⟩] := by
  rw [cancelledPool, pairPool_eq]
  rfl

theorem cancelledPool_staysCancelled :
    (startPool pairConfig {} 0 ⟨0, []⟩ = .ok (ofPool pairConfig pairPool none) ∨
        start pairConfig {} 0 ⟨0, []⟩ = .ok (ofPool pairConfig pairPool none)) ∧
      pairPool.Reaches cancelledPool ∧
      ∃ t ∈ cancelledPool.queue.tasks, cancelledPool.tokens.asksToStop t.body.token = true ∧
        cancelledPool.StaysCancelled t := by
  have hstart : startPool pairConfig {} 0 ⟨0, []⟩ = .ok (ofPool pairConfig pairPool none) :=
    startPool_of_start start_pairPool
  have hmem := List.mem_of_mem_head? (congrArg List.head? cancelledPool_tasks)
  have hstop : cancelledPool.tokens.asksToStop (some ⟨0⟩) = true :=
    Cancellations.isCancelled_cancel _ ⟨0⟩
  have h := (run_staysCancelled pairConfig {} 0 ⟨0, []⟩ _ (.inl hstart)).1 cancelledPool _
    reaches_cancelledPool hmem hstop
  exact ⟨.inl hstart, reaches_cancelledPool, _, hmem, hstop, h⟩

end Engine

end Dispatch
