import Dispatch.Proofs.Engine.Outcomes
import Dispatch.Proofs.Pool.Punctual
import Dispatch.Proofs.Pool.Urgent
/-!
# When tasks start

The two main statements of this module hold from the start of a pool on, in whatever order submissions,
exchanges of the strategy, turns of workers, closes and the passing of time follow each other: no task
starts before it is ready, and one worker always starts the most urgent task that is ready.
-/

namespace Dispatch

variable {α : Type}

namespace Engine

variable {e : Engine α}

/-- Runs can be put together. -/
theorem run_append (e : Engine α) (requests later : List (Request α)) :
    e.run (requests ++ later) = (e.run requests).run later :=
  List.foldl_append

/-- What is done to a pool leads to all that comes of the request and those after it. -/
theorem reaches_settle_run (e : Engine α) (hs : e.pool.queue.Sound e.pool.clock)
    (later : List (Request α)) : e.pool.Reaches (e.settle.run later).pool :=
  ((leadsTo_settle e).trans (leadsTo_run _ later)) hs

theorem reaches_submitAt (hs : e.pool.queue.Sound e.pool.clock) (readyAt : Instant)
    (s : Submission α) (later : List (Request α)) :
    (e.pool.submitAt readyAt s).1.Reaches ((e.submitAt readyAt s).1.run later).pool :=
  reaches_settle_run { e with pool := (e.pool.submitAt readyAt s).1 }
    ((Pool.Step.submitAt e.pool readyAt s).grows hs).sound later

/-! ## Ready instants -/

theorem punctual_of_start {config : EngineConfig} {around : Surroundings} {now : Instant}
    {log : LogBook} {p : Pool α} (h : Pool.start config around now log = .ok p) : p.Punctual := by
  have hkept : (Pool.ofWorkers config (config.resolvedWorkerCount around.processors)
      (config.resolvedWorkerCount around.processors) now log : Pool α).Kept :=
    Pool.kept_ofWorkers _ _ _ _ _
  refine ((Pool.works_of_start h).reaches.punctual hkept ⟨?_, ?_⟩).2 <;> simp [Pool.ofWorkers]

/-- A task that is ready some time after its submission. -/
def lateSubmission : Submission Nat := ⟨"late", .normal, none, ⟨[.sleep 3], .value 7⟩⟩

/-- The workers of the pool of two have come to their first wait after two turns each. -/
theorem pairPool_eq : pairPool = (Pool.ofWorkers pairConfig 2 2 0 ⟨0, []⟩ : Pool Nat).sweep.sweep := by
  unfold pairPool
  rw [Pool.settle, if_pos (by decide), Pool.settle, if_neg (by decide)]

theorem undivided_of_start {config : EngineConfig} {around : Surroundings} {now : Instant}
    {log : LogBook} {p : Pool α} (h : Pool.start config around now log = .ok p)
    (hone : config.resolvedWorkerCount around.processors = 1) : p.queue.Undivided := by
  have hgrows := (Pool.works_of_start h).reaches.grows
    (Pool.kept_ofWorkers _ _ _ _ _).balanced.sound
  rw [hone] at hgrows
  exact (TaskQueue.undivided_ofKind _ _ _).of_sameSettings hgrows.settings

/-- From the start of a pool or an engine of one worker on, whatever it takes is the least in the order
of urgency among the queued tasks that are ready, and where it finds nothing, none is. What is
submitted at one priority to be run at once is taken in the order of submission. -/
theorem run_startsUrgent (config : EngineConfig) (around : Surroundings) (now : Instant)
    (log : LogBook) (e : Engine α)
    (h : startPool config around now log = .ok e ∨ start config around now log = .ok e)
    (hone : config.resolvedWorkerCount around.processors = 1) :
    (∀ q, e.pool.Reaches q → q.LeavesNone ∧ ∀ q', Pool.Step q q' → q.TakesNext q') ∧
      (∀ a b q s s' handle handle', e.pool.Reaches a → (a.submit s).2 = .ok handle →
        (a.submit s).1.Reaches b → (b.submit s').2 = .ok handle' → s'.priority = s.priority →
        (b.submit s').1.Reaches q → q.TakesInOrder handle.id handle'.id) ∧
      ∀ before between after s s' handle handle', ((e.run before).submit s).2 = .ok handle →
        ((e.run (before ++ .submit s :: between)).submit s').2 = .ok handle' →
        s'.priority = s.priority →
        (e.run (before ++ .submit s :: between ++ .submit s' :: after)).pool.TakesInOrder
          handle.id handle'.id := by
  have hstart := start_pool h
  have hkept := Pool.kept_of_start hstart
  have hundivided : ∀ q, e.pool.Reaches q → q.queue.Undivided := fun q hreaches =>
    (undivided_of_start hstart hone).of_sameSettings
      (hreaches.grows hkept.balanced.sound).settings
  have horder : ∀ a b q s s' handle handle', e.pool.Reaches a → (a.submit s).2 = .ok handle →
      (a.submit s).1.Reaches b → (b.submit s').2 = .ok handle' → s'.priority = s.priority →
      (b.submit s').1.Reaches q → q.TakesInOrder handle.id handle'.id := by
    intro a b q s s' handle handle' ha hfirst hbetween hsecond hpriority hafter
    exact Pool.takesInOrder_submit (ha.kept hkept) (hundivided a ha) hfirst hbetween hsecond
      hpriority hafter
  refine ⟨fun q hreaches => ?_, horder, ?_⟩
  · have hs := (hreaches.kept hkept).balanced.sound
    exact ⟨Pool.leavesNone hs (hundivided q hreaches),
      fun q' hstep => hstep.takesNext hs (hundivided q hreaches)⟩
  · intro before between after s s' handle handle' hfirst hsecond hpriority
    let first := e.run before
    let second := e.run (before ++ .submit s :: between)
    have hrun := fun requests => leadsTo_run e requests hkept.balanced.sound
    have hsound := fun requests => ((hrun requests).kept hkept).balanced.sound
    have hbetween := reaches_submitAt (hsound before) first.clock s between
    have hafter := reaches_submitAt (hsound (before ++ .submit s :: between)) second.clock s' after
    have hsecondEq : second = (first.submitAt first.clock s).1.run between := run_append e _ _
    rw [← hsecondEq] at hbetween
    rw [run_append]
    exact horder _ _ _ s s' handle handle' (hrun before) hfirst hbetween hsecond hpriority hafter

/-- A pool of one worker that starts with a backlog for each worker. -/
def soloConfig : EngineConfig := { workerCount := 1, initialStrategy := .sharded }

/-- The pool of one worker that is started where threads are not limited. -/
def soloPool : Pool Nat := (Pool.ofWorkers soloConfig 1 1 0 ⟨0, []⟩).settle

theorem start_soloPool : Pool.start soloConfig {} 0 ⟨0, []⟩ = .ok soloPool := by
  have hvalid : soloConfig.validate = .ok () := rfl
  unfold Pool.start
  rw [hvalid]
  rfl

/-- Its worker has come to its first wait after two turns. -/
theorem soloPool_eq : soloPool = (Pool.ofWorkers soloConfig 1 1 0 ⟨0, []⟩ : Pool Nat).sweep.sweep := by
  unfold soloPool
  rw [Pool.settle, if_pos (by decide), Pool.settle, if_neg (by decide)]

/-- Of two tasks the one that was submitted first is taken first, whatever is requested afterwards. -/
theorem soloPool_startsUrgent :
    (startPool soloConfig {} 0 ⟨0, []⟩ = .ok (ofPool soloConfig soloPool none) ∨
        start soloConfig {} 0 ⟨0, []⟩ = .ok (ofPool soloConfig soloPool none)) ∧
      soloConfig.resolvedWorkerCount 1 = 1 ∧
      (∀ q, soloPool.Reaches q → q.LeavesNone ∧ ∀ q', Pool.Step q q' → q.TakesNext q') ∧
      (soloPool.submit lateSubmission).2 = .ok ⟨1, none, false⟩ ∧
      ((soloPool.submit lateSubmission).1.submit lateSubmission).2 = .ok ⟨2, none, false⟩ ∧
      (∀ q, ((soloPool.submit lateSubmission).1.submit lateSubmission).1.Reaches q →
        q.TakesInOrder 1 2) ∧
      (((ofPool soloConfig soloPool none).run [.submit lateSubmission]).submit lateSubmission).2 =
        .ok ⟨2, none, false⟩ ∧
      ∀ after, ((ofPool soloConfig soloPool none).run
        (.submit lateSubmission :: .submit lateSubmission :: after)).pool.TakesInOrder 1 2 := by
  have hstart : startPool soloConfig {} 0 ⟨0, []⟩ = .ok (ofPool soloConfig soloPool none) :=
    startPool_of_start start_soloPool
  have hfirst : (soloPool.submit lateSubmission).2 = .ok ⟨1, none, false⟩ := by
    rw [soloPool_eq]
    rfl
  have hsecond : ((soloPool.submit lateSubmission).1.submit lateSubmission).2 =
      .ok ⟨2, none, false⟩ := by
    rw [soloPool_eq]
    rfl
  have hrun : (((ofPool soloConfig soloPool none).run [.submit lateSubmission]).submit
      lateSubmission).2 = .ok ⟨2, none, false⟩ := by
    decide +kernel
  have h := run_startsUrgent soloConfig {} 0 ⟨0, []⟩ _ (.inl hstart) rfl
  refine ⟨.inl hstart, rfl, h.1, hfirst, hsecond, fun q hafter => ?_, hrun, fun after => ?_⟩
  · exact h.2.1 soloPool _ q _ _ _ _ (.refl _) hfirst (.refl _) hsecond rfl hafter
  · exact h.2.2 [] [] after _ _ ⟨1, none, false⟩ ⟨2, none, false⟩ hfirst hrun rfl

end Engine

end Dispatch
