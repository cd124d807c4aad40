import Dispatch.Proofs.Pool.Growth
/-!
# How a closed pool comes to rest

Once the queue is closed, a worker that finds no task stops, and it finds none only if no task is
ready. What a close leaves in the queue is ready, so that a worker stops only when nothing is left.
-/

namespace Dispatch

variable {α : Type}

namespace Pool

variable {p q : Pool α} {t : Task (Job α)} {index : Nat}

/-! ## Stopped workers -/

theorem Proceeds.ne_stopped {actions : List Action} {w : Worker α}
    (h : p.Proceeds t actions q w) : w ≠ .stopped := by
  cases h <;> simp

theorem TakesOn.ne_stopped {queue : TaskQueue (Job α)} {w : Worker α}
    (h : p.TakesOn queue t q w) : w ≠ .stopped := by
  cases h with
  | cancels _ _ => simp
  | refuses _ _ _ _ _ => simp
  | starts _ _ _ _ hproceeds => exact hproceeds.ne_stopped

/-- A worker stops because the queue is closed; if waits are to be given up, no task is ready then. -/
theorem Turned.of_stopped {w : Worker α} (h : p.Turned index w q .stopped) :
    w = .stopped ∨ p.queue.closed = true ∧ (p.queue.strategy.isInterrupted = true →
      ∀ t ∈ p.queue.tasks, t.isReady p.clock = false) := by
  cases h with
  | rests _ => exact .inl rfl
  | goesOn _ _ hproceeds => exact absurd rfl hproceeds.ne_stopped
  | misses _ _ _ hlooks _ hstopped =>
      exact .inr ⟨hstopped.1 rfl, fun hint => hlooks.not_isReady hint rfl⟩
  | takes _ _ _ htakes => exact absurd rfl htakes.ne_stopped

/-- Whether a pool that admits tasks has an open queue, and workers stop at a closed one only. -/
structure Gated (p : Pool α) : Prop where
  open_of_accepting : p.accepting = true → p.queue.closed = false
  closed_of_stopped : .stopped ∈ p.workers → p.queue.closed = true

theorem gated_turnAt (hs : p.queue.Sound p.clock) (h : p.Gated) (index : Nat) :
    (p.turnAt index).Gated := by
  have hcarries := carries_turnAt hs index
  refine ⟨fun hacc => ?_, fun hmem => hcarries.closed ?_⟩
  · exact hcarries.still_open hacc (h.open_of_accepting (hcarries.accepting hacc))
  · rcases turnAt_cases hs index with ⟨-, heq⟩ | ⟨w, p', w', hw, hturned, heq⟩
    · exact h.closed_of_stopped (heq ▸ hmem)
    · rw [heq] at hmem
      rcases List.mem_or_eq_of_mem_set hmem with hmem | rfl
      · exact h.closed_of_stopped (hturned.sameFrame.workers_eq ▸ hmem)
      · rcases hturned.of_stopped with rfl | ⟨hclosed, -⟩
        · exact h.closed_of_stopped (List.mem_of_getElem? hw)
        · exact hclosed

/-- Only turns make workers stop. -/
theorem Step.gated (hstep : Step p q) (hs : p.queue.Sound p.clock) (h : p.Gated) : q.Gated := by
  have hgrows := hstep.grows hs
  have hopen : q.accepting = true → q.queue.closed = false := fun hacc =>
    hgrows.still_open hacc (h.open_of_accepting (hgrows.accepting hacc))
  have hrequest : q.workers = p.workers → q.Gated := fun hworkers =>
    ⟨hopen, fun hmem => hgrows.closed (h.closed_of_stopped (hworkers ▸ hmem))⟩
  cases hstep with
  | work hwork =>
      cases hwork with
      | turn index => exact gated_turnAt hs h index
      | tick now hle => exact hrequest rfl
  | submitAt readyAt s => exact hrequest (submits_submitAt p readyAt s).workers_eq
  | clear graceful hclosed => exact hrequest (cancelRemoved_workers _)
  | strand => exact hrequest (cancelRemoved_workers _)
  | _ => exact hrequest rfl

theorem Reaches.gated (hreaches : p.Reaches q) (hs : p.queue.Sound p.clock) (h : p.Gated) :
    q.Gated := by
  induction hreaches with
  | refl => exact h
  | tail hfirst hlast ih => exact hlast.gated (Reaches.grows hs hfirst).sound ih

/-! ## What is left when a worker stops -/

/-- A turn adds no task to the queue. -/
theorem Turned.tasks_subset {w w' : Worker α} (h : p.Turned index w q w') :
    q.queue.tasks ⊆ p.queue.tasks := by
  cases h with
  | rests _ => exact List.Subset.refl _
  | goesOn _ _ hproceeds => rw [hproceeds.queue_eq]; exact List.Subset.refl _
  | misses _ _ _ hlooks _ _ => exact hlooks.handsOut.tasks_perm.symm.subset
  | takes _ _ hlooks htakes =>
      rw [htakes.queue_eq]
      exact fun u hu => hlooks.handsOut.tasks_perm.mem_iff.2 (List.mem_cons_of_mem _ hu)

/-- Whether the queue of a pool is closed, waits are given up, and a worker has stopped only if no
task is ready. -/
structure Spent (p : Pool α) : Prop where
  sound : p.queue.Sound p.clock
  closed : p.queue.closed = true
  interrupted : p.queue.strategy.isInterrupted = true
  not_isReady : .stopped ∈ p.workers → ∀ t ∈ p.queue.tasks, t.isReady p.clock = false

/-- A turn at a closed queue comes at the same instant and adds no task. -/
theorem Spent.turnAt (h : p.Spent) (index : Nat) :
    (p.turnAt index).Spent ∧ (p.turnAt index).clock = p.clock ∧
      (p.turnAt index).queue.tasks ⊆ p.queue.tasks := by
  have hcarries := carries_turnAt h.sound index
  have hclock := clock_turnAt h.sound index
  rcases turnAt_cases h.sound index with ⟨-, heq⟩ | ⟨w, p', w', hw, hturned, heq⟩
  · rw [heq]
    exact ⟨h, rfl, List.Subset.refl _⟩
  · have hsubset : (p.turnAt index).queue.tasks ⊆ p.queue.tasks := by
      rw [heq]
      exact hturned.tasks_subset
    refine ⟨⟨hcarries.sound, hcarries.closed h.closed,
      hcarries.isInterrupted_eq.trans h.interrupted, fun hmem t ht => ?_⟩, hclock, hsubset⟩
    rw [hclock]
    rw [heq] at hmem
    rcases List.mem_or_eq_of_mem_set hmem with hmem | rfl
    · exact h.not_isReady (hturned.sameFrame.workers_eq ▸ hmem) t (hsubset ht)
    · rcases hturned.of_stopped with rfl | ⟨-, hnone⟩
      · exact h.not_isReady (List.mem_of_getElem? hw) t (hsubset ht)
      · exact hnone h.interrupted t (hsubset ht)

/-- Whether moreover all tasks that are left are ready. -/
structure Closing (p : Pool α) : Prop extends Spent p where
  isReady : ∀ t ∈ p.queue.tasks, t.isReady p.clock = true

/-- When a worker has stopped, nothing is left in the queue. -/
theorem Closing.tasks_eq_nil (h : p.Closing) (hmem : .stopped ∈ p.workers) :
    p.queue.tasks = [] := by
  refine List.eq_nil_iff_forall_not_mem.2 fun t ht => ?_
  have htrue := h.isReady t ht
  rw [h.not_isReady hmem t ht] at htrue
  contradiction

theorem Closing.turnAt (h : p.Closing) (index : Nat) : (p.turnAt index).Closing := by
  obtain ⟨hspent, hclock, hsubset⟩ := h.toSpent.turnAt index
  refine ⟨hspent, fun t ht => ?_⟩
  rw [hclock]
  exact h.isReady t (hsubset ht)

theorem Closing.settle (h : p.Closing) : p.settle.Closing :=
  keeps_settle (fun _ index hq => hq.turnAt index) h

theorem Closing.withClock (h : p.Closing) {now : Instant} (hle : p.clock ≤ now) :
    { p with clock := now }.Closing := by
  have hready : ∀ t ∈ p.queue.tasks, t.isReady now = true := fun t ht =>
    Task.isReady_mono hle (h.isReady t ht)
  refine ⟨⟨h.sound.mono hle, h.closed, h.interrupted, fun hmem t ht => ?_⟩, hready⟩
  rw [show p.queue.tasks = [] from h.tasks_eq_nil hmem] at ht
  contradiction

/-- What is left stays ready, in whatever order workers have their turns and time passes. -/
theorem Works.closing (hworks : p.Works q) (h : p.Closing) : q.Closing := by
  refine hworks.keeps (fun {p q} hwork h => ?_) h
  cases hwork with
  | turn index => exact h.turnAt index
  | tick now hle => exact h.withClock hle

end Pool

end Dispatch
