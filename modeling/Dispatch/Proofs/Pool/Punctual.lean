import Dispatch.Proofs.Pool.Taking
import Dispatch.Proofs.Task.Next
/-!
# Ready instants are kept

A task comes to the ready ones when it is submitted, when a worker looks at the delayed ones, or when
the strategy is exchanged. Whichever it was, no worker takes the task before its ready instant. The
time from there to the end of the body is then not negative, and recorded as it is.
-/

namespace Dispatch

variable {α : Type}

namespace Pool

variable {p q : Pool α} {t : Task (Job α)}

/-- Whether no task on record was taken before it was ready, or later than now. -/
structure Punctual (p : Pool α) : Prop where
  readyAt_le : ∀ take ∈ p.takes, take.task.readyAt ≤ take.takenAt
  takenAt_le : ∀ take ∈ p.takes, take.takenAt ≤ p.clock

/-- A task is taken only by a look that finds it ready. -/
theorem Step.punctual (hs : p.queue.Sound p.clock) (hstep : Step p q) (h : p.Punctual) :
    q.Punctual := by
  have hclock := (hstep.grows hs).clock_le
  have hold : ∀ take ∈ p.takes, take.takenAt ≤ q.clock := fun take ht =>
    Int.le_trans (h.takenAt_le take ht) hclock
  rcases hstep.takes_cases hs with heq | ⟨index, t, started, -, htaken, heq⟩
  · exact ⟨heq ▸ h.readyAt_le, heq ▸ hold⟩
  · have hready := Task.isReady_iff.1 (mem_of_taken? hs htaken).2
    exact ⟨heq ▸ List.forall_mem_cons.2 ⟨hready, h.readyAt_le⟩,
      heq ▸ List.forall_mem_cons.2 ⟨hclock, hold⟩⟩

theorem Reaches.punctual (hreaches : p.Reaches q) (hkept : p.Kept) (h : p.Punctual) :
    q.Kept ∧ q.Punctual :=
  hreaches.keeps (I := fun p => p.Kept ∧ p.Punctual)
    (fun hstep h => ⟨hstep.kept h.1, hstep.punctual h.1.balanced.sound h.2⟩) ⟨hkept, h⟩

/-- What a worker is busy with has been ready for some time. -/
theorem Punctual.readyAt_le_clock (h : p.Punctual) (hstarted : p.HasStarted t) :
    t.readyAt ≤ p.clock := by
  obtain ⟨take, htake, rfl, -⟩ := hstarted
  exact Int.le_trans (h.readyAt_le take htake) (h.takenAt_le take htake)

/-! ## Latencies -/

/-- Whether a pool has become another one by the end of a task, which is delivered and, if the body
has returned a value, recorded with the time since the task was ready. -/
def Delivers (p : Pool α) (t : Task (Job α)) (q : Pool α) : Prop :=
  ∃ o, q.delivered = (t.id, o) :: p.delivered ∧ q.metrics.latencies =
    if o.isCompleted then (p.metrics.recordCompleted (p.clock.since t.readyAt)).latencies
    else p.metrics.latencies

theorem Ends.delivers {o : Outcome α} (h : p.Ends t o q) : p.Delivers t q := by
  obtain ⟨metrics, breaker, log, hcounts, rfl⟩ := h
  exact ⟨o, rfl, hcounts.latencies_eq⟩

theorem Proceeds.delivers {actions : List Action} {w : Worker α}
    (h : p.Proceeds t actions q w) : q.delivered = p.delivered ∨ p.Delivers t q := by
  cases h with
  | sleeps _ _ _ _ => exact .inl rfl
  | ends _ _ hends => exact .inr hends.delivers

/-- A turn ends at most one task: one that the worker has, or one that it takes because it is ready. -/
theorem Turned.delivers {index : Nat} {w w' : Worker α} (h : p.Turned index w q w') :
    q.delivered = p.delivered ∨ ∃ t, p.Delivers t q ∧
      (w.task? = some t ∨ t ∈ p.queue.tasks ∧ t.isReady p.clock = true) := by
  cases h with
  | rests _ => exact .inl rfl
  | misses _ _ _ _ _ _ => exact .inl rfl
  | @goesOn run _ _ hw _ hproceeds =>
      exact hproceeds.delivers.imp_right fun h => ⟨run.task, h, .inl (by rw [hw]; rfl)⟩
  | @takes _ t _ _ _ _ hlooks htakes =>
      have hmem : t ∈ p.queue.tasks := hlooks.handsOut.tasks_perm.mem_iff.2 List.mem_cons_self
      have hready := hlooks.isReady t rfl
      cases htakes with
      | cancels _ hends => exact .inr ⟨t, hends.delivers, .inr ⟨hmem, hready⟩⟩
      | refuses _ _ _ _ hends => exact .inr ⟨t, hends.delivers, .inr ⟨hmem, hready⟩⟩
      | starts _ _ _ _ hproceeds =>
          exact hproceeds.delivers.imp_right fun h => ⟨t, h, .inr ⟨hmem, hready⟩⟩

theorem delivers_turnAt (hkept : p.Kept) (hpunctual : p.Punctual) (index : Nat) :
    (p.turnAt index).delivered = p.delivered ∨
      ∃ t ∈ p.accepted, t.readyAt ≤ p.clock ∧ p.Delivers t (p.turnAt index) := by
  rcases turnAt_cases hkept.balanced.sound index with ⟨-, heq⟩ | ⟨w, p', w', hw, hturned, heq⟩
  · exact .inl (congrArg delivered heq)
  · rw [heq]
    refine hturned.delivers.imp_right fun h => ?_
    obtain ⟨t, hdelivers, hmine | ⟨hmem, hready⟩⟩ := h
    · have hrunning : t ∈ p.running :=
        List.mem_filterMap.2 ⟨w, List.mem_of_getElem? hw, hmine⟩
      have hready := hpunctual.readyAt_le_clock (hkept.running_started t hrunning)
      have haccepted := hkept.balanced.mem_accepted t (List.mem_append_right _ hrunning)
      exact ⟨t, haccepted, hready, hdelivers⟩
    · have haccepted := hkept.balanced.mem_accepted t (List.mem_append_left _ hmem)
      exact ⟨t, haccepted, Task.isReady_iff.1 hready, hdelivers⟩

/-- A value is delivered only at the end of a task that was accepted, and is ready. -/
theorem Step.delivers (hkept : p.Kept) (hpunctual : p.Punctual) (hstep : Step p q) :
    (∀ id value, (id, .completed value) ∈ q.delivered → (id, .completed value) ∈ p.delivered) ∨
      q.clock = p.clock ∧ ∃ t ∈ p.accepted, t.readyAt ≤ p.clock ∧ p.Delivers t q := by
  cases hstep with
  | work hwork =>
      cases hwork with
      | tick now hle => exact .inl fun _ _ h => h
      | turn index =>
          rcases delivers_turnAt hkept hpunctual index with heq | h
          · exact .inl fun _ _ hmem => heq ▸ hmem
          · exact .inr ⟨clock_turnAt hkept.balanced.sound index, h⟩
  | submitAt readyAt s =>
      exact .inl fun _ _ h => (submits_submitAt p readyAt s).delivered_eq ▸ h
  | clear _ _ | strand =>
      refine .inl fun id value h => ?_
      have hold := mem_delivered_of_cancelRemoved _ h
      exact hold
  | _ => exact .inl fun _ _ h => h

end Pool

end Dispatch
