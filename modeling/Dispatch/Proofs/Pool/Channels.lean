import Dispatch.Proofs.Pool.Trace
/-!
# What comes in at the handles

A step delivers outcomes and drops no handle. As long as the handle of a task is there, what has come in
at it is therefore what was delivered for the task.
-/

namespace Dispatch

variable {α : Type}

namespace Channels

variable {c : Channels α} {id other : Nat} {o : Outcome α}

@[simp] theorem dropped_send (c : Channels α) (id : Nat) (o : Outcome α) :
    (c.send id o).1.dropped = c.dropped := by
  unfold send
  split <;> rfl

/-- Nothing comes in at a handle that has been dropped. -/
theorem send_of_mem_dropped (h : id ∈ c.dropped) : (c.send id o).1 = c := by
  simp [send, h]

theorem lookup_send_self (h : id ∉ c.dropped) : (c.send id o).1.arrived.lookup id = some o := by
  simp [send, h]

/-- What is sent to one handle does not come in at another one. -/
theorem lookup_send_of_ne (h : other ≠ id) :
    (c.send id o).1.arrived.lookup other = c.arrived.lookup other := by
  unfold send
  split
  · rfl
  · rw [List.lookup_cons, beq_false_of_ne h]

end Channels

namespace Pool

variable {p q r : Pool α} {t : Task (Job α)} {o : Outcome α}

/-- Whether what has come in at the handles that are there is what was delivered. -/
def Faithful (p : Pool α) : Prop :=
  ∀ id, id ∉ p.channels.dropped → p.channels.arrived.lookup id = p.outcome? id

/-- Whether a pool comes of another one while no handle is dropped, and what is delivered comes in at the
handles that are there. -/
structure Conveys (p q : Pool α) : Prop where
  dropped_eq : q.channels.dropped = p.channels.dropped
  faithful : p.Faithful → q.Faithful

theorem Conveys.refl (p : Pool α) : p.Conveys p := ⟨rfl, id⟩

theorem Conveys.trans (h : p.Conveys q) (h' : q.Conveys r) : p.Conveys r :=
  ⟨h'.dropped_eq.trans h.dropped_eq, h'.faithful ∘ h.faithful⟩

theorem conveys_of_eq (hchannels : q.channels = p.channels) (hdelivered : q.delivered = p.delivered) :
    p.Conveys q := by
  refine ⟨congrArg Channels.dropped hchannels, fun h id hid => ?_⟩
  rw [hchannels] at hid ⊢
  rw [outcome?, hdelivered]
  exact h id hid

theorem Conveys.of_eq (h : q.Conveys r) (hchannels : q.channels = p.channels)
    (hdelivered : q.delivered = p.delivered) : p.Conveys r :=
  (conveys_of_eq hchannels hdelivered).trans h

/-- An outcome that is delivered is sent to the handle. -/
theorem conveys_send {id : Nat} (hchannels : q.channels = (p.channels.send id o).1)
    (hdelivered : q.delivered = (id, o) :: p.delivered) : p.Conveys q := by
  refine ⟨by rw [hchannels, Channels.dropped_send], fun h other hother => ?_⟩
  rw [hchannels, Channels.dropped_send] at hother
  rw [hchannels, outcome?, hdelivered, List.lookup_cons]
  by_cases heq : other = id
  · subst heq
    simp [Channels.lookup_send_self hother]
  · rw [Channels.lookup_send_of_ne heq, beq_false_of_ne heq]
    exact h other hother

/-! ## Turns -/

theorem Ends.conveys (h : p.Ends t o q) : p.Conveys q := by
  obtain ⟨metrics, breaker, log, -, rfl⟩ := h
  exact conveys_send rfl rfl

theorem Proceeds.conveys {actions : List Action} {w : Worker α} (h : p.Proceeds t actions q w) :
    p.Conveys q := by
  cases h with
  | sleeps _ _ _ _ => exact conveys_of_eq rfl rfl
  | ends _ _ hends => exact hends.conveys.of_eq rfl rfl

theorem TakesOn.conveys {queue : TaskQueue (Job α)} {w : Worker α} (h : p.TakesOn queue t q w) :
    p.Conveys q := by
  cases h with
  | cancels _ hends => exact hends.conveys.of_eq rfl rfl
  | refuses _ _ _ _ hends => exact hends.conveys.of_eq rfl rfl
  | starts _ _ _ _ hproceeds => exact hproceeds.conveys.of_eq rfl rfl

theorem Turned.conveys {index : Nat} {w w' : Worker α} (h : p.Turned index w q w') :
    p.Conveys q := by
  cases h with
  | rests _ => exact Conveys.refl p
  | goesOn _ _ hproceeds => exact hproceeds.conveys
  | misses _ _ _ _ _ _ => exact conveys_of_eq rfl rfl
  | takes _ _ _ htakes => exact htakes.conveys

theorem conveys_turnAt (hs : p.queue.Sound p.clock) (index : Nat) : p.Conveys (p.turnAt index) := by
  rcases turnAt_cases hs index with ⟨-, heq⟩ | ⟨w, p', w', -, hturned, heq⟩
  · rw [heq]
    exact Conveys.refl p
  · rw [heq]
    exact hturned.conveys.trans (conveys_of_eq rfl rfl)

/-! ## Steps -/

theorem Submits.conveys (h : p.Submits t q) : p.Conveys q := by
  cases h with
  | refused fault breaker log => exact conveys_of_eq rfl rfl
  | accepted breaker log hpush => exact conveys_of_eq rfl rfl

theorem conveys_cancelRemoved (p : Pool α) (removed : List (Task (Job α))) :
    p.Conveys (p.cancelRemoved removed) := by
  rw [cancelRemoved_eq]
  induction removed generalizing p with
  | nil => exact Conveys.refl p
  | cons t rest ih =>
      have hone : p.Conveys (p.cancelUntaken t) := conveys_send rfl rfl
      exact hone.trans (ih _)

theorem Step.conveys (hs : p.queue.Sound p.clock) (h : Step p q) : p.Conveys q := by
  cases h with
  | work hwork =>
      cases hwork with
      | turn index => exact conveys_turnAt hs index
      | tick now _ => exact conveys_of_eq rfl rfl
  | submitAt readyAt s => exact (submits_submitAt p readyAt s).conveys
  | clear _ _ | strand => exact (conveys_cancelRemoved _ _).of_eq rfl rfl
  | _ => exact conveys_of_eq rfl rfl

theorem Reaches.conveys (hs : p.queue.Sound p.clock) (h : p.Reaches q) : p.Conveys q := by
  induction h with
  | refl => exact Conveys.refl p
  | tail hfirst hlast ih => exact ih.trans (hlast.conveys (Reaches.grows hs hfirst).sound)

/-! ## Handles that are dropped -/

/-- A handle that is dropped says nothing about the others. -/
theorem Faithful.dropHandle (h : p.Faithful) (id : Nat) : (p.dropHandle id).Faithful :=
  fun other hother => h other fun hmem => hother (List.mem_cons_of_mem id hmem)

/-- The books and the record of a pool do not depend on its handles. -/
theorem Kept.dropHandle (h : p.Kept) (id : Nat) : (p.dropHandle id).Kept :=
  ⟨{ h.balanced with }, { h.traced with }, h.running_started⟩

end Pool

end Dispatch
