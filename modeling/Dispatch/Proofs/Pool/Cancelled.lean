import Dispatch.Proofs.Pool.Circuit
/-!
# Tasks that are cancelled before a worker takes them

A worker looks at the token of a task before it asks the breaker. So a task whose token is cancelled
while it is queued is not started, whatever the circuit does with work: it leaves the queue by being
cancelled, be it that a worker takes it or that it is removed.
-/

namespace Dispatch

variable {α : Type}

namespace Pool

variable {p q : Pool α} {t : Task (Job α)} {index : Nat} {left : List (Task (Job α))}

/-- Whether a step takes some tasks out of the queue and cancels them. Each of them is counted once, and
the breaker is left as it is. -/
structure Cancels (p : Pool α) (left : List (Task (Job α))) (q : Pool α) : Prop where
  tasks_perm : p.queue.tasks.Perm (left ++ q.queue.tasks)
  delivered_eq : q.delivered = left.reverse.map (fun t => (t.id, .cancelled)) ++ p.delivered
  cancelled_eq : q.metrics.cancelled = p.metrics.cancelled + left.length
  breaker_eq : q.breaker = p.breaker
  unstarted : ∀ take ∈ q.takes, take ∉ p.takes → take.started = false

theorem Cancels.mem_delivered (h : p.Cancels left q) (ht : t ∈ left) :
    (t.id, .cancelled) ∈ q.delivered := by
  rw [h.delivered_eq]
  exact List.mem_append_left _ (List.mem_map_of_mem (List.mem_reverse.2 ht))

/-- A worker that takes a task whose token is cancelled does so. -/
theorem cancels_turnAt (hs : p.queue.Sound p.clock) (htaken : p.taken? index = some t)
    (hstop : p.tokens.asksToStop t.body.token = true) : p.Cancels [t] (p.turnAt index) := by
  obtain ⟨queue, p', w', hlooks, htakes, heq⟩ := turned_takes_of_taken? hs htaken
  rw [heq]
  cases htakes with
  | cancels _ hends =>
      obtain ⟨metrics, breaker, log, haccounts, rfl⟩ := hends
      refine ⟨hlooks.handsOut.tasks_perm, rfl, haccounts.cancelled_eq, haccounts.breaker_eq, ?_⟩
      intro take htake hnew
      rw [(List.mem_cons.1 htake).resolve_right hnew]
  | refuses _ _ hgoes => exact absurd (hstop.symm.trans hgoes) (by simp)
  | starts _ _ hgoes => exact absurd (hstop.symm.trans hgoes) (by simp)

theorem cancelled_cancelRemoved (p : Pool α) (removed : List (Task (Job α))) :
    (p.cancelRemoved removed).metrics.cancelled = p.metrics.cancelled + removed.length := by
  rw [cancelRemoved_eq]
  induction removed generalizing p with
  | nil => rfl
  | cons t rest ih =>
      rw [List.foldl_cons, ih, List.length_cons, Nat.add_comm rest.length, ← Nat.add_assoc]
      rfl

/-- So does a removal of tasks that the queue hands out. -/
theorem cancels_cancelRemoved {queue : TaskQueue (Job α)} (joined : Bool)
    (hout : TaskQueue.HandsOut p.clock left p.queue queue) :
    p.Cancels left ({ p with queue := queue, joined := joined }.cancelRemoved left) where
  tasks_perm := by
    rw [cancelRemoved_queue]
    exact hout.tasks_perm
  delivered_eq := delivered_cancelRemoved _ left
  cancelled_eq := cancelled_cancelRemoved _ left
  breaker_eq := cancelRemoved_breaker left
  unstarted := fun take htake hnew => by
    rw [cancelRemoved_takes] at htake
    exact absurd htake hnew

theorem Submits.mem_queue {u : Task (Job α)} (hs : p.queue.Sound p.clock) (h : p.Submits u q)
    (ht : t ∈ p.queue.tasks) : t ∈ q.queue.tasks := by
  cases h with
  | refused fault breaker log => exact ht
  | accepted breaker log hpush =>
      exact (hs.push_of_ok hpush).2.mem_iff.2 (List.mem_cons_of_mem u ht)

/-- A step at which a task leaves the queue while its token is cancelled cancels it. -/
theorem Step.exists_cancels (hs : p.queue.Sound p.clock) (hstep : Step p q)
    (hbefore : t ∈ p.queue.tasks) (hafter : t ∉ q.queue.tasks)
    (hstop : p.tokens.asksToStop t.body.token = true) : ∃ left, t ∈ left ∧ p.Cancels left q := by
  -- what is handed out to nobody stays in the queue
  have hstays : ∀ {queue : TaskQueue (Job α)}, TaskQueue.HandsOut p.clock [] p.queue queue →
      t ∈ queue.tasks := fun hout => hout.tasks_perm.mem_iff.1 hbefore
  have hremoved : ∀ {queue : TaskQueue (Job α)} {removed : List (Task (Job α))} (joined : Bool),
      TaskQueue.HandsOut p.clock removed p.queue queue →
      t ∉ ({ p with queue := queue, joined := joined }.cancelRemoved removed).queue.tasks →
      t ∈ removed := by
    intro queue removed joined hout hnot
    rw [cancelRemoved_queue] at hnot
    exact (List.mem_append.1 (hout.tasks_perm.mem_iff.1 hbefore)).resolve_right hnot
  cases hstep with
  | work hwork =>
      cases hwork with
      | turn index =>
          exact ⟨[t], List.mem_cons_self,
            cancels_turnAt hs (taken?_of_left hs hbefore hafter) hstop⟩
      | tick now hle => exact absurd hbefore hafter
  | submitAt readyAt s => exact absurd ((submits_submitAt p readyAt s).mem_queue hs hbefore) hafter
  | freshToken | cancel _ | tellBreaker _ | note _ _ | refuse => exact absurd hbefore hafter
  | sample c => exact absurd (hstays (hs.withContention c)) hafter
  | interrupt _ => exact absurd (hstays hs.interrupt) hafter
  | refill kind _ => exact absurd (hstays (hs.refill kind).1) hafter
  | shut _ => exact absurd (hstays hs.shut) hafter
  | clear graceful _ =>
      have hout := hs.clear graceful
      exact ⟨_, hremoved p.joined hout hafter, cancels_cancelRemoved p.joined hout⟩
  | strand =>
      have hout := hs.drain.1
      exact ⟨_, hremoved true hout hafter, cancels_cancelRemoved true hout⟩

/-- A body is started only while the token of its task is not cancelled. -/
theorem Step.asksToStop_of_started (hs : p.queue.Sound p.clock) (hstep : Step p q) {take : Take α}
    (htake : take ∈ q.takes) (hnew : take ∉ p.takes) (hstarted : take.started = true) :
    p.tokens.asksToStop take.task.body.token = false := by
  obtain ⟨-, index, rfl, htaken⟩ := hstep.taken_of_new hs htake hnew
  refine Bool.eq_false_iff.2 fun hstop => ?_
  have hunstarted := (cancels_turnAt hs htaken hstop).unstarted take htake hnew
  exact absurd (hstarted.symm.trans hunstarted) (by simp)

/-! ## The future of a cancelled task -/

/-- Whether an accepted task with a cancelled token is queued, or was cancelled, without a start. -/
structure Doomed (p : Pool α) (t : Task (Job α)) : Prop where
  kept : p.Kept
  accepted : t ∈ p.accepted
  asksToStop : p.tokens.asksToStop t.body.token = true
  unstarted : ∀ take ∈ p.takes, take.task.id = t.id → take.started = false
  held_or_cancelled : t ∈ p.queue.tasks ∨ (t.id, .cancelled) ∈ p.delivered

theorem Kept.doomed (h : p.Kept) (ht : t ∈ p.queue.tasks)
    (hstop : p.tokens.asksToStop t.body.token = true) : p.Doomed t where
  kept := h
  accepted := h.balanced.mem_accepted t (List.mem_append_left _ ht)
  asksToStop := hstop
  unstarted := fun take htake hid => by
    have huntaken := h.traced.not_mem_takes [] h.balanced (by rwa [List.append_nil])
    exact absurd (List.mem_map.2 ⟨take, htake, hid⟩) huntaken
  held_or_cancelled := .inl ht

theorem Step.doomed (hstep : Step p q) (h : p.Doomed t) : q.Doomed t := by
  have hs := h.kept.balanced.sound
  have hgrows := hstep.grows hs
  have hkept := hstep.kept h.kept
  have haccepted := hgrows.accepted_subset h.accepted
  refine ⟨hkept, haccepted, hgrows.tokens.asksToStop h.asksToStop, fun take htake hid => ?_, ?_⟩
  · by_cases hold : take ∈ p.takes
    · exact h.unstarted take hold hid
    · refine Bool.eq_false_iff.2 fun hstarted => ?_
      -- the task that is started now is not cancelled, so it is not this one
      have hgoes := hstep.asksToStop_of_started hs htake hold hstarted
      obtain rfl : take.task = t := List.inj_on_of_nodup_map hkept.balanced.accepted_nodup
        (hkept.traced.takes_accepted take htake) haccepted hid
      exact absurd (h.asksToStop.symm.trans hgoes) (by simp)
  · by_cases hqueue : t ∈ q.queue.tasks
    · exact .inl hqueue
    · refine .inr (h.held_or_cancelled.elim (fun hmem => ?_) hgrows.delivered_suffix.mem)
      obtain ⟨left, hleft, hcancels⟩ := hstep.exists_cancels hs hmem hqueue h.asksToStop
      exact hcancels.mem_delivered hleft

theorem Reaches.doomed (hreaches : p.Reaches q) (h : p.Doomed t) : q.Doomed t :=
  hreaches.keeps (I := fun q => q.Doomed t) Step.doomed h

end Pool

end Dispatch
