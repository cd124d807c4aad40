import Dispatch.Proofs.Pool.Act
/-!
# Pools that are at their end

When a shutdown has returned, all workers of the pool have stopped and nobody starts them again. From
then on a pool refuses what is submitted, and counts the refusals; whatever else is done to it changes
nothing of what it has done before.
-/

namespace Dispatch

variable {α : Type}

namespace Pool

variable {p q r : Pool α} {index : Nat}

/-- Whether a pool was shut down and all its workers have stopped. -/
structure Over (p : Pool α) : Prop where
  accepting_eq : p.accepting = false
  closed : p.queue.closed = true
  isStopped : p.isStopped = true
  joined : p.joined = true

/-! ## Turns -/

theorem eq_stopped_of_isStopped (h : p.isStopped = true) {w : Worker α} (hw : w ∈ p.workers) :
    w = .stopped := by
  have hstopped := List.all_eq_true.1 h w hw
  cases w with
  | stopped => rfl
  | _ => contradiction

/-- A worker that has stopped does nothing any more. -/
theorem turnAt_eq_self (h : p.isStopped = true) (index : Nat) : p.turnAt index = p := by
  unfold turnAt
  split
  · rfl
  · rename_i w hw
    obtain rfl := eq_stopped_of_isStopped h (List.mem_of_getElem? hw)
    obtain ⟨hindex, hget⟩ := List.getElem?_eq_some_iff.1 hw
    simp only [turn]
    rw [← hget, List.set_getElem_self]

theorem settle_eq_self (h : p.isStopped = true) : p.settle = p := by
  have hsweep : p.sweep = p :=
    keeps_sweep (I := (· = p)) (fun q index hq => hq ▸ turnAt_eq_self (hq ▸ h) index) rfl
  rw [settle, if_neg (by simp [hsweep]), hsweep]

theorem nextWake_of_isStopped (h : p.isStopped = true) : p.nextWake = none := by
  have hsleeps : p.workers.filterMap Worker.wakeAt? = [] := by
    refine List.filterMap_eq_nil_iff.2 fun w hw => ?_
    rw [eq_stopped_of_isStopped h hw]
    rfl
  have hwaits : p.workers.any Worker.isWaiting = false := by
    refine List.any_eq_false.2 fun w hw => ?_
    rw [eq_stopped_of_isStopped h hw]
    simp [Worker.isWaiting]
  simp [nextWake, hsleeps, hwaits]

/-! ## The end of a shutdown -/

theorem close_accepting (hs : p.queue.Sound p.clock) (graceful : Bool) :
    (p.close graceful).accepting = false := by
  unfold close
  split
  · let refusing := { p with accepting := false }
    have hgrows := (reaches_closeQueue (p := refusing) hs rfl graceful).grows (p := refusing) hs
    by_contra haccepting
    have hbefore : refusing.accepting = true := hgrows.accepting (by simpa using haccepting)
    contradiction
  · rename_i hnot
    simpa using hnot

/-- A join takes out what is left, and changes nothing else of how far a pool has come. -/
theorem join_progress (p : Pool α) : p.join.accepting = p.accepting ∧
    p.join.queue.closed = p.queue.closed ∧ p.join.workers = p.workers ∧ p.join.joined = true := by
  unfold join
  split
  · exact ⟨rfl, rfl, rfl, ‹_›⟩
  · obtain ⟨_, _, _, _, heq⟩ := cancelRemoved_eq_with
      { p with queue := p.queue.drain.1, joined := true } p.queue.drain.2
    simp only [heq]
    exact ⟨trivial, rfl, trivial, trivial⟩

theorem over_join (hrefusing : p.accepting = false) (hclosed : p.queue.closed = true)
    (hstopped : p.isStopped = true) : p.join.Over := by
  obtain ⟨haccepting, hqueue, hworkers, hjoined⟩ := join_progress p
  refine ⟨haccepting.trans hrefusing, hqueue.trans hclosed, ?_, hjoined⟩
  rw [isStopped, hworkers]
  exact hstopped

/-! ## Requests -/

theorem Over.close_eq (h : p.Over) (graceful : Bool) : p.close graceful = p :=
  if_neg (by simp [h.accepting_eq])

theorem Over.abandon_eq (h : p.Over) : p.abandon = p := if_neg (by simp [h.accepting_eq])

theorem Over.join_eq (h : p.Over) : p.join = p := if_pos h.joined

theorem Over.switch_eq (h : p.Over) (kind : StrategyKind) : p.switch kind = (p, none) :=
  if_neg (by simp [TaskQueue.canSwitch, h.closed])

/-- A pool that has refused a task because it was shut down. -/
def refusing (p : Pool α) (t : Task (Job α)) : Pool α :=
  { p with
    nextId := p.nextId + 1
    metrics := p.metrics.recordRejected
    answers := (t, .error .shuttingDown) :: p.answers }

theorem submitAt_of_not_accepting (h : p.accepting = false) (readyAt : Instant) (s : Submission α) :
    p.submitAt readyAt s = (p.refusing (p.newTask readyAt s), .error .shuttingDown) := by
  have hanswer : ({ p with nextId := p.nextId + 1 } : Pool α).accept (p.newTask readyAt s) =
      (({ p with nextId := p.nextId + 1 } : Pool α).reject, .error .shuttingDown) :=
    if_neg (by simp [h])
  unfold newTask at hanswer
  simp only [submitAt, hanswer]
  rfl

/-! ## What goes on -/

/-- Whether a pool that is over has come to another one by refusing so many tasks, and by nothing else
than the passing of time and what callers do to tokens. -/
structure OnlyRefuses (refusals : Nat) (p q : Pool α) : Prop where
  isOver : q.Over
  clock_le : p.clock ≤ q.clock
  queue_eq : q.queue = p.queue
  breaker_eq : q.breaker = p.breaker
  workers_eq : q.workers = p.workers
  takes_eq : q.takes = p.takes
  delivered_eq : q.delivered = p.delivered
  /-- Of the counts only that of the refusals goes on. -/
  metrics_eq : q.metrics = { p.metrics with rejected := p.metrics.rejected + refusals }
  /-- What was submitted since then was refused, and nothing else was. -/
  answers_eq : ∃ refused, q.answers = refused ++ p.answers ∧
    refused.map Prod.snd = List.replicate refusals (.error .shuttingDown)

theorem Over.onlyRefuses (h : p.Over) : OnlyRefuses 0 p p :=
  ⟨h, Int.le_refl _, rfl, rfl, rfl, rfl, rfl, rfl, [], rfl, rfl⟩

theorem OnlyRefuses.trans {m n : Nat} (hpq : OnlyRefuses m p q) (hqr : OnlyRefuses n q r) :
    OnlyRefuses (m + n) p r where
  isOver := hqr.isOver
  clock_le := Int.le_trans hpq.clock_le hqr.clock_le
  queue_eq := hqr.queue_eq.trans hpq.queue_eq
  breaker_eq := hqr.breaker_eq.trans hpq.breaker_eq
  workers_eq := hqr.workers_eq.trans hpq.workers_eq
  takes_eq := hqr.takes_eq.trans hpq.takes_eq
  delivered_eq := hqr.delivered_eq.trans hpq.delivered_eq
  metrics_eq := by rw [hqr.metrics_eq, hpq.metrics_eq, Nat.add_assoc]
  answers_eq := by
    obtain ⟨first, hfirst, hanswers⟩ := hpq.answers_eq
    obtain ⟨later, hlater, hanswers'⟩ := hqr.answers_eq
    refine ⟨later ++ first, by rw [hlater, hfirst, List.append_assoc], ?_⟩
    rw [List.map_append, hanswers, hanswers', List.replicate_append_replicate, Nat.add_comm]

theorem Over.onlyRefuses_withClock (h : p.Over) {now : Instant} (hle : p.clock ≤ now) :
    OnlyRefuses 0 p { p with clock := now } :=
  { h.onlyRefuses with isOver := { h with }, clock_le := hle }

theorem Over.onlyRefuses_withTokens (h : p.Over) (tokens : Cancellations) :
    OnlyRefuses 0 p { p with tokens := tokens } :=
  { h.onlyRefuses with isOver := { h with } }

theorem Over.onlyRefuses_submitAt (h : p.Over) (readyAt : Instant) (s : Submission α) :
    OnlyRefuses 1 p (p.submitAt readyAt s).1 := by
  rw [submitAt_of_not_accepting h.accepting_eq]
  exact { h.onlyRefuses with
    isOver := { h with }
    metrics_eq := rfl
    answers_eq := ⟨[(p.newTask readyAt s, .error .shuttingDown)], rfl, rfl⟩ }

end Pool

end Dispatch
