import Dispatch.Proofs.Pool.Growth
import Mathlib.Data.List.Nodup
import Mathlib.Data.List.Perm.Basic
/-!
# The books of a pool

Each accepted task is in the queue, or was taken out of it and has not ended, or its outcome was
delivered, and all counts follow from that. A worker has a task for a while between two states of the
pool, and so does a removal: the books are therefore kept for a list of tasks that are under way,
which in a state of the pool are the tasks of the workers.
-/

namespace Dispatch

variable {α : Type}

namespace Pool

/-- The tasks that the workers have. -/
def running (p : Pool α) : List (Task (Job α)) := p.workers.filterMap Worker.task?

/-- The tasks that were accepted. -/
def accepted (p : Pool α) : List (Task (Job α)) := (p.answers.filter (·.2.isOk)).map Prod.fst

/-- How many submissions were refused. -/
def refusals (p : Pool α) : Nat := p.answers.countP (!·.2.isOk)

/-- Whether the books of a pool are in order while some tasks are under way. -/
structure Balanced (under : List (Task (Job α))) (p : Pool α) : Prop where
  sound : p.queue.Sound p.clock
  answers_lt : ∀ a ∈ p.answers, a.1.id < p.nextId
  answers_nodup : (p.answers.map (·.1.id)).Nodup
  mem_accepted : ∀ t ∈ p.queue.tasks ++ under, t ∈ p.accepted
  accepted_perm : (p.accepted.map Task.id).Perm
    ((p.queue.tasks ++ under).map Task.id ++ p.delivered.map Prod.fst)
  outstanding_eq : p.tracker.outstanding = p.queue.size + under.length
  strayEnds_eq : p.tracker.strayEnds = 0
  submitted_eq : p.metrics.submitted = p.accepted.length
  rejected_eq : p.metrics.rejected = p.refusals
  completed_eq : p.metrics.completed = p.delivered.countP (·.2.isCompleted)
  failed_eq : p.metrics.failed = p.delivered.countP (·.2.isFailed)
  cancelled_eq : p.metrics.cancelled = p.delivered.countP (·.2.isCancelled)

variable {p q : Pool α} {t : Task (Job α)} {o : Outcome α} {under rest : List (Task (Job α))}

theorem Balanced.perm (h : p.Balanced under) {under' : List (Task (Job α))}
    (hperm : under.Perm under') : p.Balanced under' where
  sound := h.sound
  answers_lt := h.answers_lt
  answers_nodup := h.answers_nodup
  mem_accepted := fun t ht => h.mem_accepted t ((hperm.append_left _).mem_iff.2 ht)
  accepted_perm := h.accepted_perm.trans (((hperm.append_left _).map Task.id).append_right _)
  outstanding_eq := hperm.length_eq ▸ h.outstanding_eq
  strayEnds_eq := h.strayEnds_eq
  submitted_eq := h.submitted_eq
  rejected_eq := h.rejected_eq
  completed_eq := h.completed_eq
  failed_eq := h.failed_eq
  cancelled_eq := h.cancelled_eq

/-- An accepted task stays one. -/
theorem Grows.accepted_subset (h : p.Grows q) : p.accepted ⊆ q.accepted :=
  ((h.answers_suffix.sublist.filter _).map _).subset

/-- A handle is given for the task that was accepted. -/
theorem accepted_submitAt {readyAt : Instant} {s : Submission α} {handle : Handle}
    (h : (p.submitAt readyAt s).2 = .ok handle) :
    p.newTask readyAt s ∈ (p.submitAt readyAt s).1.accepted ∧ handle.id = p.nextId := by
  unfold submitAt at h ⊢
  simp only at h ⊢
  cases haccept : ({ p with nextId := p.nextId + 1 }.accept (p.newTask readyAt s)).2 with
  | error fault =>
      rw [newTask] at haccept
      rw [haccept] at h
      contradiction
  | ok =>
      rw [newTask] at haccept
      rw [haccept] at h ⊢
      cases h
      exact ⟨List.mem_map.2 ⟨_, List.mem_filter.2 ⟨List.mem_cons_self, rfl⟩, rfl⟩, rfl⟩

/-- The numbers of the accepted tasks are different. -/
theorem Balanced.accepted_nodup (h : p.Balanced under) : (p.accepted.map Task.id).Nodup := by
  have hsub : (p.accepted.map Task.id).Sublist (p.answers.map (·.1.id)) := by
    rw [accepted, List.map_map]
    exact List.filter_sublist.map _
  exact h.answers_nodup.sublist hsub

/-- A task is in one place only: the queue, the tasks under way, or the delivered outcomes. -/
theorem Balanced.places_nodup (h : p.Balanced under) :
    ((p.queue.tasks ++ under).map Task.id ++ p.delivered.map Prod.fst).Nodup :=
  h.accepted_perm.nodup_iff.1 h.accepted_nodup

/-! ## What a turn keeps -/

/-- Tasks that the queue hands out are under way. -/
theorem Balanced.handsOut (h : p.Balanced under) {ts : List (Task (Job α))}
    {queue : TaskQueue (Job α)} (hout : TaskQueue.HandsOut p.clock ts p.queue queue) :
    { p with queue := queue }.Balanced (ts ++ under) := by
  have hperm : (p.queue.tasks ++ under).Perm (queue.tasks ++ (ts ++ under)) := by
    rw [← List.append_assoc]
    exact (hout.tasks_perm.trans List.perm_append_comm).append_right _
  refine { h with
    sound := hout.sound
    mem_accepted := fun t ht => h.mem_accepted t (hperm.mem_iff.2 ht)
    accepted_perm := h.accepted_perm.trans ((hperm.map Task.id).append_right _)
    outstanding_eq := ?_ }
  show p.tracker.outstanding = queue.size + (ts ++ under).length
  rw [h.outstanding_eq, List.length_append, hout.size_eq h.sound]
  omega

/-- A task that ends is no longer under way, and counted by its outcome. -/
theorem Balanced.countsEnd (h : p.Balanced (t :: rest)) {metrics : Metrics}
    {latency : Duration} (hcounts : p.metrics.CountsEnd o latency metrics) :
    { p with
      metrics := metrics
      delivered := (t.id, o) :: p.delivered
      tracker := p.tracker.leave }.Balanced rest := by
  have hone : p.tracker.outstanding = p.queue.size + rest.length + 1 := h.outstanding_eq
  refine { h with
    mem_accepted := fun u hu => h.mem_accepted u ?_
    accepted_perm := h.accepted_perm.trans ?_
    outstanding_eq := ?_
    strayEnds_eq := ?_
    submitted_eq := hcounts.submitted_eq.trans h.submitted_eq
    rejected_eq := hcounts.rejected_eq.trans h.rejected_eq
    completed_eq := ?_
    failed_eq := ?_
    cancelled_eq := ?_ }
  · exact List.perm_middle.mem_iff.2 (List.mem_cons_of_mem t hu)
  -- the number moves from what is under way to what is delivered
  · refine (List.perm_middle.map Task.id).append_right _ |>.trans ?_
    exact List.perm_middle.symm
  · show p.tracker.outstanding - 1 = p.queue.size + rest.length
    omega
  · show (if p.tracker.outstanding = 0 then _ else p.tracker.strayEnds) = 0
    rw [if_neg (by omega), h.strayEnds_eq]
  · rw [hcounts.completed_eq, h.completed_eq, List.countP_cons]
    cases o.isCompleted <;> rfl
  · rw [hcounts.failed_eq, h.failed_eq, List.countP_cons]
    cases o.isFailed <;> rfl
  · rw [hcounts.cancelled_eq, h.cancelled_eq, List.countP_cons]
    cases o.isCancelled <;> rfl

theorem Ends.balanced (h : p.Balanced (t :: rest)) (hends : p.Ends t o q) : q.Balanced rest := by
  obtain ⟨metrics, breaker, log, hcounts, rfl⟩ := hends
  exact { h.countsEnd hcounts.toCountsEnd with }

theorem Proceeds.balanced (h : p.Balanced (t :: rest)) {actions : List Action} {w : Worker α}
    (hproceeds : p.Proceeds t actions q w) : q.Balanced (w.task?.toList ++ rest) := by
  cases hproceeds with
  | sleeps _ htask _ _ =>
      subst htask
      exact { h with }
  | @ends c _ _ _ _ hends =>
      have hc : { p with tokens := c }.Balanced (t :: rest) := { h with }
      exact hends.balanced hc

theorem TakesOn.balanced (h : p.Balanced rest) {queue : TaskQueue (Job α)} {w : Worker α}
    (hlooks : TaskQueue.Looks p.clock p.queue (queue, some t)) (htakes : p.TakesOn queue t q w) :
    q.Balanced (w.task?.toList ++ rest) := by
  have htake : ∀ take breaker log, (p.withTake queue take breaker log).Balanced (t :: rest) :=
    fun take breaker log => { h.handsOut hlooks.handsOut with }
  cases htakes with
  | cancels _ hends => exact hends.balanced (htake _ _ _)
  | refuses _ _ _ _ hends => exact hends.balanced (htake _ _ _)
  | starts _ _ _ _ hproceeds => exact hproceeds.balanced (htake _ _ _)

theorem Turned.balanced {index : Nat} {w w' : Worker α} (h : p.Balanced (w.task?.toList ++ rest))
    (hturned : p.Turned index w q w') : q.Balanced (w'.task?.toList ++ rest) := by
  cases hturned with
  | rests _ => exact h
  | goesOn hw _ hproceeds =>
      subst hw
      exact hproceeds.balanced h
  | misses _ hw _ hlooks htask _ =>
      rw [hw] at h
      rw [htask]
      exact { h.handsOut hlooks.handsOut with }
  | takes hw _ hlooks htakes =>
      rw [hw] at h
      exact htakes.balanced h hlooks

/-! ## What a step keeps -/

theorem running_perm {index : Nat} {w : Worker α} (hw : p.workers[index]? = some w) :
    p.running.Perm (w.task?.toList ++ (p.workers.eraseIdx index).filterMap Worker.task?) := by
  obtain ⟨hindex, rfl⟩ := List.getElem?_eq_some_iff.1 hw
  have hperm := (List.getElem_cons_eraseIdx_perm hindex).symm.filterMap Worker.task?
  rw [List.filterMap_cons] at hperm
  refine hperm.trans ?_
  cases p.workers[index].task? <;> exact List.Perm.refl _

theorem running_set_perm {index : Nat} (hindex : index < p.workers.length) (w : Worker α) :
    { p with workers := p.workers.set index w }.running.Perm
      (w.task?.toList ++ (p.workers.eraseIdx index).filterMap Worker.task?) := by
  have hperm := (List.set_perm_cons_eraseIdx hindex w).filterMap Worker.task?
  rw [List.filterMap_cons] at hperm
  refine hperm.trans ?_
  cases w.task? <;> exact List.Perm.refl _

/-- A turn exchanges the task of one worker, if it has one, for the one that it has afterwards. -/
theorem turnAt_running (hs : p.queue.Sound p.clock) (index : Nat) :
    p.turnAt index = p ∨ ∃ w p' w' workers rest, p.Turned index w p' w' ∧
      p.turnAt index = { p' with workers := workers } ∧
      p.running.Perm (w.task?.toList ++ rest) ∧
      (p.turnAt index).running.Perm (w'.task?.toList ++ rest) := by
  rcases turnAt_cases hs index with ⟨-, heq⟩ | ⟨w, p', w', hw, hturned, heq⟩
  · exact .inl heq
  · have hindex : index < p'.workers.length := by
      rw [hturned.sameFrame.workers_eq]
      exact (List.getElem?_eq_some_iff.1 hw).1
    have hset := running_set_perm hindex w'
    rw [← heq, hturned.sameFrame.workers_eq] at hset
    exact .inr ⟨w, p', w', _, _, hturned, heq, running_perm hw, hset⟩

theorem balanced_turnAt (h : p.Balanced p.running) (index : Nat) :
    (p.turnAt index).Balanced (p.turnAt index).running := by
  rcases turnAt_running h.sound index with
    heq | ⟨w, p', w', workers, rest, hturned, heq, hbefore, hafter⟩
  · rw [heq]
    exact h
  · have h' := (hturned.balanced (h.perm hbefore)).perm hafter.symm
    rw [heq] at h' ⊢
    exact { h' with }

theorem Submits.balanced (h : p.Balanced under) (hid : t.id = p.nextId) (hsubmits : p.Submits t q) :
    q.Balanced under := by
  -- the number of the task is larger than all numbers on record
  have hlt : ∀ a ∈ p.answers, a.1.id < p.nextId + 1 := fun a ha =>
    Nat.lt_succ_of_lt (h.answers_lt a ha)
  have hfresh : t.id ∉ p.answers.map (·.1.id) := by
    intro hmem
    obtain ⟨a, ha, heq⟩ := List.mem_map.1 hmem
    have := h.answers_lt a ha
    omega
  have hone : t.id < p.nextId + 1 := hid ▸ Nat.lt_succ_self _
  cases hsubmits with
  | refused fault breaker log =>
      exact { h with
        answers_lt := List.forall_mem_cons.2 ⟨hone, hlt⟩
        answers_nodup := List.nodup_cons.2 ⟨hfresh, h.answers_nodup⟩
        rejected_eq := by
          show p.metrics.rejected + 1 = ((t, .error fault) :: p.answers).countP _
          rw [h.rejected_eq, List.countP_cons]
          rfl }
  | accepted breaker log hpush =>
      obtain ⟨hsound, hperm⟩ := h.sound.push_of_ok hpush
      refine { h with
        sound := hsound
        answers_lt := List.forall_mem_cons.2 ⟨hone, hlt⟩
        answers_nodup := List.nodup_cons.2 ⟨hfresh, h.answers_nodup⟩
        mem_accepted := fun u hu => ?_
        accepted_perm := ?_
        outstanding_eq := ?_
        submitted_eq := congrArg (· + 1) h.submitted_eq }
      · rcases List.mem_cons.1 ((hperm.append_right under).mem_iff.1 hu) with rfl | hu
        · exact List.mem_cons_self
        · exact List.mem_cons_of_mem t (h.mem_accepted u hu)
      · refine (h.accepted_perm.cons t.id).trans ?_
        exact ((hperm.append_right under).symm.map Task.id).append_right _
      · have hlength := hperm.length_eq
        rw [← hsound.depth_eq, List.length_cons, ← h.sound.depth_eq] at hlength
        show p.tracker.outstanding + 1 = (p.queue.push p.clock t).1.depth + under.length
        rw [h.outstanding_eq, hlength, TaskQueue.size]
        omega

theorem balanced_cancelRemoved {removed : List (Task (Job α))} (h : p.Balanced (removed ++ under)) :
    (p.cancelRemoved removed).Balanced under := by
  rw [cancelRemoved_eq]
  induction removed generalizing p with
  | nil => exact h
  | cons t rest ih =>
      have hone := h.countsEnd (Metrics.countsEnd_recordCancelled p.metrics 0)
      exact ih { hone with }

@[simp] theorem running_cancelRemoved (p : Pool α) (removed : List (Task (Job α))) :
    (p.cancelRemoved removed).running = p.running := by
  rw [running, cancelRemoved_workers, running]

end Pool

end Dispatch
