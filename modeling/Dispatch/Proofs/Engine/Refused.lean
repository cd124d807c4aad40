import Dispatch.Proofs.Engine.Shutdown
/-!
# Refused submissions

A pool makes three checks before it admits a task, and the first one that fails decides the answer: it
may admit no task any more, its circuit may be open, or its queue may be full. The checks have effects of
their own: a refusal is counted by the breaker, a full queue is met only after the circuit has let the
task through, and the task is outstanding while the queue is asked. The main statement of this module says
what is left of all that when the answer is a refusal.
-/

namespace Dispatch

variable {α : Type}

namespace Pool

variable {p : Pool α} {b : Breaker} {fault : Fault}

/-- A pool that has refused a task, with its breaker as the checks have left it. -/
def refused (p : Pool α) (b : Breaker) (t : Task (Job α)) (fault : Fault) : Pool α :=
  { p with
    nextId := p.nextId + 1
    breaker := b
    log := p.log.logChange p.clock p.breaker.circuit b.circuit
    metrics := { p.metrics with rejected := p.metrics.rejected + 1 }
    answers := (t, .error fault) :: p.answers }

/-! ## The checks in order -/

theorem submitAt_of_refusing (h : p.accepting = false) (readyAt : Instant) (s : Submission α) :
    p.submitAt readyAt s =
      (p.refused p.breaker (p.newTask readyAt s) .shuttingDown, .error .shuttingDown) := by
  rw [submitAt_of_not_accepting h, refused, LogBook.logChange, if_pos rfl]
  rfl

/-- A pool whose breaker refuses work asks no queue. -/
theorem submitAt_of_circuit (haccepting : p.accepting = true)
    (hacquire : p.breaker.acquire p.clock = (b, .error fault)) (readyAt : Instant)
    (s : Submission α) :
    p.submitAt readyAt s = (p.refused b (p.newTask readyAt s) fault, .error fault) := by
  have hanswer : ({ p with nextId := p.nextId + 1 } : Pool α).accept (p.newTask readyAt s) =
      (({ p with nextId := p.nextId + 1 }.withBreaker b).reject, .error fault) := by
    simp only [accept, haccepting, if_true, acquire, hacquire]
  unfold newTask at hanswer
  simp only [submitAt, hanswer]
  rfl

/-- A task that the queue refuses is no longer outstanding. -/
theorem submitAt_of_full (haccepting : p.accepting = true)
    (hacquire : p.breaker.acquire p.clock = (b, .ok ())) (hopen : p.queue.closed = false)
    (hfull : p.queue.capacity ≤ p.queue.depth) (readyAt : Instant) (s : Submission α) :
    p.submitAt readyAt s = (p.refused b (p.newTask readyAt s) (.queueFull p.queue.capacity),
      .error (.queueFull p.queue.capacity)) := by
  have hpush : p.queue.push p.clock (p.newTask readyAt s) =
      (p.queue, .error (.queueFull p.queue.capacity)) := by
    rw [TaskQueue.push, if_neg (by simp [hopen]), if_pos hfull]
  have hanswer : ({ p with nextId := p.nextId + 1 } : Pool α).accept (p.newTask readyAt s) =
      (({ p with nextId := p.nextId + 1 }.withBreaker b).reject,
        .error (.queueFull p.queue.capacity)) := by
    simp only [accept, haccepting, if_true, acquire, hacquire, enqueue, withBreaker, hpush,
      Tracker.leave_enter]
  unfold newTask at hanswer
  simp only [submitAt, hanswer]
  rfl

/-- A task that passes all checks is admitted. -/
theorem submitAt_of_room (haccepting : p.accepting = true)
    (hacquire : p.breaker.acquire p.clock = (b, .ok ())) (hopen : p.queue.closed = false)
    (hroom : p.queue.depth < p.queue.capacity) (readyAt : Instant) (s : Submission α) :
    (p.submitAt readyAt s).2 = .ok { id := p.nextId, token := s.token } := by
  have hpush (t : Task (Job α)) : p.queue.push p.clock t =
      ({ p.queue with strategy := p.queue.strategy.push p.clock t, depth := p.queue.depth + 1 },
        .ok ()) := by
    rw [TaskQueue.push, if_neg (by simp [hopen]), if_neg (Nat.not_le.2 hroom)]
  simp only [submitAt, accept, haccepting, if_true, acquire, hacquire, enqueue, withBreaker, hpush]
  rfl

/-! ## What is left of a refusal -/

/-- Whether a pool is left as it was by the refusal of a task. -/
structure LeavesNoTrace (t : Task (Job α)) (fault : Fault) (p q : Pool α) : Prop where
  /-- A refusal uses up a number, is counted and is kept on record. But for the breaker, and what is logged
  about it, nothing else has changed. -/
  eq_with : q = { p with
    nextId := p.nextId + 1
    breaker := q.breaker
    log := p.log.logChange p.clock p.breaker.circuit q.breaker.circuit
    metrics := { p.metrics with rejected := p.metrics.rejected + 1 }
    answers := (t, .error fault) :: p.answers }
  /-- A pool that admits no task any more does not ask its breaker. -/
  breaker_of_shuttingDown : fault = .shuttingDown → q.breaker = p.breaker
  /-- A breaker that refuses work counts the refusal. -/
  breaker_of_circuitOpen : ∀ left, fault = .circuitOpen left →
    q.breaker = { p.breaker with rejections := p.breaker.rejections + 1 }
  /-- Where the queue refuses the task, the breaker has let it through: if the circuit was open, the reset
  timeout had passed, and it has come to be half open. -/
  breaker_of_queueFull : ∀ capacity, fault = .queueFull capacity → q.breaker =
    if p.breaker.circuit = .opened then { p.breaker with circuit := .halfOpen, successes := 0 }
    else p.breaker

/-- Whether a submission to a pool is checked. -/
structure Checked (capacity : Nat) (readyAt : Instant) (s : Submission α) (p : Pool α) : Prop where
  /-- The first check that fails decides the answer. -/
  answer_eq : (p.submitAt readyAt s).2 =
    if p.accepting = false then .error .shuttingDown
    else
      match (p.breaker.acquire p.clock).2 with
      | .error fault => .error fault
      | .ok () =>
        if p.queue.tasks.length = capacity then .error (.queueFull capacity)
        else .ok { id := p.nextId, token := s.token }
  /-- A breaker refuses work because the circuit is open, and for no other reason. -/
  fault_eq : ∀ fault, (p.breaker.acquire p.clock).2 = .error fault →
    ∃ left, fault = .circuitOpen left
  refused : ∀ fault, (p.submitAt readyAt s).2 = .error fault →
    LeavesNoTrace (p.newTask readyAt s) fault p (p.submitAt readyAt s).1

end Pool

/-- A breaker that refuses work counts the refusal. -/
theorem Breaker.acquire_of_error {b b' : Breaker} {now : Instant} {fault : Fault}
    (h : b.acquire now = (b', .error fault)) :
    b' = { b with rejections := b.rejections + 1 } := by
  unfold acquire at h
  split at h
  · split at h
    · exact (congrArg Prod.fst h).symm
    · simp at h
  · simp at h

/-- A breaker that lets work through while its circuit is open starts a trial. -/
theorem Breaker.acquire_of_ok {b b' : Breaker} {now : Instant} (h : b.acquire now = (b', .ok ())) :
    b' = if b.circuit = .opened then { b with circuit := .halfOpen, successes := 0 } else b := by
  unfold acquire at h
  split at h
  · rename_i hopened
    rw [if_pos hopened]
    split at h
    · simp at h
    · exact (congrArg Prod.fst h).symm
  · rename_i hopened
    rw [if_neg hopened]
    exact (congrArg Prod.fst h).symm

namespace Pool

variable {p : Pool α} {b : Breaker} {t : Task (Job α)}

theorem leavesNoTrace_shuttingDown :
    LeavesNoTrace t .shuttingDown p (p.refused p.breaker t .shuttingDown) where
  eq_with := rfl
  breaker_of_shuttingDown := fun _ => rfl
  breaker_of_circuitOpen := fun _ h => by contradiction
  breaker_of_queueFull := fun _ h => by contradiction

theorem leavesNoTrace_circuitOpen {left : Duration}
    (hacquire : p.breaker.acquire p.clock = (b, .error (.circuitOpen left))) :
    LeavesNoTrace t (.circuitOpen left) p (p.refused b t (.circuitOpen left)) where
  eq_with := rfl
  breaker_of_shuttingDown := fun h => by contradiction
  breaker_of_circuitOpen := fun _ _ => Breaker.acquire_of_error hacquire
  breaker_of_queueFull := fun _ h => by contradiction

theorem leavesNoTrace_queueFull {capacity : Nat}
    (hacquire : p.breaker.acquire p.clock = (b, .ok ())) :
    LeavesNoTrace t (.queueFull capacity) p (p.refused b t (.queueFull capacity)) where
  eq_with := rfl
  breaker_of_shuttingDown := fun h => by contradiction
  breaker_of_circuitOpen := fun _ h => by contradiction
  breaker_of_queueFull := fun _ _ => Breaker.acquire_of_ok hacquire

/-- In a pool that is in order, each submission is checked. -/
theorem Gated.checked (h : p.Gated) (hs : p.queue.Sound p.clock) (readyAt : Instant)
    (s : Submission α) : p.Checked p.queue.capacity readyAt s := by
  have hfault : ∀ fault, (p.breaker.acquire p.clock).2 = .error fault →
      ∃ left, fault = .circuitOpen left := fun _ hanswer =>
    Breaker.eq_circuitOpen_of_acquire (Prod.ext rfl hanswer)
  cases haccepting : p.accepting with
  | false =>
      have heq := submitAt_of_refusing haccepting readyAt s
      refine ⟨by simp [heq, haccepting], hfault, fun fault hanswer => ?_⟩
      rw [heq] at hanswer ⊢
      cases hanswer
      exact leavesNoTrace_shuttingDown
  | true =>
      cases hacquire : p.breaker.acquire p.clock with
      | mk b answer =>
          cases answer with
          | error fault =>
              obtain ⟨left, rfl⟩ := Breaker.eq_circuitOpen_of_acquire hacquire
              have heq := submitAt_of_circuit haccepting hacquire readyAt s
              refine ⟨by simp [heq, haccepting, hacquire], hfault, fun fault hanswer => ?_⟩
              rw [heq] at hanswer ⊢
              cases hanswer
              exact leavesNoTrace_circuitOpen hacquire
          | ok =>
              have hopen := h.open_of_accepting haccepting
              by_cases hfull : p.queue.capacity ≤ p.queue.depth
              · -- the queue holds no more than its capacity, so it holds just that many tasks
                have hlength : p.queue.tasks.length = p.queue.capacity :=
                  hs.depth_eq.symm.trans (Nat.le_antisymm hs.depth_le hfull)
                have heq := submitAt_of_full haccepting hacquire hopen hfull readyAt s
                refine ⟨by simp [heq, haccepting, hacquire, hlength], hfault, fun fault hanswer => ?_⟩
                rw [heq] at hanswer ⊢
                cases hanswer
                exact leavesNoTrace_queueFull hacquire
              · have hroom := Nat.not_le.1 hfull
                have hlength : p.queue.tasks.length ≠ p.queue.capacity :=
                  hs.depth_eq ▸ Nat.ne_of_lt hroom
                have heq := submitAt_of_room haccepting hacquire hopen hroom readyAt s
                refine ⟨by simp [heq, haccepting, hacquire, hlength], hfault, fun fault hanswer => ?_⟩
                rw [heq] at hanswer
                contradiction

end Pool

namespace Engine

variable {e : Engine α}

/-- From the start of a pool or an engine on, whatever has happened, a submission is refused because the
pool has been closed, else because the circuit is open, else because the queue is full, and admitted
otherwise. A refusal is counted once, and changes nothing in the pool besides but the breaker. -/
theorem run_checked (config : EngineConfig) (around : Surroundings) (now : Instant) (log : LogBook)
    (e : Engine α)
    (h : startPool config around now log = .ok e ∨ start config around now log = .ok e) :
    (∀ q, e.pool.Reaches q → ∀ readyAt s, q.Checked config.maxQueueCapacity readyAt s) ∧
      ∀ requests readyAt s, (e.run requests).pool.Checked config.maxQueueCapacity readyAt s := by
  have hstart := start_pool h
  have hsound := (Pool.kept_of_start hstart).balanced.sound
  have hall : ∀ q, e.pool.Reaches q →
      ∀ readyAt s, q.Checked config.maxQueueCapacity readyAt s := by
    intro q hreaches readyAt s
    have hgrows := ((Pool.works_of_start hstart).reaches.trans hreaches).grows
      (Pool.kept_ofWorkers _ _ _ _ _).balanced.sound
    have hgated : q.Gated := hreaches.gated hsound (Pool.gated_of_start hstart)
    have hchecked := hgated.checked hgrows.sound readyAt s
    rw [hgrows.settings.capacity_eq] at hchecked
    simpa [Pool.ofWorkers, TaskQueue.ofKind] using hchecked
  exact ⟨hall, fun requests => hall _ (leadsTo_run e requests hsound)⟩

/-- A pool of one worker with a queue for one task, whose circuit opens at the first failure. -/
def narrowConfig : EngineConfig where
  workerCount := 1
  maxQueueCapacity := 1
  circuitBreaker := { failureThreshold := 1, successThreshold := 1, resetTimeoutMs := 10 }

/-- The narrow pool with its worker at its first wait. -/
def narrowPool : Pool Nat := (Pool.ofWorkers narrowConfig 1 1 0 ⟨0, []⟩).sweep.sweep

/-- It is started where threads are not limited. -/
theorem start_narrowPool : Pool.start narrowConfig {} 0 ⟨0, []⟩ = .ok narrowPool := by
  have hvalid : narrowConfig.validate = .ok () := rfl
  have hsettle : (Pool.ofWorkers narrowConfig 1 1 0 ⟨0, []⟩).settle = narrowPool := by
    rw [Pool.settle, if_pos (by decide), Pool.settle, if_neg (by decide)]
    rfl
  unfold Pool.start
  rw [hvalid, ← hsettle]
  rfl

/-- A task that fails after a while. -/
def slowFailure : Submission Nat :=
  ⟨"slow", .normal, none, ⟨[.sleep 5000000], .failure ⟨.text "down", []⟩⟩⟩

def nextSubmission : Submission Nat := ⟨"next", .normal, none, ⟨[], .value 1⟩⟩

/-- The narrow pool with the failing task under way, and another one in its queue. -/
def filledPool : Pool Nat := (((narrowPool.submit slowFailure).1.turnAt 0).submit nextSubmission).1

/-- The same after the failing task has opened the circuit, and the reset timeout has passed. -/
def crowdedPool : Pool Nat :=
  { { filledPool with clock := 5000000 }.turnAt 0 with clock := 15000000 }

theorem reaches_crowdedPool : narrowPool.Reaches crowdedPool :=
  (((((Pool.Step.submitAt narrowPool _ slowFailure).reaches.tail
    (.work (.turn _ 0))).tail (.submitAt _ _ nextSubmission)).tail
    (.work (.tick filledPool 5000000 (by decide)))).tail (.work (.turn _ 0))).tail
    (.work (.tick _ 15000000 (by decide)))

/-- The circuit lets the task through and comes to be half open, and then the queue is full. -/
theorem crowdedPool_checked :
    (startPool narrowConfig {} 0 ⟨0, []⟩ = .ok (ofPool narrowConfig narrowPool none) ∨
        start narrowConfig {} 0 ⟨0, []⟩ = .ok (ofPool narrowConfig narrowPool none)) ∧
      narrowPool.Reaches crowdedPool ∧ crowdedPool.breaker.circuit = .opened ∧
      (crowdedPool.submitAt 15000000 nextSubmission).2 = .error (.queueFull 1) ∧
      (crowdedPool.submitAt 15000000 nextSubmission).1.breaker.circuit = .halfOpen ∧
      crowdedPool.Checked 1 15000000 nextSubmission := by
  have hstart : startPool narrowConfig {} 0 ⟨0, []⟩ = .ok (ofPool narrowConfig narrowPool none) :=
    startPool_of_start start_narrowPool
  exact ⟨.inl hstart, reaches_crowdedPool, by decide, by decide, by decide,
    (run_checked narrowConfig {} 0 ⟨0, []⟩ _ (.inl hstart)).1 crowdedPool reaches_crowdedPool
      15000000 nextSubmission⟩

end Engine

end Dispatch
