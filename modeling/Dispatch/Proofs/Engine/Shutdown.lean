import Dispatch.Proofs.Engine.Outcomes
import Dispatch.Proofs.Pool.Close
import Dispatch.Proofs.Pool.Over
import Dispatch.Proofs.Pool.Rest
/-!
# Graceful shutdown

A graceful shutdown splits the queue at the instant it begins: what is not ready then is cancelled and
never started, and what is ready is taken by workers and ends as it would have done otherwise. The
workers stop when nothing is left, so that nothing is found when the queue is looked through at the
end.
-/

namespace Dispatch

variable {α : Type}

namespace Pool

variable {p q r a : Pool α} {t : Task (Job α)} {o : Outcome α} {index : Nat}

/-! ## How taken tasks end -/

/-- Whether the body of a task was started once and came to its end. -/
def RanToEnd (r : Pool α) (t : Task (Job α)) : Prop :=
  r.startsOf t.id = 1 ∧ ∃ o, r.outcome? t.id = some o ∧ CanEnd t r.tokens o

/-- Whether a task that was taken in one state of a pool has ended in a later one by the rules of the
workers. -/
structure EndsByRules (a r : Pool α) (t : Task (Job α)) : Prop where
  /-- A task whose token is cancelled when it is taken is cancelled. -/
  cancelled : a.tokens.asksToStop t.body.token = true →
    r.outcome? t.id = some .cancelled ∧ r.startsOf t.id = 0
  /-- A task that the breaker refuses fails because the circuit is open. -/
  refused : a.tokens.asksToStop t.body.token = false →
    ∀ fault, (a.breaker.acquire a.clock).2 = .error fault →
      (∃ retryAfter, fault = .circuitOpen retryAfter) ∧
        r.outcome? t.id = some (.failed fault) ∧ r.startsOf t.id = 0
  /-- The body of any other task runs. -/
  ran : a.tokens.asksToStop t.body.token = false → (a.breaker.acquire a.clock).2 = .ok () →
    r.RanToEnd t

theorem Ends.mem_delivered (h : p.Ends t o q) : (t.id, o) ∈ q.delivered := by
  obtain ⟨metrics, breaker, log, -, rfl⟩ := h
  exact List.mem_cons_self

/-- A taken task has an outcome when nothing is executing any more. -/
theorem Kept.mem_delivered_of_mem_takes (h : r.Kept) (hrunning : r.running = []) {take : Take α}
    (htake : take ∈ r.takes) : take.task.id ∈ r.delivered.map Prod.fst := by
  rcases h.traced.takes_left take htake with hunder | hdelivered
  · rw [hrunning] at hunder
    contradiction
  · exact hdelivered

/-- A started task has run to its end when nothing is executing any more. -/
theorem Kept.ranToEnd (h : r.Kept) (hrunning : r.running = []) (hstarted : r.HasStarted t) :
    r.RanToEnd t := by
  obtain ⟨take, htake, rfl, htrue⟩ := hstarted
  obtain ⟨⟨id, o⟩, hd, hid⟩ := List.mem_map.1 (h.mem_delivered_of_mem_takes hrunning htake)
  obtain rfl : id = take.task.id := hid
  have hallows := h.traced.allows take htake o hd
  rw [Take.Allows, if_pos htrue] at hallows
  exact ⟨h.startsOf_eq_one htake htrue, o, h.outcome?_eq_some_iff.2 hd, hallows⟩

/-- A take without a start that has put an outcome on record. -/
theorem Kept.unstarted (h : r.Kept) {take : Take α} (htake : take ∈ r.takes)
    (hfalse : take.started = false) (hd : (take.task.id, o) ∈ r.delivered) :
    r.outcome? take.task.id = some o ∧ r.startsOf take.task.id = 0 :=
  ⟨h.outcome?_eq_some_iff.2 hd, h.startsOf_eq_zero htake hfalse⟩

/-- A task that was taken has ended by the rules when nothing is executing any more. -/
theorem Kept.endsByRules (h : r.Kept) (hs : a.queue.Sound a.clock)
    (htaken : a.taken? index = some t) (hlater : (a.turnAt index).Reaches r)
    (hrunning : r.running = []) : a.EndsByRules r t := by
  obtain ⟨queue, p', w', hlooks, htakes, heq⟩ := turned_takes_of_taken? hs htaken
  have hgrows := hlater.grows (carries_turnAt hs index).sound
  rw [heq] at hgrows
  have hsuffix : p'.takes <:+ r.takes := hgrows.takes_suffix
  have hdelivered : p'.delivered <:+ r.delivered := hgrows.delivered_suffix
  -- the take is still on record, and so is what it was answered with
  cases htakes with
  | cancels hstop hends =>
      have htake : ⟨t, a.clock, false⟩ ∈ r.takes :=
        hsuffix.mem (hends.takes_eq ▸ List.mem_cons_self)
      have hout := h.unstarted htake rfl (hdelivered.mem hends.mem_delivered)
      exact ⟨fun _ => hout, fun hgo => by simp [hstop] at hgo, fun hgo => by simp [hstop] at hgo⟩
  | refuses breaker log hstop hrefuse hends =>
      have htake : ⟨t, a.clock, false⟩ ∈ r.takes :=
        hsuffix.mem (hends.takes_eq ▸ List.mem_cons_self)
      have hout := h.unstarted htake rfl (hdelivered.mem hends.mem_delivered)
      refine ⟨fun hgo => by simp [hstop] at hgo, fun _ fault hfault => ?_, fun _ hpass => ?_⟩
      · obtain rfl := Except.error.inj (hrefuse.symm.trans hfault)
        exact ⟨⟨_, rfl⟩, hout⟩
      · exact absurd (hrefuse.symm.trans hpass) (by simp)
  | starts breaker log hstop hpass hproceeds =>
      have htake : ⟨t, a.clock, true⟩ ∈ r.takes :=
        hsuffix.mem (hproceeds.takes_eq ▸ List.mem_cons_self)
      have hout := h.ranToEnd hrunning ⟨_, htake, rfl, rfl⟩
      refine ⟨fun hgo => by simp [hstop] at hgo, fun _ fault hfault => ?_, fun _ _ => hout⟩
      exact absurd (hpass.symm.trans hfault) (by simp)

end Pool

namespace Engine

variable {e : Engine α} {limit : Instant}

/-! ## The wait for the workers -/

/-- Whether an engine that is driven by hand has a closing pool at rest whose bodies end in time. -/
structure AtRest (limit : Instant) (e : Engine α) : Prop where
  coordinator_eq : e.coordinator = none
  closing : e.pool.Closing
  rests : e.pool.Rests
  dueBy_le : e.pool.dueBy ≤ limit

theorem settle_of_coordinator_eq_none (h : e.coordinator = none) :
    e.settle = e.mapPool .settle := by
  unfold settle
  simp only [mapPool, h]

theorem atRest_settle (hcoordinator : e.coordinator = none) (hclosing : e.pool.Closing)
    (hdue : e.pool.dueBy ≤ limit) : e.settle.AtRest limit := by
  rw [settle_of_coordinator_eq_none hcoordinator]
  exact ⟨hcoordinator, hclosing.settle, Pool.rests_settle hclosing.sound hclosing.closed,
    Int.le_trans (Pool.dueBy_settle_le hclosing.sound) hdue⟩

/-- As long as some worker runs a body, the engine goes on within the limit. -/
theorem AtRest.nextWake (h : e.AtRest limit) (hrunning : e.pool.isStopped = false) :
    ∃ run, .busy run ∈ e.pool.workers ∧ e.nextWake = some run.wakeAt ∧
      (∀ other, .busy other ∈ e.pool.workers → run.wakeAt ≤ other.wakeAt) ∧
      e.clock < run.wakeAt ∧ run.wakeAt ≤ limit := by
  obtain ⟨run, hrun, hnext, hfirst⟩ := Pool.nextWake_of_rests h.rests hrunning
  refine ⟨run, hrun, ?_, hfirst, h.rests _ hrun, ?_⟩
  · rw [Engine.nextWake, hnext, h.coordinator_eq]
    rfl
  · have hneeded : (Worker.busy run).timeNeeded e.pool.clock ≤ e.pool.timeNeeded := by
      obtain ⟨front, back, hsplit⟩ := List.append_of_mem hrun
      simp only [Pool.timeNeeded, hsplit, sumOf_append, sumOf]
      simp only [Duration]
      omega
    have hdue := h.dueBy_le
    simp only [Worker.timeNeeded, Instant.since, Pool.dueBy, Instant, Duration] at *
    omega

theorem AtRest.jump (h : e.AtRest limit) {run : Run α} (hrun : .busy run ∈ e.pool.workers)
    (hfirst : ∀ other, .busy other ∈ e.pool.workers → run.wakeAt ≤ other.wakeAt)
    (hlt : e.clock < run.wakeAt) :
    (e.jump run.wakeAt).AtRest limit ∧ (e.jump run.wakeAt).clock = run.wakeAt ∧
      e.pool.Works (e.jump run.wakeAt).pool := by
  have hle : e.pool.clock ≤ run.wakeAt := Int.le_of_lt hlt
  have hmax : max e.pool.clock run.wakeAt = run.wakeAt := Int.max_eq_right hle
  have hclosing := h.closing.withClock hle
  have hdue := Int.le_trans (Pool.dueBy_withClock_le hle hfirst hrun) h.dueBy_le
  let woken := e.mapPool fun p => { p with clock := run.wakeAt }
  -- the clock moves to the wake-up, and then the workers have their turns
  have hjump : e.jump run.wakeAt = woken.settle := by
    rw [Engine.jump]
    simp only [mapPool, hmax, woken]
  have hsettle : woken.settle = woken.mapPool .settle :=
    settle_of_coordinator_eq_none h.coordinator_eq
  refine ⟨hjump ▸ atRest_settle h.coordinator_eq hclosing hdue, ?_, ?_⟩
  · rw [hjump, hsettle]
    exact Pool.clock_settle hclosing.sound
  · rw [hjump, hsettle]
    exact (Pool.works_withClock hle).trans (Pool.works_settle _)

/-- The wait ends with all workers stopped, and not at its limit. -/
theorem AtRest.runUntil (h : e.AtRest limit) :
    (e.runUntil (·.pool.isStopped) limit).pool.isStopped = true ∧
      e.pool.Works (e.runUntil (·.pool.isStopped) limit).pool := by
  -- there is always a wake-up within the limit, so the wait is never given up
  fun_induction Engine.runUntil (fun e : Engine α => e.pool.isStopped) limit e with
  | case1 e hstop => exact ⟨hstop, Pool.Works.refl _⟩
  | case2 e hstop hnone =>
      obtain ⟨run, -, hnext, -⟩ := h.nextWake (Bool.eq_false_iff.2 hstop)
      exact absurd (hnext.symm.trans hnone) (by simp)
  | case3 e hstop t hsome hlate =>
      obtain ⟨run, -, hnext, -, -, hle⟩ := h.nextWake (Bool.eq_false_iff.2 hstop)
      obtain rfl := Option.some.inj (hnext.symm.trans hsome)
      exact absurd hlate (Int.not_lt.2 hle)
  | case4 e hstop t hsome hlate next hless ih =>
      obtain ⟨run, hrun, hnext, hfirst, hlt, -⟩ := h.nextWake (Bool.eq_false_iff.2 hstop)
      obtain rfl := Option.some.inj (hnext.symm.trans hsome)
      obtain ⟨hjump, -, hworks⟩ := h.jump hrun hfirst hlt
      obtain ⟨hstopped, hlater⟩ := ih hjump
      exact ⟨hstopped, hworks.trans hlater⟩
  | case5 e hstop t hsome hlate next hless =>
      obtain ⟨run, hrun, hnext, hfirst, hlt, hle⟩ := h.nextWake (Bool.eq_false_iff.2 hstop)
      obtain rfl := Option.some.inj (hnext.symm.trans hsome)
      obtain ⟨-, hclock, -⟩ := h.jump hrun hfirst hlt
      refine absurd ?_ hless
      rw [timeLeft, timeLeft, hclock]
      simp only [Instant] at *
      omega

/-- After a close all workers stop by themselves, while nobody makes a request. -/
theorem awaitWorkers_settle (hcoordinator : e.coordinator = none) (hclosing : e.pool.Closing) :
    e.settle.awaitWorkers.pool.isStopped = true ∧ e.pool.Works e.settle.awaitWorkers.pool := by
  have hrest : e.settle.AtRest e.settle.pool.dueBy :=
    { atRest_settle hcoordinator hclosing (Int.le_refl _) with dueBy_le := Int.le_refl _ }
  have hsettle : e.pool.Works e.settle.pool := by
    rw [settle_of_coordinator_eq_none hcoordinator]
    exact Pool.works_settle e.pool
  obtain ⟨hstopped, hworks⟩ := hrest.runUntil
  exact ⟨hstopped, hsettle.trans hworks⟩

end Engine

/-! ## The shutdown as a whole -/

namespace Pool

variable {p q r : Pool α} {t : Task (Job α)}

/-- Whether a graceful shutdown has split the queue of a pool: `p` is the pool when the shutdown is
called, `q` the pool when its workers have stopped, and `r` the pool when the shutdown returns. -/
structure SplitsQueue (p q r : Pool α) : Prop where
  /-- What was queued and not ready is cancelled and was never started. -/
  delayed : ∀ t ∈ p.queue.tasks, p.clock < t.readyAt →
    r.outcome? t.id = some .cancelled ∧ r.startsOf t.id = 0
  /-- What was queued and ready was taken by a worker and has ended by the rules of the workers. -/
  ready : ∀ t ∈ p.queue.tasks, t.readyAt ≤ p.clock → ∃ a index, p.Reaches a ∧
    a.taken? index = some t ∧ (a.turnAt index).Reaches r ∧ a.EndsByRules r t
  /-- What was executing has run to its end. -/
  executing : ∀ t ∈ p.running, r.RanToEnd t
  /-- All workers have stopped by themselves. -/
  stopped : q.isStopped = true
  /-- Nothing is found when the queue is looked through at the end. -/
  stranded_eq : q.queue.drain.2 = []
  /-- Nothing is queued. -/
  queued_eq : r.queue.size = 0
  /-- Nothing is executing. -/
  active_eq : r.active = 0
  /-- Nothing is outstanding. -/
  outstanding_eq : r.outstanding = 0
  /-- The outcome of every accepted task was sent. -/
  sent : ∀ t ∈ r.accepted, ∃ o, r.outcome? t.id = some o

theorem running_of_isStopped (h : p.isStopped = true) : p.running = [] := by
  refine List.filterMap_eq_nil_iff.2 fun w hw => ?_
  rw [eq_stopped_of_isStopped h hw]
  rfl

theorem stopped_mem_of_isStopped (h : p.isStopped = true) (hpos : 0 < p.workers.length) :
    .stopped ∈ p.workers := by
  obtain ⟨w, hw⟩ := List.exists_mem_of_length_pos hpos
  exact eq_stopped_of_isStopped h hw ▸ hw

/-- A pool in order with nothing queued and nothing executing has sent all outcomes. -/
theorem Kept.sent_of_empty (h : r.Kept) (htasks : r.queue.tasks = []) (hrunning : r.running = [])
    (ht : t ∈ r.accepted) : ∃ o, r.outcome? t.id = some o := by
  have hmem := h.balanced.accepted_perm.mem_iff.1 (List.mem_map_of_mem ht)
  rw [htasks, hrunning] at hmem
  obtain ⟨⟨id, o⟩, hd, hid⟩ := List.mem_map.1 hmem
  obtain rfl : id = t.id := hid
  exact ⟨o, h.outcome?_eq_some_iff.2 hd⟩

/-- Whether nothing that was submitted is left to be done in a pool. -/
structure AllEnded (r : Pool α) : Prop where
  /-- Nothing is queued. -/
  queued_eq : r.queue.size = 0
  /-- Nothing is executing. -/
  active_eq : r.active = 0
  /-- Nothing is outstanding. -/
  outstanding_eq : r.outstanding = 0
  /-- The outcome of every accepted task was sent. -/
  sent : ∀ t ∈ r.accepted, ∃ o, r.outcome? t.id = some o

theorem Kept.allEnded (h : r.Kept) (htasks : r.queue.tasks = []) (hrunning : r.running = []) :
    r.AllEnded := by
  have hsize : r.queue.size = 0 := by
    rw [TaskQueue.size, h.balanced.sound.depth_eq, htasks]
    rfl
  refine ⟨hsize, ?_, ?_, fun t ht => h.sent_of_empty htasks hrunning ht⟩
  · rw [h.traced.active_eq, hrunning]
    rfl
  · rw [outstanding, h.balanced.outstanding_eq, hrunning, hsize]
    rfl

/-- What a join leaves of a pool with an empty queue whose workers have stopped. -/
theorem join_empty (hs : q.queue.Sound q.clock) (htasks : q.queue.tasks = [])
    (hstopped : q.isStopped = true) : q.join.queue.tasks = [] ∧ q.join.running = [] ∧
      q.join.takes = q.takes := by
  have hrunning := running_of_isStopped hstopped
  unfold join
  split
  · exact ⟨htasks, hrunning, rfl⟩
  · refine ⟨?_, ?_, cancelRemoved_takes _⟩
    · simp only [cancelRemoved_queue]
      exact hs.drain.2.1
    · rw [running_cancelRemoved]
      exact hrunning

/-- If the workers have stopped by themselves after a graceful close, in whatever order they had
their turns, the join completes a shutdown that splits the queue. -/
theorem Kept.splitsQueue (hkept : p.Kept) (hgated : p.Gated) (hopen : p.queue.closed = false)
    (hpos : 0 < p.workers.length) {turns : List Nat} (hworks : (p.cleared turns).Works q)
    (hstopped : q.isStopped = true) : p.SplitsQueue q q.join := by
  have hs := hkept.balanced.sound
  have hreaches : p.Reaches q := (reaches_cleared hs hgated hopen turns).trans hworks.reaches
  -- some worker has stopped, and it has done so because no task was left
  have htasks : q.queue.tasks = [] := by
    refine (hworks.closing (closing_cleared hs hgated hopen turns)).tasks_eq_nil ?_
    refine stopped_mem_of_isStopped hstopped ?_
    rwa [(hreaches.grows hs).length_eq]
  have hjoin : q.Reaches q.join := reaches_join q
  have hq : q.Kept := hreaches.kept hkept
  have hr : q.join.Kept := hjoin.kept hq
  obtain ⟨hrtasks, hrrunning, hrtakes⟩ := join_empty hq.balanced.sound htasks hstopped
  have hended := hr.allEnded hrtasks hrrunning
  refine
    { delayed := fun t ht hlate => ?_
      ready := fun t ht hready => ?_
      executing := fun t ht => ?_
      stopped := hstopped
      stranded_eq := ?_
      queued_eq := hended.queued_eq
      active_eq := hended.active_eq
      outstanding_eq := hended.outstanding_eq
      sent := hended.sent }
  · have hnot : t.isReady p.clock = false := decide_eq_false (Int.not_le.2 hlate)
    obtain ⟨hdelivered, huntaken⟩ := untaken_of_works hkept hgated hopen hworks ht hnot
    have hsuffix := (hjoin.grows hq.balanced.sound).delivered_suffix
    refine ⟨hr.outcome?_eq_some_iff.2 (hsuffix.mem hdelivered), ?_⟩
    refine List.count_eq_zero_of_not_mem fun hmem => huntaken ?_
    rw [hrtakes] at hmem
    exact (List.filter_sublist.map _).subset hmem
  · have hnow : t.isReady p.clock = true := decide_eq_true hready
    have hleft : t ∉ q.queue.tasks := by simp [htasks]
    obtain ⟨a, index, hto, htaken, hfrom⟩ :=
      exists_turn_of_works hs hgated hopen hworks ht hnow hleft
    have hlater := hfrom.trans hjoin
    exact ⟨a, index, hto, htaken, hlater,
      hr.endsByRules (hto.grows hs).sound htaken hlater hrrunning⟩
  · have hgrows := (hreaches.trans hjoin).grows hs
    exact hr.ranToEnd hrrunning ((hkept.running_started t ht).grows hgrows)
  · exact hq.balanced.sound.drain.2.2.trans htasks

/-! ## Started pools -/

theorem gated_of_start {config : EngineConfig} {around : Surroundings} {now : Instant}
    {log : LogBook} (h : Pool.start config around now log = .ok p) : p.Gated := by
  refine (works_of_start h).reaches.gated (kept_ofWorkers _ _ _ _ _).balanced.sound ?_
  exact ⟨fun _ => rfl, fun hmem => by simp [ofWorkers] at hmem⟩

/-- A started pool has workers. -/
theorem workers_length_pos {config : EngineConfig} {around : Surroundings} {now : Instant}
    {log : LogBook} (h : Pool.start config around now log = .ok p) : 0 < p.workers.length := by
  have hgrows := (works_of_start h).reaches.grows (kept_ofWorkers _ _ _ _ _).balanced.sound
  rw [hgrows.length_eq, ofWorkers, List.length_replicate, EngineConfig.resolvedWorkerCount]
  split <;> omega

end Pool

namespace Engine

variable {e : Engine α}

/-- Whatever has happened to a pool since its start, a graceful shutdown splits its queue exactly: in
whatever order the workers have their turns from the close on until all of them have stopped, and in
the order in which an engine gives them their turns, which does make them stop. -/
theorem shutdownPool_splitsQueue (config : EngineConfig) (around : Surroundings) (now : Instant)
    (log : LogBook) (p₀ : Pool α) (hstart : Pool.start config around now log = .ok p₀)
    (e : Engine α) (hreaches : p₀.Reaches e.pool) (hcoordinator : e.coordinator = none)
    (haccepting : e.pool.accepting = true) :
    (∀ turns q, (e.pool.cleared turns).Works q → q.isStopped = true →
        e.pool.SplitsQueue q q.join) ∧
      e.pool.SplitsQueue (e.tell (·.close true)).awaitWorkers.pool (e.shutdownPool true).pool := by
  have hkept₀ := Pool.kept_of_start hstart
  have hkept : e.pool.Kept := hreaches.kept hkept₀
  have hgated : e.pool.Gated :=
    hreaches.gated hkept₀.balanced.sound (Pool.gated_of_start hstart)
  have hopen : e.pool.queue.closed = false := hgated.open_of_accepting haccepting
  have hpos : 0 < e.pool.workers.length := by
    rw [(hreaches.grows hkept₀.balanced.sound).length_eq]
    exact Pool.workers_length_pos hstart
  constructor
  · intro turns q hworks hstopped
    exact hkept.splitsQueue hgated hopen hpos hworks hstopped
  · obtain ⟨turns, hclose⟩ := Pool.exists_close_eq haccepting hopen
    have htold : e.tell (·.close true) = (e.mapPool fun _ => e.pool.cleared turns).settle := by
      rw [tell, mapPool, hclose]
      rfl
    have hclosing := Pool.closing_cleared hkept.balanced.sound hgated hopen turns
    obtain ⟨hstopped, hworks⟩ :=
      awaitWorkers_settle (e := e.mapPool fun _ => e.pool.cleared turns) hcoordinator hclosing
    rw [shutdownPool, joinWorkers, htold]
    exact hkept.splitsQueue hgated hopen hpos hworks hstopped

/-- The pool of two workers with one task that is ready and one that is not, before its workers have
had their turns. -/
def backlogPool : Pool Nat :=
  let s : Submission Nat := { label := "count", priority := .normal, body := ⟨[.sleep 3], .value 7⟩ }
  ((pairPool.submitAt 0 s).1.submitAt 5 s).1

theorem backlogPool_queued : backlogPool.accepting = true ∧
    backlogPool.queue.tasks.map (·.readyAt) = [0, 5] := by
  unfold backlogPool pairPool
  rw [Pool.settle, if_pos (by decide), Pool.settle, if_neg (by decide)]
  exact ⟨rfl, by decide⟩

theorem backlogPool_splitsQueue : Pool.start pairConfig {} 0 ⟨0, []⟩ = .ok pairPool ∧
    pairPool.Reaches backlogPool ∧ backlogPool.accepting = true ∧
      backlogPool.queue.tasks.map (·.readyAt) = [0, 5] ∧
      (∀ turns q, (backlogPool.cleared turns).Works q → q.isStopped = true →
        backlogPool.SplitsQueue q q.join) ∧
      backlogPool.SplitsQueue
        ((ofPool pairConfig backlogPool none).tell (·.close true)).awaitWorkers.pool
        ((ofPool pairConfig backlogPool none).shutdownPool true).pool :=
  have hreaches : pairPool.Reaches backlogPool :=
    (Pool.Step.submitAt _ _ _).reaches.trans (Pool.Step.submitAt _ _ _).reaches
  ⟨start_pairPool, hreaches, backlogPool_queued.1, backlogPool_queued.2,
    shutdownPool_splitsQueue pairConfig {} 0 ⟨0, []⟩ pairPool start_pairPool
      (ofPool pairConfig backlogPool none) hreaches rfl backlogPool_queued.1⟩

end Engine

end Dispatch
