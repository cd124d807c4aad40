import Dispatch.Proofs.Engine.Run
import Dispatch.Proofs.Pool.Trace
/-!
# How tasks end, and how they are counted

The two main statements of this module hold in every state that a pool can come to from its start,
in whatever order submissions, cancellations, exchanges of the strategy, turns of workers and closes
follow each other: each accepted task ends once and is counted by its outcome, and the counts of what
was submitted, queued, running and ended always add up.
-/

namespace Dispatch

variable {α : Type}

namespace Pool

variable {p q : Pool α} {t : Task (Job α)} {o : Outcome α}

/-! ## The start of a pool -/

theorem kept_ofWorkers (config : EngineConfig) (count started : Nat) (now : Instant)
    (log : LogBook) : (ofWorkers config count started now log : Pool α).Kept := by
  have hqueue := TaskQueue.tasks_ofKind (β := Job α) config.initialStrategy config.maxQueueCapacity
    count config.workStealing
  have hrunning : (ofWorkers config count started now log : Pool α).running = [] := by
    simp [running, ofWorkers, Worker.task?]
  refine ⟨?_, ?_, ?_⟩ <;> rw [hrunning]
  · refine ⟨TaskQueue.sound_ofKind _ _ _ _, by simp [ofWorkers], List.nodup_nil, ?_, ?_, rfl, rfl,
      rfl, rfl, rfl, rfl, rfl⟩
    · simp [ofWorkers, hqueue]
    · simp [ofWorkers, hqueue, accepted]
  · exact ⟨rfl, List.nodup_nil, by simp [ofWorkers], by simp [ofWorkers], by simp,
      by simp [ofWorkers], by simp [ofWorkers]⟩
  · simp

/-- A pool is started by letting all its workers come to their first wait. -/
theorem eq_settle_of_start {config : EngineConfig} {around : Surroundings} {now : Instant}
    {log : LogBook} (h : Pool.start config around now log = .ok p) :
    p = (ofWorkers config (config.resolvedWorkerCount around.processors)
      (config.resolvedWorkerCount around.processors) now log).settle := by
  unfold Pool.start at h
  split at h
  · contradiction
  · simp only at h
    split at h
    · contradiction
    · rename_i hall
      have hle : startable around (config.resolvedWorkerCount around.processors) ≤
          config.resolvedWorkerCount around.processors := by
        unfold startable
        split
        · exact Nat.le_refl _
        · exact Nat.min_le_right _ _
      -- no worker is missing, or the start would have failed
      have hcount := Nat.le_antisymm hle (Nat.not_lt.1 hall)
      rw [hcount] at h
      cases h
      rfl

theorem works_of_start {config : EngineConfig} {around : Surroundings} {now : Instant}
    {log : LogBook} (h : Pool.start config around now log = .ok p) :
    (ofWorkers config (config.resolvedWorkerCount around.processors)
      (config.resolvedWorkerCount around.processors) now log).Works p := by
  rw [eq_settle_of_start h]
  exact works_settle _

/-- Every state that a started pool can come to is in order. -/
theorem kept_of_start {config : EngineConfig} {around : Surroundings} {now : Instant}
    {log : LogBook} (h : Pool.start config around now log = .ok p) : p.Kept :=
  (works_of_start h).reaches.kept (kept_ofWorkers _ _ _ _ _)

/-! ## Each task ends once -/

/-- How often the body of the task of a number was started. -/
def startsOf (p : Pool α) (id : Nat) : Nat :=
  ((p.takes.filter (·.started)).map (·.task.id)).count id

/-- How many outcomes were sent for the number of a task. -/
def sentFor (p : Pool α) (id : Nat) : Nat := (p.delivered.map Prod.fst).count id

/-- How many accepted tasks have an outcome of some kind. -/
def endedBy (p : Pool α) (kind : Outcome α → Bool) : Nat :=
  p.accepted.countP fun t => (p.outcome? t.id).any kind

/-- Whether each accepted task of a pool ends once and is counted as its handle says. -/
structure EndsOnce (p : Pool α) : Prop where
  /-- No body is started twice. -/
  startsOf_le : ∀ id, p.startsOf id ≤ 1
  /-- One outcome is sent for an accepted task that has left the queue and is not executing. -/
  sentFor_ended : ∀ t ∈ p.accepted, t ∉ p.queue.tasks → t ∉ p.running → p.sentFor t.id = 1
  /-- None is sent for a task that is queued or executing. -/
  sentFor_held : ∀ t ∈ p.queue.tasks ++ p.running, p.sentFor t.id = 0
  /-- None is sent for a task that was not accepted. -/
  sentFor_other : ∀ id, id ∉ p.accepted.map Task.id → p.sentFor id = 0
  /-- Tasks count as completed by their outcomes. -/
  completed_eq : p.metrics.completed = p.endedBy Outcome.isCompleted
  /-- Tasks count as failed by their outcomes. -/
  failed_eq : p.metrics.failed = p.endedBy Outcome.isFailed
  /-- Tasks count as cancelled by their outcomes. -/
  cancelled_eq : p.metrics.cancelled = p.endedBy Outcome.isCancelled
  /-- A task fails only because its body does or because the circuit refuses it. -/
  fault_cases : ∀ id fault, p.outcome? id = some (.failed fault) →
    (∃ reason, fault = .payloadFailed reason) ∨ ∃ retryAfter, fault = .circuitOpen retryAfter
  /-- The body of a completed task was started. -/
  startsOf_completed : ∀ id value, p.outcome? id = some (.completed value) → p.startsOf id = 1
  /-- The body of a task that failed by it was started. -/
  startsOf_payloadFailed : ∀ id reason,
    p.outcome? id = some (.failed (.payloadFailed reason)) → p.startsOf id = 1
  /-- The body of a refused task was not started. -/
  startsOf_circuitOpen : ∀ id retryAfter,
    p.outcome? id = some (.failed (.circuitOpen retryAfter)) → p.startsOf id = 0

/-- If the numbers of delivered outcomes are different, each outcome is found by its number. -/
theorem lookup_eq_some_iff {l : List (Nat × Outcome α)} (hnodup : (l.map Prod.fst).Nodup)
    {id : Nat} : l.lookup id = some o ↔ (id, o) ∈ l := by
  induction l with
  | nil => simp
  | cons d rest ih =>
      obtain ⟨id', o'⟩ := d
      rw [List.map_cons, List.nodup_cons] at hnodup
      rw [List.lookup_cons, List.mem_cons, Prod.mk.injEq]
      by_cases heq : id = id'
      · subst heq
        have hnot : (id, o) ∉ rest := fun hmem => hnodup.1 (List.mem_map.2 ⟨_, hmem, rfl⟩)
        simp [hnot, eq_comm]
      · rw [beq_false_of_ne heq]
        simp [heq, ih hnodup.2]

theorem Kept.delivered_nodup (h : p.Kept) : (p.delivered.map Prod.fst).Nodup :=
  (List.nodup_append.1 h.balanced.places_nodup).2.1

theorem Kept.outcome?_eq_some_iff (h : p.Kept) {id : Nat} :
    p.outcome? id = some o ↔ (id, o) ∈ p.delivered :=
  lookup_eq_some_iff h.delivered_nodup

/-- The accepted tasks with an outcome of some kind are the delivered outcomes of that kind. -/
theorem Kept.endedBy_eq (h : p.Kept) (kind : Outcome α → Bool) :
    p.endedBy kind = p.delivered.countP (kind ·.2) := by
  let hasKind : Nat → Bool := fun id => (p.outcome? id).any kind
  -- a task that is queued or executing has no outcome, so only the delivered ones count
  have hheld : ((p.queue.tasks ++ p.running).map Task.id).countP hasKind = 0 := by
    refine List.countP_eq_zero.2 fun id hid => ?_
    obtain ⟨t, ht, rfl⟩ := List.mem_map.1 hid
    have hnone : p.outcome? t.id = none := by
      refine Option.eq_none_iff_forall_ne_some.2 fun o ho => ?_
      exact h.balanced.not_mem_delivered ht
        (List.mem_map_of_mem (h.outcome?_eq_some_iff.1 ho))
    simp [hasKind, hnone]
  have hdelivered : (p.delivered.map Prod.fst).countP hasKind = p.delivered.countP (kind ·.2) := by
    rw [List.countP_map]
    refine List.countP_congr fun d hd => ?_
    have hsome : p.outcome? d.1 = some d.2 := h.outcome?_eq_some_iff.2 hd
    simp [hasKind, hsome]
  calc p.endedBy kind = (p.accepted.map Task.id).countP hasKind := by
        rw [List.countP_map]
        rfl
    _ = ((p.queue.tasks ++ p.running).map Task.id ++ p.delivered.map Prod.fst).countP hasKind :=
        h.balanced.accepted_perm.countP_eq hasKind
    _ = p.delivered.countP (kind ·.2) := by
        rw [List.countP_append, hheld, hdelivered, Nat.zero_add]

/-- A delivered outcome other than a cancellation belongs to a take that allows it. -/
theorem Kept.exists_take (h : p.Kept) {id : Nat} (ho : p.outcome? id = some o)
    (hne : o ≠ .cancelled) : ∃ take ∈ p.takes, take.task.id = id ∧ take.Allows p.tokens o := by
  have hmem := h.outcome?_eq_some_iff.1 ho
  by_cases htaken : id ∈ p.takes.map (·.task.id)
  · obtain ⟨take, htake, rfl⟩ := List.mem_map.1 htaken
    exact ⟨take, htake, rfl, h.traced.allows take htake o hmem⟩
  · exact absurd (h.traced.untaken _ hmem htaken) hne

theorem Kept.startsOf_le (h : p.Kept) (id : Nat) : p.startsOf id ≤ 1 :=
  List.nodup_iff_count_le_one.1
    (h.traced.takes_nodup.sublist (List.filter_sublist.map _)) id

theorem Kept.startsOf_eq_one (h : p.Kept) {take : Take α} (ht : take ∈ p.takes)
    (hstarted : take.started = true) : p.startsOf take.task.id = 1 := by
  have hmem : take.task.id ∈ (p.takes.filter (·.started)).map (·.task.id) :=
    List.mem_map.2 ⟨take, List.mem_filter.2 ⟨ht, hstarted⟩, rfl⟩
  exact Nat.le_antisymm (h.startsOf_le _) (List.one_le_count_iff.2 hmem)

theorem Kept.startsOf_eq_zero (h : p.Kept) {take : Take α} (ht : take ∈ p.takes)
    (hstarted : take.started = false) : p.startsOf take.task.id = 0 := by
  refine List.count_eq_zero_of_not_mem fun hmem => ?_
  obtain ⟨other, hother, hid⟩ := List.mem_map.1 hmem
  obtain ⟨hother, htrue⟩ := List.mem_filter.1 hother
  rw [h.traced.take_eq hother ht hid, hstarted] at htrue
  contradiction

end Pool

/-- A body ends with a value, with a failure of its own, or by giving up. -/
theorem Ending.outcome_cases (e : Ending α) :
    (∃ value, e.outcome = .completed value) ∨ e.outcome = .cancelled ∨
      ∃ reason, e.outcome = .failed (.payloadFailed reason) := by
  cases e with
  | value a => exact .inl ⟨a, rfl⟩
  | failure f =>
      by_cases hroot : f.root = .fault .cancelled
      · exact .inr (.inl (if_pos hroot))
      · exact .inr (.inr ⟨_, if_neg hroot⟩)
  | panic r => exact .inr (.inr ⟨_, rfl⟩)

namespace Pool

variable {p q : Pool α} {t : Task (Job α)} {o : Outcome α}

theorem CanEnd.ne_circuitOpen {c : Cancellations} (h : CanEnd t c o) (retryAfter : Duration) :
    o ≠ .failed (.circuitOpen retryAfter) := by
  rcases h with rfl | ⟨rfl, -⟩
  · rcases t.body.body.ending.outcome_cases with ⟨v, h⟩ | h | ⟨reason, h⟩ <;> simp [h]
  · simp

/-- A pool that is in order has its tasks end once. -/
theorem Kept.endsOnce (h : p.Kept) : p.EndsOnce := by
  have hcount := h.balanced.accepted_perm
  have hnone : ∀ t ∈ p.queue.tasks ++ p.running, p.sentFor t.id = 0 := fun t ht =>
    List.count_eq_zero_of_not_mem (h.balanced.not_mem_delivered ht)
  -- an outcome that is neither a cancellation nor a refusal is that of a started body
  have hstarts : ∀ id o, p.outcome? id = some o → o ≠ .cancelled →
      (∀ retryAfter, o ≠ .failed (.circuitOpen retryAfter)) → p.startsOf id = 1 := by
    intro id o ho hne hpass
    obtain ⟨take, htake, rfl, hallows⟩ := h.exists_take ho hne
    by_cases hstarted : take.started = true
    · exact h.startsOf_eq_one htake hstarted
    · rw [Take.Allows, if_neg hstarted] at hallows
      rcases hallows with rfl | ⟨retryAfter, rfl⟩
      · contradiction
      · exact absurd rfl (hpass retryAfter)
  refine
    { startsOf_le := h.startsOf_le
      sentFor_ended := fun t ht hqueue hrunning => ?_
      sentFor_held := hnone
      sentFor_other := fun id hid => ?_
      completed_eq := h.balanced.completed_eq.trans (h.endedBy_eq _).symm
      failed_eq := h.balanced.failed_eq.trans (h.endedBy_eq _).symm
      cancelled_eq := h.balanced.cancelled_eq.trans (h.endedBy_eq _).symm
      fault_cases := fun id fault ho => ?_
      startsOf_completed := fun id value ho => hstarts id _ ho (by simp) (by simp)
      startsOf_payloadFailed := fun id reason ho => hstarts id _ ho (by simp) (by simp)
      startsOf_circuitOpen := fun id retryAfter ho => ?_ }
  · have hmem : t.id ∈ (p.queue.tasks ++ p.running).map Task.id ++ p.delivered.map Prod.fst :=
      hcount.mem_iff.1 (List.mem_map_of_mem ht)
    rcases List.mem_append.1 hmem with hheld | hdelivered
    · obtain ⟨u, hu, hid⟩ := List.mem_map.1 hheld
      have heq : u = t := List.inj_on_of_nodup_map h.balanced.accepted_nodup
        (h.balanced.mem_accepted u hu) ht hid
      rcases List.mem_append.1 (heq ▸ hu) with hu | hu
      · exact absurd hu hqueue
      · exact absurd hu hrunning
    · exact List.count_eq_one_of_mem h.delivered_nodup hdelivered
  · refine List.count_eq_zero_of_not_mem fun hmem => hid (hcount.mem_iff.2 ?_)
    exact List.mem_append_right _ hmem
  · obtain ⟨take, htake, -, hallows⟩ := h.exists_take ho (by simp)
    unfold Take.Allows at hallows
    split at hallows
    · rcases hallows with heq | ⟨heq, -⟩
      · rcases take.task.body.body.ending.outcome_cases with ⟨v, hv⟩ | hc | ⟨reason, hr⟩
        · simp [hv] at heq
        · simp [hc] at heq
        · exact .inl ⟨reason, by simpa [hr] using heq⟩
      · simp at heq
    · rcases hallows with heq | ⟨retryAfter, heq⟩
      · simp at heq
      · exact .inr ⟨retryAfter, by simpa using heq⟩
  · obtain ⟨take, htake, rfl, hallows⟩ := h.exists_take ho (by simp)
    unfold Take.Allows at hallows
    split at hallows
    · exact absurd rfl (hallows.ne_circuitOpen retryAfter)
    · exact h.startsOf_eq_zero htake (Bool.eq_false_iff.2 ‹_›)

/-! ## The counts add up -/

/-- Whether the counts of a pool of so many workers and a queue of some capacity add up. -/
structure Conserved (workers capacity : Nat) (p : Pool α) : Prop where
  /-- What was submitted has ended, is queued or is executing. -/
  submitted_eq : p.metrics.submitted =
    p.metrics.completed + p.metrics.failed + p.metrics.cancelled + p.queue.size + p.active
  /-- What is outstanding is queued or is executing. -/
  outstanding_eq : p.outstanding = p.queue.size + p.active
  /-- What a snapshot shows as in flight is outstanding, as long as the count of submitted tasks can
  be held in 64 bits. -/
  inFlight_eq : ∀ s, p.metrics.snapshot p.clock = .ok s → s.submitted ≤ Duration.countLimit →
    s.inFlight = p.outstanding
  /-- No more tasks are executing than there are workers. -/
  active_le : p.active ≤ workers
  /-- No more tasks are queued than there is room for. -/
  queued_le : p.queue.size ≤ capacity
  /-- The end of a task was never noted while nothing was outstanding. -/
  strayEnds_eq : p.tracker.strayEnds = 0
  /-- Each refused submission was counted. -/
  rejected_eq : p.metrics.rejected = p.refusals

/-- Each outcome is of one of three kinds. -/
theorem countP_kinds (l : List (Nat × Outcome α)) :
    l.countP (·.2.isCompleted) + l.countP (·.2.isFailed) + l.countP (·.2.isCancelled) =
      l.length := by
  induction l with
  | nil => rfl
  | cons d rest ih =>
      have hkind : (if d.2.isCompleted then 1 else 0) + (if d.2.isFailed then 1 else 0) +
          (if d.2.isCancelled then 1 else 0) = 1 := by
        cases d.2 <;> rfl
      simp only [List.countP_cons, List.length_cons]
      omega

theorem Kept.submitted_eq (h : p.Kept) : p.metrics.submitted =
    p.metrics.completed + p.metrics.failed + p.metrics.cancelled + p.queue.size + p.active := by
  have hlength := h.balanced.accepted_perm.length_eq
  simp only [List.length_append, List.length_map] at hlength
  have hsize : p.queue.size = p.queue.tasks.length := h.balanced.sound.depth_eq
  rw [h.balanced.submitted_eq, h.balanced.completed_eq, h.balanced.failed_eq,
    h.balanced.cancelled_eq, countP_kinds, h.traced.active_eq, hsize, hlength]
  omega

/-- A snapshot copies the counts. -/
theorem snapshot_counts {m : Metrics} {now : Instant} {s : MetricsSnapshot}
    (h : m.snapshot now = .ok s) : s.submitted = m.submitted ∧ s.completed = m.completed ∧
      s.failed = m.failed ∧ s.cancelled = m.cancelled := by
  unfold Metrics.snapshot at h
  simp only at h
  split at h
  · contradiction
  · cases h
    exact ⟨rfl, rfl, rfl, rfl⟩

theorem Kept.conserved (h : p.Kept) : p.Conserved p.workers.length p.queue.capacity := by
  have houtstanding : p.outstanding = p.queue.size + p.active := by
    rw [h.traced.active_eq]
    exact h.balanced.outstanding_eq
  refine ⟨h.submitted_eq, houtstanding, fun s hs hlimit => ?_, ?_, h.balanced.sound.depth_le,
    h.balanced.strayEnds_eq, h.balanced.rejected_eq⟩
  · obtain ⟨hsubmitted, hcompleted, hfailed, hcancelled⟩ := snapshot_counts hs
    have hsum := h.submitted_eq
    rw [← hsubmitted, ← hcompleted, ← hfailed, ← hcancelled] at hsum
    -- no sum of counts overflows, since all of them together are what was submitted
    have hended : s.ended = s.completed + s.failed + s.cancelled :=
      Nat.mod_eq_of_lt (by omega)
    rw [MetricsSnapshot.inFlight, hended, houtstanding]
    omega
  · rw [h.traced.active_eq]
    exact List.length_filterMap_le _ _

end Pool

/-! ## Runs -/

namespace Engine

variable {e : Engine α} {p : Pool α}

/-- Whatever is kept by every step of a pool holds in all states and after all runs. -/
theorem kept_run (h : e.pool.Kept) (requests : List (Request α)) : (e.run requests).pool.Kept :=
  (leadsTo_run e requests h.balanced.sound).kept h

/-- From the start of a pool on, in whatever order things happen, each accepted task ends once and
is counted as its handle says. -/
theorem run_endsOnce (config : EngineConfig) (around : Surroundings) (now : Instant)
    (log : LogBook) (p : Pool α) (h : Pool.start config around now log = .ok p) :
    (∀ q, p.Reaches q → q.EndsOnce) ∧
      ∀ requests, ((ofPool config p none).run requests).pool.EndsOnce := by
  have hkept : p.Kept := Pool.kept_of_start h
  constructor
  · intro q hreaches
    exact (hreaches.kept hkept).endsOnce
  · intro requests
    exact (kept_run (e := ofPool config p none) hkept requests).endsOnce

/-- A pool of two workers with a backlog for each of them, at the origin of the time line. -/
def pairConfig : EngineConfig := { workerCount := 2, initialStrategy := .sharded }

/-- The pool of two workers that is started where threads are not limited. -/
def pairPool : Pool Nat := (Pool.ofWorkers pairConfig 2 2 0 ⟨0, []⟩).settle

theorem start_pairPool : Pool.start pairConfig {} 0 ⟨0, []⟩ = .ok pairPool := by
  have hvalid : pairConfig.validate = .ok () := rfl
  unfold Pool.start
  rw [hvalid]
  rfl

theorem pairPool_endsOnce : Pool.start pairConfig {} 0 ⟨0, []⟩ = .ok pairPool ∧
    (∀ q, pairPool.Reaches q → q.EndsOnce) ∧
      ∀ requests, ((ofPool pairConfig pairPool none).run requests).pool.EndsOnce :=
  ⟨start_pairPool, run_endsOnce pairConfig {} 0 ⟨0, []⟩ pairPool start_pairPool⟩

/-- The pool of a started engine is a started pool. -/
theorem start_pool {config : EngineConfig} {around : Surroundings} {now : Instant} {log : LogBook}
    (h : startPool config around now log = .ok e ∨ start config around now log = .ok e) :
    Pool.start config around now log = .ok e.pool := by
  rcases h with h | h
  · unfold startPool at h
    split at h
    · contradiction
    · cases h
      assumption
  · unfold start at h
    split at h
    · contradiction
    · split at h
      · cases h
        assumption
      · contradiction

/-- A started pool can be driven by hand. -/
theorem startPool_of_start {config : EngineConfig} {around : Surroundings} {now : Instant}
    {log : LogBook} {p : Pool α} (h : Pool.start config around now log = .ok p) :
    startPool config around now log = .ok (ofPool config p none) := by
  unfold startPool
  rw [h]

/-- From the start of a pool or an engine on, in whatever order things happen, the counts add up. -/
theorem run_conserved (config : EngineConfig) (around : Surroundings) (now : Instant)
    (log : LogBook) (e : Engine α)
    (h : startPool config around now log = .ok e ∨ start config around now log = .ok e) :
    (∀ q, e.pool.Reaches q →
        q.Conserved (config.resolvedWorkerCount around.processors) config.maxQueueCapacity) ∧
      ∀ requests, (e.run requests).pool.Conserved
        (config.resolvedWorkerCount around.processors) config.maxQueueCapacity := by
  have hstart := start_pool h
  have hkept := Pool.kept_of_start hstart
  have hall : ∀ q, e.pool.Reaches q →
      q.Conserved (config.resolvedWorkerCount around.processors) config.maxQueueCapacity := by
    intro q hreaches
    have hgrows := ((Pool.works_of_start hstart).reaches.trans hreaches).grows
      (Pool.kept_ofWorkers _ _ _ _ _).balanced.sound
    have hq := (hreaches.kept hkept).conserved
    rw [hgrows.length_eq, hgrows.settings.capacity_eq] at hq
    simpa [Pool.ofWorkers, TaskQueue.ofKind] using hq
  exact ⟨hall, fun requests => hall _ (leadsTo_run e requests hkept.balanced.sound)⟩

theorem pairPool_conserved :
    (startPool pairConfig {} 0 ⟨0, []⟩ = .ok (ofPool pairConfig pairPool none) ∨
        start pairConfig {} 0 ⟨0, []⟩ = .ok (ofPool pairConfig pairPool none)) ∧
      (∀ q, pairPool.Reaches q → q.Conserved 2 10000) ∧
      ∀ requests, ((ofPool pairConfig pairPool none).run requests).pool.Conserved 2 10000 := by
  have hstart : startPool pairConfig {} 0 ⟨0, []⟩ = .ok (ofPool pairConfig pairPool none) :=
    startPool_of_start start_pairPool
  exact ⟨.inl hstart, run_conserved pairConfig {} 0 ⟨0, []⟩ _ (.inl hstart)⟩

end Engine

end Dispatch
