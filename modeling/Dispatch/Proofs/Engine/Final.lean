import Dispatch.Proofs.Engine.Idle
import Dispatch.Proofs.Engine.Immediate
/-!
# A shutdown is final

Whatever has happened before, an engine whose shutdown has returned has no coordinator, no recurring
tasks and no worker that could do anything. It refuses what is submitted and lets time pass, and neither
starts a body again nor changes what it counts as submitted or ended; a further shutdown changes nothing.
-/

namespace Dispatch

variable {α : Type}

namespace Pool

variable {p q : Pool α}

/-! ## Closed pools -/

theorem Closing.of_eq (h : p.Closing) (hqueue : q.queue = p.queue) (hclock : q.clock = p.clock)
    (hworkers : q.workers = p.workers) : q.Closing := by
  refine ⟨⟨?_, ?_, ?_, ?_⟩, ?_⟩ <;> rw [hqueue]
  · rw [hclock]
    exact h.sound
  · exact h.closed
  · exact h.interrupted
  · rw [hclock, hworkers]
    exact h.not_isReady
  · rw [hclock]
    exact h.isReady

theorem Closing.withContention (h : p.Closing) (c : Contention) :
    { p with queue := p.queue.withContention c }.Closing := by
  have htasks : (p.queue.withContention c).tasks = p.queue.tasks :=
    (Strategy.sameTasks_withContention c p.queue.strategy).tasks_eq
  refine ⟨⟨(h.sound.withContention c).sound, h.closed, ?_, fun hmem t ht => ?_⟩, fun t ht => ?_⟩
  · exact (Strategy.isInterrupted_withContention c p.queue.strategy).trans h.interrupted
  · exact h.not_isReady hmem t (htasks ▸ ht)
  · exact h.isReady t (htasks ▸ ht)

theorem Closing.join (h : p.Closing) : p.join.Closing := by
  have hsound := ((reaches_join p).grows h.sound).sound
  unfold Pool.join at hsound ⊢
  split
  · exact h
  · rename_i hjoined
    rw [if_neg hjoined] at hsound
    obtain ⟨-, hnil, -⟩ := h.sound.drain
    refine ⟨⟨hsound, ?_, ?_, fun _ t ht => ?_⟩, fun t ht => ?_⟩
    · simp only [cancelRemoved_queue]
      exact h.closed
    · simp only [cancelRemoved_queue]
      exact (Strategy.isInterrupted_drain _).trans h.interrupted
    · simp [hnil] at ht
    · simp [hnil] at ht

/-- Whether a pool that admits no task any more has closed its queue, so that its workers are bound to
stop. -/
structure Sealed (p : Pool α) : Prop where
  sound : p.queue.Sound p.clock
  gated : p.Gated
  closing : p.accepting = false → p.Closing

theorem closing_close (h : p.Sealed) (graceful : Bool) : (p.close graceful).Closing := by
  cases haccepting : p.accepting with
  | false =>
      rw [close, if_neg (by simp [haccepting])]
      exact h.closing haccepting
  | true =>
      have hopen := h.gated.open_of_accepting haccepting
      cases graceful with
      | true =>
          obtain ⟨turns, hclose⟩ := exists_close_eq haccepting hopen
          exact hclose ▸ closing_cleared h.sound h.gated hopen turns
      | false =>
          obtain ⟨turns, hrouse⟩ := exists_rouse_eq p.shutQueue
          exact close_false_eq haccepting hopen hrouse ▸
            closing_emptied h.sound h.gated hopen turns

/-- An exchange of the strategy does not make a pool refuse tasks. -/
theorem switch_accepting (hs : p.queue.Sound p.clock) (kind : StrategyKind) :
    (p.switch kind).1.accepting = p.accepting := by
  unfold switch
  split
  · exact ((works_rouse { p with queue := p.queue.interrupt }).carries
      hs.interrupt.sound).accepting_eq
  · rfl

theorem Act.sealed (hact : Act p q) (h : p.Sealed) : q.Sealed := by
  have hreaches := hact.reaches h.sound
  refine ⟨(hreaches.grows h.sound).sound, hreaches.gated h.sound h.gated, fun hrefusing => ?_⟩
  cases hact with
  | submitAt readyAt s =>
      have hbefore : p.accepting = false :=
        (submits_submitAt p readyAt s).accepting_eq.symm.trans hrefusing
      rw [submitAt_of_not_accepting hbefore]
      exact (h.closing hbefore).of_eq rfl rfl rfl
  | sample c => exact (h.closing hrefusing).withContention c
  | switch kind =>
      have hclosing := h.closing ((switch_accepting h.sound kind).symm.trans hrefusing)
      have hcannot : p.queue.canSwitch kind = false := by
        simp [TaskQueue.canSwitch, hclosing.closed]
      rw [show p.switch kind = (p, none) from if_neg (by simp [hcannot])]
      exact hclosing
  | close graceful => exact closing_close h graceful
  | abandon =>
      unfold Pool.abandon at hrefusing ⊢
      split
      · exact (closing_close h false).of_eq rfl rfl rfl
      · rename_i hnot
        exact h.closing (by simpa using hnot)
  | _ => exact (h.closing hrefusing).of_eq rfl rfl rfl

theorem Acts.sealed (hacts : p.Acts q) (h : p.Sealed) : q.Sealed := by
  induction hacts with
  | refl => exact h
  | tail _ hlast ih => exact hlast.sealed ih

theorem Sealed.settle (h : p.Sealed) : p.settle.Sealed := by
  have hworks := works_settle p
  have hcarries := hworks.carries h.sound
  refine ⟨hcarries.sound, hworks.reaches.gated h.sound h.gated, fun hrefusing => ?_⟩
  exact (h.closing (hcarries.accepting_eq.symm.trans hrefusing)).settle

theorem Sealed.withClock (h : p.Sealed) {now : Instant} (hle : p.clock ≤ now) :
    { p with clock := now }.Sealed :=
  ⟨h.sound.mono hle, ⟨h.gated.open_of_accepting, h.gated.closed_of_stopped⟩,
    fun hrefusing => (h.closing hrefusing).withClock hle⟩

theorem Sealed.join (h : p.Sealed) : p.join.Sealed := by
  have hreaches := reaches_join p
  refine ⟨(hreaches.grows h.sound).sound, hreaches.gated h.sound h.gated, fun hrefusing => ?_⟩
  exact (h.closing ((join_progress p).1.symm.trans hrefusing)).join

/-- A started pool admits tasks. -/
theorem sealed_of_start {config : EngineConfig} {around : Surroundings} {now : Instant}
    {log : LogBook} (h : Pool.start config around now log = .ok p) : p.Sealed := by
  have hcarries := (works_of_start h).carries (kept_ofWorkers _ _ _ _ _).balanced.sound
  refine ⟨hcarries.sound, gated_of_start h, fun hrefusing => ?_⟩
  have haccepting : p.accepting = true := hcarries.accepting_eq
  rw [haccepting] at hrefusing
  contradiction

end Pool

namespace Engine

variable {e e' : Engine α}

theorem sealed_settle (h : e.pool.Sealed) : e.settle.pool.Sealed := by
  rcases settle_cases e with heq | ⟨q, hacts, heq⟩
  · exact heq ▸ h.settle
  · exact heq ▸ (hacts.sealed h.settle).settle

theorem Move.sealed (hmove : Move e e') (h : e.pool.Sealed) : e'.pool.Sealed := by
  cases hmove with
  | request hacts => exact sealed_settle (hacts.sealed h)
  | arrange hpool => exact hpool ▸ h
  | jump t => exact sealed_settle (h.withClock (Int.le_max_left e.pool.clock t))
  | join => exact h.join

/-! ## Engines that are over -/

/-- Whether the shutdown of an engine has returned. -/
structure Over (e : Engine α) : Prop where
  coordinator_eq : e.coordinator = none
  entries_eq : e.recurring.entries = []
  pool : e.pool.Over

/-- Without a coordinator nothing but the pool changes while time passes. -/
theorem exists_jump_eq (h : e.coordinator = none) (t : Instant) :
    ∃ pool, e.jump t = { e with pool := pool } := by
  have hwoken : (e.mapPool fun p => { p with clock := max p.clock t }).coordinator = none := h
  exact ⟨_, settle_of_coordinator_eq_none hwoken⟩

theorem exists_runUntil_eq (h : e.coordinator = none) (stop : Engine α → Bool) (limit : Instant) :
    ∃ pool, e.runUntil stop limit = { e with pool := pool } := by
  fun_induction Engine.runUntil stop limit e with
  | case1 e => exact ⟨e.pool, rfl⟩
  | case2 e => exact exists_jump_eq h limit
  | case3 e => exact exists_jump_eq h limit
  | case4 e _ t _ _ next _ ih =>
      obtain ⟨woken, hwoken⟩ : ∃ pool, next = { e with pool := pool } := exists_jump_eq h t
      obtain ⟨pool, hpool⟩ := ih (by rw [hwoken]; exact h)
      exact ⟨pool, by rw [hpool, hwoken]⟩
  | case5 e _ t => exact exists_jump_eq h t

/-- When a shutdown returns, the engine is over, whatever it was doing before. -/
theorem over_shutdown (h : e.pool.Sealed) (graceful : Bool) : (e.shutdown graceful).Over := by
  let closed := e.stopCoordinator.mapPool (·.close graceful)
  have hclosing : closed.pool.Closing := Pool.closing_close h graceful
  have hcoordinator : closed.coordinator = none := rfl
  obtain ⟨hstopped, hworks⟩ := awaitWorkers_settle hcoordinator hclosing
  have hcarries := hworks.carries hclosing.sound
  have hsettle := settle_of_coordinator_eq_none hcoordinator
  -- the wait changes nothing but the pool
  obtain ⟨pool, hwaited⟩ : ∃ pool, closed.settle.awaitWorkers = { closed.settle with pool := pool } :=
    exists_runUntil_eq (by rw [hsettle]; rfl) _ _
  have hend : e.shutdown graceful = closed.settle.awaitWorkers.mapPool .join := rfl
  refine ⟨?_, ?_, ?_⟩
  · rw [hend, hwaited, hsettle]
    rfl
  · rw [hend, hwaited, hsettle]
    rfl
  · rw [hend]
    refine Pool.over_join (hcarries.accepting_eq.trans ?_) (hcarries.closed hclosing.closed) hstopped
    exact Pool.close_accepting h.sound graceful

/-! ## Requests to an engine that is over -/

theorem Over.settle_eq (h : e.Over) : e.settle = e := by
  rw [settle_of_coordinator_eq_none h.coordinator_eq, mapPool, Pool.settle_eq_self h.pool.isStopped]

theorem Over.nextWake_eq (h : e.Over) : e.nextWake = none := by
  rw [nextWake, Pool.nextWake_of_isStopped h.pool.isStopped, h.coordinator_eq]
  rfl

theorem Over.withPool (h : e.Over) {pool : Pool α} (hpool : pool.Over) :
    { e with pool := pool }.Over :=
  ⟨h.coordinator_eq, h.entries_eq, hpool⟩

/-- Nothing is left to happen at the present instant. -/
theorem Over.ask_eq (h : e.Over) {β : Type} {request : Pool α → Pool α × β}
    (hpool : (request e.pool).1.Over) :
    e.ask request = ({ e with pool := (request e.pool).1 }, (request e.pool).2) := by
  simp only [ask]
  rw [(h.withPool hpool).settle_eq]

theorem Over.tell_eq (h : e.Over) {request : Pool α → Pool α} (hpool : (request e.pool).Over) :
    e.tell request = { e with pool := request e.pool } :=
  (h.withPool hpool).settle_eq

theorem Over.jump_eq (h : e.Over) (t : Instant) :
    e.jump t = e.mapPool fun p => { p with clock := max p.clock t } :=
  (h.withPool (h.pool.onlyRefuses_withClock (Int.le_max_left _ t)).isOver).settle_eq

/-- A wait lets time pass, and nothing happens meanwhile. -/
theorem Over.exists_runUntil_eq (h : e.Over) (stop : Engine α → Bool) (limit : Instant) :
    ∃ now, e.clock ≤ now ∧ e.runUntil stop limit = e.mapPool fun p => { p with clock := now } := by
  rw [Engine.runUntil]
  split
  · exact ⟨e.clock, Int.le_refl _, rfl⟩
  · simp only [h.nextWake_eq]
    exact ⟨_, Int.le_max_left _ _, h.jump_eq limit⟩

theorem Over.stopCoordinator_eq (h : e.Over) : e.stopCoordinator = e := by
  obtain ⟨config, pool, ⟨entries, made⟩, selector, health, coordinator⟩ := e
  obtain rfl : coordinator = none := h.coordinator_eq
  obtain rfl : entries = [] := h.entries_eq
  rfl

theorem Over.shutdownPool_eq (h : e.Over) (graceful : Bool) : e.shutdownPool graceful = e := by
  have hclose := h.pool.close_eq graceful
  have htell : e.tell (·.close graceful) = e := by
    rw [h.tell_eq (hclose.symm ▸ h.pool), hclose]
  have hwait : e.awaitWorkers = e := by
    rw [awaitWorkers, Engine.runUntil, if_pos h.pool.isStopped]
  rw [shutdownPool, htell, joinWorkers, hwait, mapPool, h.pool.join_eq]

/-- A further shutdown changes nothing. -/
theorem Over.shutdown_eq (h : e.Over) (graceful : Bool) : e.shutdown graceful = e := by
  rw [shutdown, h.stopCoordinator_eq, h.shutdownPool_eq]

theorem Over.abandonPool_eq (h : e.Over) : e.abandonPool = e := by
  have habandon := h.pool.abandon_eq
  rw [abandonPool, h.tell_eq (habandon.symm ▸ h.pool), habandon]

theorem Over.switch_eq (h : e.Over) (kind : StrategyKind) : e.switch kind = (e, none) := by
  have hswitch := h.pool.switch_eq kind
  rw [switch, h.ask_eq (by rw [hswitch]; exact h.pool), hswitch]

theorem Over.scheduleRecurring_eq (h : e.Over) (interval : Duration) (s : Submission α) :
    e.scheduleRecurring interval s = (e, .error .shuttingDown) :=
  if_neg (by simp [h.pool.accepting_eq])

theorem Over.submitAt_snd (h : e.Over) (readyAt : Instant) (s : Submission α) :
    (e.submitAt readyAt s).2 = .error .shuttingDown := by
  rw [submitAt, h.ask_eq (h.pool.onlyRefuses_submitAt readyAt s).isOver,
    Pool.submitAt_of_not_accepting h.pool.accepting_eq]

/-- No recurring task is left that a sweep could submit. -/
theorem Over.sweep_eq (h : e.Over) (now : Instant) : e.sweep now = (e, 0) := by
  have hdue : e.submitDue now = (e, 0) := by
    obtain ⟨config, pool, ⟨entries, made⟩, selector, health, coordinator⟩ := e
    obtain rfl : entries = [] := h.entries_eq
    rfl
  rw [sweep, hdue]
  simp only [h.settle_eq]

end Engine

/-- Whether a request is one of those to an engine: its recurring tasks are not registered past it, and
nobody but its pool tells its breaker anything. -/
def Request.isOfEngine : Request α → Bool
  | .register _ _ | .tellBreaker _ => false
  | _ => true

/-- Whether a request submits a task. -/
def Request.isSubmission : Request α → Bool
  | .submit _ | .submitAt _ _ | .schedule _ _ => true
  | _ => false

namespace Engine

variable {e e' : Engine α}

/-- Whether an engine that is over has come to another one by refusing so many tasks. -/
structure OnlyRefuses (refusals : Nat) (e e' : Engine α) : Prop where
  isOver : e'.Over
  pool : Pool.OnlyRefuses refusals e.pool e'.pool

theorem Over.onlyRefuses_withPool (h : e.Over) {refusals : Nat} {pool : Pool α}
    (hpool : Pool.OnlyRefuses refusals e.pool pool) :
    OnlyRefuses refusals e { e with pool := pool } :=
  ⟨h.withPool hpool.isOver, hpool⟩

theorem Over.onlyRefuses_runUntil (h : e.Over) (stop : Engine α → Bool) (limit : Instant) :
    OnlyRefuses 0 e (e.runUntil stop limit) := by
  obtain ⟨now, hle, heq⟩ := h.exists_runUntil_eq stop limit
  exact heq ▸ h.onlyRefuses_withPool (h.pool.onlyRefuses_withClock hle)

theorem Over.onlyRefuses_submitAt (h : e.Over) (readyAt : Instant) (s : Submission α) :
    OnlyRefuses 1 e (e.submitAt readyAt s).1 := by
  have hpool := h.pool.onlyRefuses_submitAt readyAt s
  rw [submitAt, h.ask_eq hpool.isOver]
  exact h.onlyRefuses_withPool hpool

theorem Over.onlyRefuses (h : e.Over) : OnlyRefuses 0 e e := ⟨h, h.pool.onlyRefuses⟩

theorem Over.onlyRefuses_of_eq (h : e.Over) (heq : e' = e) : OnlyRefuses 0 e e' :=
  heq.symm ▸ h.onlyRefuses

/-- Whatever is requested of an engine that is over, a submission is refused, and nothing else is done. -/
theorem Over.serve (h : e.Over) (request : Request α) (hengine : request.isOfEngine = true) :
    OnlyRefuses (if request.isSubmission then 1 else 0) e (e.serve request) := by
  cases request with
  | submit s => exact h.onlyRefuses_submitAt e.clock s
  | submitAt readyAt s => exact h.onlyRefuses_submitAt readyAt s
  | schedule delay s => exact h.onlyRefuses_submitAt _ s
  | scheduleRecurring interval s =>
      exact h.onlyRefuses_of_eq (congrArg Prod.fst (h.scheduleRecurring_eq interval s))
  | register interval s => contradiction
  | cancelRecurring id =>
      refine ⟨⟨h.coordinator_eq, ?_, h.pool⟩, h.pool.onlyRefuses⟩
      simp [Engine.serve, cancelRecurring, Recurring.cancel, h.entries_eq]
  | clearRecurring => exact ⟨⟨h.coordinator_eq, rfl, h.pool⟩, h.pool.onlyRefuses⟩
  | sweep now => exact h.onlyRefuses_of_eq (congrArg Prod.fst (h.sweep_eq now))
  | freshToken =>
      have hpool := h.pool.onlyRefuses_withTokens e.pool.tokens.fresh.1
      rw [Engine.serve, freshToken, h.ask_eq hpool.isOver]
      exact h.onlyRefuses_withPool hpool
  | cancel t =>
      have hpool := h.pool.onlyRefuses_withTokens (e.pool.tokens.cancel t)
      rw [Engine.serve, cancel, h.tell_eq hpool.isOver]
      exact h.onlyRefuses_withPool hpool
  | switch kind => exact h.onlyRefuses_of_eq (congrArg Prod.fst (h.switch_eq kind))
  | tellBreaker change => contradiction
  | registerCheck name probe => exact ⟨⟨h.coordinator_eq, h.entries_eq, h.pool⟩, h.pool.onlyRefuses⟩
  | unregisterCheck name => exact ⟨⟨h.coordinator_eq, h.entries_eq, h.pool⟩, h.pool.onlyRefuses⟩
  | report => exact ⟨⟨h.coordinator_eq, h.entries_eq, h.pool⟩, h.pool.onlyRefuses⟩
  | advance d => exact h.onlyRefuses_runUntil _ _
  | waitIdle timeout => exact h.onlyRefuses_runUntil _ _
  | await handle timeout => exact h.onlyRefuses_runUntil _ _
  | get handle timeout => exact h.onlyRefuses_runUntil _ _
  | shutdownPool graceful => exact h.onlyRefuses_of_eq (h.shutdownPool_eq graceful)
  | shutdown graceful => exact h.onlyRefuses_of_eq (h.shutdown_eq graceful)
  | abandonPool => exact h.onlyRefuses_of_eq h.abandonPool_eq
  | abandon =>
      refine h.onlyRefuses_of_eq ?_
      rw [Engine.serve, abandon, h.stopCoordinator_eq, h.abandonPool_eq]

theorem OnlyRefuses.trans {m n : Nat} {e'' : Engine α} (h : OnlyRefuses m e e')
    (h' : OnlyRefuses n e' e'') : OnlyRefuses (m + n) e e'' :=
  ⟨h'.isOver, h.pool.trans h'.pool⟩

theorem Over.run (h : e.Over) (requests : List (Request α))
    (hengine : ∀ request ∈ requests, request.isOfEngine = true) :
    OnlyRefuses (requests.countP Request.isSubmission) e (e.run requests) := by
  induction requests generalizing e with
  | nil => exact h.onlyRefuses
  | cons request rest ih =>
      have hone := h.serve request (hengine request List.mem_cons_self)
      have hrest := ih hone.isOver fun r hr => hengine r (List.mem_cons_of_mem _ hr)
      rw [List.countP_cons, Nat.add_comm]
      exact hone.trans hrest

/-! ## The shutdown as a whole -/

/-- Whether an engine is at its end for good when its shutdown has returned: whatever of these requests
it is asked, it has nothing left to do, and a request that comes then is in vain. -/
structure Final (e : Engine α) (requests : List (Request α)) : Prop where
  /-- No recurring task is left. -/
  size_eq : (e.run requests).recurring.size = 0
  /-- Nothing is started or submitted, and the counts, the strategy and the breaker stay, but that
  each submission of a caller is counted as refused. -/
  onlyRefuses : e.pool.OnlyRefuses (requests.countP Request.isSubmission) (e.run requests).pool
  submit_eq : ∀ s, ((e.run requests).submit s).2 = .error .shuttingDown
  submitAt_eq : ∀ readyAt s, ((e.run requests).submitAt readyAt s).2 = .error .shuttingDown
  schedule_eq : ∀ delay s, ((e.run requests).schedule delay s).2 = .error .shuttingDown
  scheduleRecurring_eq : ∀ interval s,
    (e.run requests).scheduleRecurring interval s = (e.run requests, .error .shuttingDown)
  switch_eq : ∀ kind, (e.run requests).switch kind = (e.run requests, none)
  /-- A further shutdown changes nothing. -/
  shutdown_eq : ∀ graceful, (e.run requests).shutdown graceful = e.run requests

theorem Over.final (h : e.Over) {requests : List (Request α)}
    (hengine : ∀ request ∈ requests, request.isOfEngine = true) : e.Final requests := by
  have hrun := h.run requests hengine
  have hover := hrun.isOver
  refine
    { size_eq := by rw [Recurring.size, hover.entries_eq, List.length_nil]
      onlyRefuses := hrun.pool
      submit_eq := fun s => hover.submitAt_snd _ s
      submitAt_eq := hover.submitAt_snd
      schedule_eq := fun delay s => hover.submitAt_snd _ s
      scheduleRecurring_eq := hover.scheduleRecurring_eq
      switch_eq := hover.switch_eq
      shutdown_eq := hover.shutdown_eq }

/-- From the start of a pool or an engine on, whatever it has become: a shutdown that is not graceful
cuts short what is left to be done, and after any shutdown the engine is at its end for good. -/
theorem shutdown_final (config : EngineConfig) (around : Surroundings) (now : Instant) (log : LogBook)
    (e₀ e : Engine α)
    (h : startPool config around now log = .ok e₀ ∨ start config around now log = .ok e₀)
    (hcomes : e₀.Comes e) :
    (e.pool.accepting = true → e.pool.CutsShort (e.shutdown false).pool) ∧
      ∀ graceful requests, (∀ request ∈ requests, request.isOfEngine = true) →
        (e.shutdown graceful).Final requests := by
  have hstart := start_pool h
  have hkept₀ := Pool.kept_of_start hstart
  have hkept : e.pool.Kept := (hcomes.leadsTo hkept₀.balanced.sound).kept hkept₀
  have hrested : e.pool.Rested :=
    hcomes.keeps (I := fun e => e.pool.Rested) (fun hmove h => hmove.rested h)
      (Pool.rested_of_start hstart)
  have hsealed : e.pool.Sealed :=
    hcomes.keeps (I := fun e => e.pool.Sealed) (fun hmove h => hmove.sealed h)
      (Pool.sealed_of_start hstart)
  constructor
  · intro haccepting
    have hopen := hsealed.gated.open_of_accepting haccepting
    obtain ⟨turns, hrouse⟩ := Pool.exists_rouse_eq e.pool.shutQueue
    let emptied := e.stopCoordinator.mapPool fun _ => e.pool.emptied turns
    have hclose : e.stopCoordinator.mapPool (·.close false) = emptied := by
      show { e.stopCoordinator with pool := e.pool.close false } = emptied
      rw [Pool.close_false_eq haccepting hopen hrouse]
      rfl
    have hend : e.shutdown false = emptied.settle.awaitWorkers.mapPool .join :=
      congrArg (fun closed => closed.settle.awaitWorkers.mapPool .join) hclose
    obtain ⟨hstopped, hworks⟩ := awaitWorkers_settle (e := emptied) rfl
      (Pool.closing_emptied hsealed.sound hsealed.gated hopen turns)
    rw [hend]
    exact hkept.cutsShort hrested hsealed.gated hopen hrouse hworks hstopped
  · intro graceful requests hengine
    exact (over_shutdown hsealed graceful).final hengine

/-- Two workers with a shard each, who may not take from each other. -/
def apartConfig : EngineConfig :=
  { pairConfig with workStealing := false, adaptive := { enabled := false } }

/-- The pool of these workers. -/
def apartPool : Pool Nat := (Pool.ofWorkers apartConfig 2 2 0 ⟨0, []⟩).settle

/-- The engine that is started with this pool. -/
def apartEngine : Engine Nat := ofPool apartConfig apartPool (some (Coordinator.start apartConfig 0))

theorem start_apartEngine : start apartConfig {} 0 ⟨0, []⟩ = .ok apartEngine := by
  have hvalid : apartConfig.validate = .ok () := rfl
  unfold start Pool.start
  rw [hvalid]
  rfl

/-- A task that sleeps for a while, if it does so at all. -/
def sleepSubmission (naps : List Action) : Submission Nat := ⟨"sleep", .normal, none, ⟨naps, .value 1⟩⟩

/-- The engine with a long task, a short one, and a third one that is queued behind the long one. -/
def queuedEngine : Engine Nat := apartEngine.run
  [.submit (sleepSubmission [.sleep 20]), .submit (sleepSubmission []), .submit (sleepSubmission [])]

theorem queuedEngine_final : start apartConfig {} 0 ⟨0, []⟩ = .ok apartEngine ∧
    apartEngine.Comes queuedEngine ∧ queuedEngine.pool.accepting = true ∧
    queuedEngine.pool.CutsShort (queuedEngine.shutdown false).pool ∧
    (queuedEngine.shutdown true).Final
      [.submit (sleepSubmission []), .advance 100, .switch .locked, .shutdown false] := by
  have haccepting : queuedEngine.pool.accepting = true := by decide +kernel
  have h := shutdown_final apartConfig {} 0 ⟨0, []⟩ apartEngine queuedEngine (.inr start_apartEngine)
    (comes_run _ _)
  exact ⟨start_apartEngine, comes_run _ _, haccepting, h.1 haccepting,
    h.2 true _ (by simp [Request.isOfEngine])⟩

/-- A task that is queued when an engine is shut down at once can be run nevertheless: the worker that
was waiting beside it takes it as the waits are given up. -/
theorem queuedEngine_strays : start apartConfig {} 0 ⟨0, []⟩ = .ok apartEngine ∧
    apartEngine.Comes queuedEngine ∧ queuedEngine.pool.accepting = true ∧
    queuedEngine.pool.queue.tasks.map Task.id = [3] ∧
    (queuedEngine.shutdown false).pool.startsOf 3 = 1 ∧
    ((queuedEngine.shutdown false).pool.outcome? 3).any Outcome.isCancelled = false :=
  ⟨start_apartEngine, comes_run _ _, by decide +kernel, by decide +kernel, by decide +kernel,
    by decide +kernel⟩

end Engine

end Dispatch
