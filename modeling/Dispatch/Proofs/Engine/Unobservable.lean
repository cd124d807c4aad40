import Dispatch.Proofs.Engine.Alike
import Dispatch.Proofs.Engine.Starts
import Dispatch.Proofs.Queue.Observed
/-!
# The strategy cannot be observed

With one shard, callers of a queue cannot see which strategy it has. Engines with one worker each that
differ only in their strategies come to rest at the same instants with pools that are alike, wherever the
strategy of one of them is exchanged, be it on request or by the coordinator: their tasks fare the same.
-/

namespace Dispatch

variable {α : Type}

namespace Pool

variable {p p' : Pool α}

/-- Whether tasks fare the same in two pools. -/
structure SameFate (p p' : Pool α) : Prop where
  /-- The same tasks were submitted, with the same answers. -/
  answers_eq : p'.answers = p.answers
  /-- The workers took the same tasks at the same instants, and started the same bodies. -/
  takes_eq : p'.takes = p.takes
  starts_eq : p'.starts = p.starts
  outcome?_eq : ∀ id, p'.outcome? id = p.outcome? id

theorem Alike.outcome?_eq (h : p.Alike p') (hp : p.Kept) (hp' : p'.Kept) (id : Nat) :
    p'.outcome? id = p.outcome? id := by
  refine Option.ext fun o => ?_
  rw [hp'.outcome?_eq_some_iff, hp.outcome?_eq_some_iff]
  exact h.delivered_perm.mem_iff.symm

theorem Alike.sameFate (h : p.Alike p') (hp : p.Kept) (hp' : p'.Kept) : p.SameFate p' where
  answers_eq := h.answers_eq
  takes_eq := h.takes_eq
  starts_eq := by unfold starts; rw [h.takes_eq]
  outcome?_eq := h.outcome?_eq hp hp'

end Pool

/-- The settings with another strategy to begin with. -/
def EngineConfig.withStrategy (kind : StrategyKind) (stealing : Bool) (c : EngineConfig) :
    EngineConfig :=
  { c with initialStrategy := kind, workStealing := stealing }

/-- Whether a request asks for an exchange of the strategy. -/
def Request.isSwitch : Request α → Bool
  | switch _ => true
  | _ => false

theorem Request.eq_switch {request : Request α} (h : request.isSwitch = true) :
    ∃ kind, request = .switch kind := by
  cases request with
  | switch kind => exact ⟨kind, rfl⟩
  | _ => contradiction

namespace Engine

variable {e e' : Engine α}

/-! ## Waits -/

theorem Twin.nextWake_eq (h : Twin e e') : e'.nextWake = e.nextWake := by
  unfold Engine.nextWake
  rw [h.pool.nextWake_eq h.rested h.rested', h.coordinator_eq]

/-- Waits for something that is the same in both take the same time. -/
theorem Twin.runUntil (h : Twin e e') {stop : Engine α → Bool}
    (hstop : ∀ {e e' : Engine α}, Twin e e' → stop e' = stop e) (limit : Instant) :
    Twin (e.runUntil stop limit) (e'.runUntil stop limit) :=
  related_runUntil (R := Twin) (fun h t => h.jump t) (fun h => h.clock_eq) (fun h => h.nextWake_eq)
    hstop limit h

theorem Alike.deadline_eq (h : e.Alike e') (timeout : Option Duration) :
    e'.deadline timeout = e.deadline timeout := by
  unfold deadline
  rw [h.clock_eq]

theorem Twin.advance (h : Twin e e') (d : Duration) : Twin (e.advance d) (e'.advance d) := by
  unfold Engine.advance
  rw [h.clock_eq]
  exact h.runUntil (fun _ => rfl) _

theorem Twin.waitIdle (h : Twin e e') (timeout : Option Duration) :
    Twin (e.waitIdle timeout).1 (e'.waitIdle timeout).1 := by
  unfold Engine.waitIdle
  rw [h.deadline_eq]
  refine h.runUntil (fun h => ?_) _
  unfold Pool.isIdle Pool.outstanding
  rw [h.pool.tracker_eq]

theorem Twin.await (h : Twin e e') (handle : Handle) (timeout : Option Duration) :
    Twin (e.await handle timeout).1 (e'.await handle timeout).1 := by
  unfold Engine.await Engine.receiveWithin
  simp only
  rw [h.deadline_eq]
  refine h.runUntil (fun h => ?_) _
  unfold Handle.isSettled
  rw [h.pool.outcome?_eq h.kept h.kept']

theorem Twin.joinWorkers (h : Twin e e') : Twin e.joinWorkers e'.joinWorkers := by
  have hlimit : e'.clock + e'.pool.timeNeeded = e.clock + e.pool.timeNeeded := by
    rw [h.clock_eq, h.pool.timeNeeded_eq h.rested h.rested']
  have hwaited : Twin e.awaitWorkers e'.awaitWorkers := by
    unfold awaitWorkers
    rw [hlimit]
    exact h.runUntil (fun h => h.pool.isStopped_eq h.rested h.rested') _
  exact hwaited.join

/-! ## Requests -/

theorem Twin.submitAt (h : Twin e e') (readyAt : Instant) (s : Submission α) :
    Twin (e.submitAt readyAt s).1 (e'.submitAt readyAt s).1 :=
  h.request { e with pool := (e.pool.submitAt readyAt s).1 }
    { e' with pool := (e'.pool.submitAt readyAt s).1 }
    (Pool.Act.submitAt e.pool readyAt s).acts (Pool.Act.submitAt e'.pool readyAt s).acts rfl
    { h.toAlike with pool := (h.pool.submitAt h.kept readyAt s).2 }

/-- What is done to both pools alike. -/
theorem Twin.tell (h : Twin e e') (change : Pool α → Pool α)
    (hact : Pool.Act e.pool (change e.pool)) (hact' : Pool.Act e'.pool (change e'.pool))
    (halike : (change e.pool).Alike (change e'.pool)) : Twin (e.tell change) (e'.tell change) :=
  h.request (e.mapPool change) (e'.mapPool change) hact.acts hact'.acts rfl
    { h.toAlike with pool := halike }

theorem Twin.close (h : Twin e e') (graceful : Bool) :
    Twin (e.tell (·.close graceful)) (e'.tell (·.close graceful)) :=
  h.tell (·.close graceful) (.close e.pool graceful) (.close e'.pool graceful)
    (h.pool.close h.rested h.rested' graceful)

theorem Twin.abandonPool (h : Twin e e') : Twin e.abandonPool e'.abandonPool :=
  h.tell .abandon (.abandon e.pool) (.abandon e'.pool) (h.pool.abandon h.rested h.rested')

theorem Twin.shutdownPool (h : Twin e e') (graceful : Bool) :
    Twin (e.shutdownPool graceful) (e'.shutdownPool graceful) :=
  (h.close graceful).joinWorkers

theorem Twin.stopCoordinator (h : Twin e e') : Twin e.stopCoordinator e'.stopCoordinator := by
  refine h.arrange { h.toAlike with recurring_eq := ?_, coordinator_eq := rfl } rfl rfl rfl ?_
  · exact congrArg Recurring.clear h.recurring_eq
  · intro c hc
    contradiction

/-- A change of the recurring tasks only. -/
theorem Twin.withRecurring (h : Twin e e') (recurring : Recurring α) :
    Twin { e with recurring := recurring } { e' with recurring := recurring } :=
  h.arrange { h.toAlike with recurring_eq := rfl } rfl rfl rfl fun _ => id

theorem Twin.scheduleRecurring (h : Twin e e') (interval : Duration) (s : Submission α) :
    Twin (e.scheduleRecurring interval s).1 (e'.scheduleRecurring interval s).1 := by
  unfold Engine.scheduleRecurring
  rw [h.pool.accepting_eq]
  split
  · rw [h.clock_eq, h.recurring_eq]
    exact h.withRecurring _
  · exact h

/-- Every request but an exchange of the strategy moves both engines on alike. -/
theorem Twin.serve (h : Twin e e') (request : Request α) (hkeeps : request.isSwitch = false) :
    Twin (e.serve request) (e'.serve request) := by
  cases request with
  | submit s =>
      have hsubmitted := h.submitAt e.clock s
      rwa [← congrArg (fun now => (e'.submitAt now s).1) h.clock_eq] at hsubmitted
  | submitAt readyAt s => exact h.submitAt readyAt s
  | schedule delay s =>
      have hsubmitted := h.submitAt (e.clock.after delay) s
      rwa [← congrArg (fun now => (e'.submitAt (Instant.after now delay) s).1) h.clock_eq]
        at hsubmitted
  | scheduleRecurring interval s => exact h.scheduleRecurring interval s
  | register interval s =>
      unfold Engine.serve
      rw [h.clock_eq, h.recurring_eq]
      exact h.withRecurring _
  | cancelRecurring id =>
      have hcancelled := h.withRecurring (e.recurring.cancel id).1
      rwa [← congrArg (fun r => ({ e' with recurring := (Recurring.cancel r id).1 } : Engine α))
        h.recurring_eq] at hcancelled
  | clearRecurring =>
      have hcleared := h.withRecurring e.recurring.clear
      rwa [← congrArg (fun r => ({ e' with recurring := Recurring.clear r } : Engine α))
        h.recurring_eq] at hcleared
  | sweep now =>
      exact h.request (e.submitDue now).1 (e'.submitDue now).1
        (acts_submitAll e.pool _) (acts_submitAll e'.pool _) rfl (h.submitDue h.kept now)
  | freshToken =>
      exact h.tell (fun p => { p with tokens := p.tokens.fresh.1 }) (.freshToken e.pool)
        (.freshToken e'.pool) h.pool.freshToken
  | cancel t => exact h.tell _ (.cancel e.pool t) (.cancel e'.pool t) (h.pool.cancel t)
  | switch kind => contradiction
  | tellBreaker change =>
      exact h.tell (fun p => p.withBreaker (change p.breaker)) (.tellBreaker e.pool change)
        (.tellBreaker e'.pool change) (h.pool.tellBreaker change)
  | registerCheck name probe => exact h.arrange { h.toAlike with } rfl rfl rfl fun _ => id
  | unregisterCheck name => exact h.arrange { h.toAlike with } rfl rfl rfl fun _ => id
  | report => exact h.arrange { h.toAlike with } rfl rfl rfl fun _ => id
  | advance d => exact h.advance d
  | waitIdle timeout => exact h.waitIdle timeout
  | await handle timeout => exact h.await handle timeout
  | get handle timeout => exact h.await handle timeout
  | shutdownPool graceful => exact h.shutdownPool graceful
  | shutdown graceful => exact h.stopCoordinator.shutdownPool graceful
  | abandonPool => exact h.abandonPool
  | abandon => exact h.stopCoordinator.abandonPool

/-- An exchange of the strategy of one of them leaves both at rest alike. The coordinator of the other
one has nothing to do meanwhile, and so has its own. -/
theorem Twin.switch_right (h : Twin e e') (kind : StrategyKind) :
    Twin e (e'.serve (.switch kind)) := by
  have hact := Pool.Act.switch e'.pool kind
  have hmove : Move e' (Engine.settle { e' with pool := (e'.pool.switch kind).1 }) :=
    .request hact.acts
  have hpool : e.pool.Alike (e'.pool.switch kind).1.settle :=
    (h.pool.refl_left.settle_right h.rested.stillAt).trans
      (h.pool.settle_switch_right kind h.rested.orderly h.rested'.orderly)
  -- nothing but the pool changes: the coordinator still sleeps
  have hserve : Engine.settle { e' with pool := (e'.pool.switch kind).1 } =
      { e' with pool := (e'.pool.switch kind).1.settle } := by
    unfold Engine.settle
    simp only
    split
    · rfl
    · rename_i c hcoordinator
      have hasleep : ¬ c.wakeAt ≤ (e'.pool.switch kind).1.settle.clock := by
        rw [hpool.clock_eq, Int.not_le]
        exact h.awake c (h.coordinator_eq ▸ hcoordinator)
      exact if_neg hasleep
  have hkept := (hmove.leadsTo h.rested'.orderly.sound).kept h.kept'
  have hrested := hmove.rested h.rested'
  show Twin e (Engine.settle { e' with pool := (e'.pool.switch kind).1 })
  rw [hserve] at hkept hrested ⊢
  exact { h with pool := hpool, kept' := hkept, rested' := hrested }

/-! ## Runs -/

theorem Twin.run (h : Twin e e') {requests requests' : List (Request α)}
    (hsame : requests.filter (!·.isSwitch) = requests'.filter (!·.isSwitch)) :
    Twin (e.run requests) (e'.run requests') := by
  refine filter_eq_induction (motive := fun requests requests' => ∀ e e' : Engine α, Twin e e' →
    Twin (e.run requests) (e'.run requests')) ?nil ?left ?right ?both hsame e e' h
  case nil => exact fun _ _ h => h
  case left =>
      intro request rest rest' hswitch ih e e' h
      obtain ⟨kind, rfl⟩ := Request.eq_switch (by simpa using hswitch)
      exact ih _ _ (h.symm.switch_right kind).symm
  case right =>
      intro request rest rest' hswitch ih e e' h
      obtain ⟨kind, rfl⟩ := Request.eq_switch (by simpa using hswitch)
      exact ih _ _ (h.switch_right kind)
  case both =>
      intro request rest rest' hkeeps ih e e' h
      exact ih _ _ (h.serve request (by simpa using hkeeps))

/-! ## Starts -/

/-- Pools of one worker begin alike, whatever their strategies are. -/
theorem alike_ofWorkers (config : EngineConfig) (kind : StrategyKind) (stealing : Bool)
    (now : Instant) (log : LogBook) :
    (Pool.ofWorkers config 1 1 now log : Pool α).Alike
      (Pool.ofWorkers (config.withStrategy kind stealing) 1 1 now log) where
  clock_eq := rfl
  breaker_eq := rfl
  metrics_eq := rfl
  tokens_eq := rfl
  tracker_eq := rfl
  active_eq := rfl
  accepting_eq := rfl
  joined_eq := rfl
  nextId_eq := rfl
  answers_eq := rfl
  delivered_perm := List.Perm.refl _
  takes_eq := rfl
  queue := TaskQueue.alike_ofKind _ _ _ _ _
  workers := ⟨.seeking, .seeking, rfl, rfl, .inl rfl⟩

theorem ticks_of_validate {config : EngineConfig} (h : config.validate = .ok ()) : Ticks config := by
  unfold EngineConfig.validate at h
  split_ifs at h with _ _ _ _ htick
  refine ⟨Nat.pos_of_ne_zero htick, Nat.pos_of_ne_zero fun hzero => ?_⟩
  have hadaptive : config.adaptive.validate = .error .samplingInterval := if_pos hzero
  rw [hadaptive] at h
  split at h <;> contradiction

/-- Every started pool or engine is one whose settings are valid. -/
theorem ticks_of_start {config : EngineConfig} {around : Surroundings} {now : Instant}
    {log : LogBook} {p : Pool α} (h : Pool.start config around now log = .ok p) : Ticks config := by
  unfold Pool.start at h
  split at h
  · contradiction
  · exact ticks_of_validate ‹_›

theorem eq_ofPool_of_startPool {config : EngineConfig} {around : Surroundings} {now : Instant}
    {log : LogBook} (h : startPool config around now log = .ok e) :
    e = ofPool config e.pool none := by
  unfold startPool at h
  split at h
  · contradiction
  · cases h
    rfl

theorem eq_ofPool_of_start {config : EngineConfig} {around : Surroundings} {now : Instant}
    {log : LogBook} (h : start config around now log = .ok e) :
    e = ofPool config e.pool (some (Coordinator.start config now)) := by
  unfold start at h
  split at h
  · contradiction
  · split at h
    · cases h
      rfl
    · contradiction

theorem coordinator_of_start {config : EngineConfig} {around : Surroundings} {now : Instant}
    {log : LogBook} (h : start config around now log = .ok e) :
    e.coordinator = some (Coordinator.start config now) := by
  rw [eq_ofPool_of_start h]
  rfl

/-- Started pools of one worker have come to rest alike. -/
theorem twin_ofPool {config : EngineConfig} {kind : StrategyKind} {stealing : Bool}
    {around : Surroundings} {now : Instant} {log : LogBook} {p p' : Pool α}
    (h : Pool.start config around now log = .ok p)
    (h' : Pool.start (config.withStrategy kind stealing) around now log = .ok p')
    (hone : config.resolvedWorkerCount around.processors = 1) {c : Option Coordinator}
    (hawake : ∀ c' ∈ c, now < c'.wakeAt) :
    Twin (ofPool config p c) (ofPool (config.withStrategy kind stealing) p' c) := by
  have hsettled := Pool.eq_settle_of_start h
  have hsettled' := Pool.eq_settle_of_start h'
  rw [show (config.withStrategy kind stealing).resolvedWorkerCount around.processors = 1 from hone]
    at hsettled'
  rw [hone] at hsettled
  have hclock := Pool.clock_of_start h
  have halike : p.Alike p' := by
    rw [hsettled, hsettled']
    exact (alike_ofWorkers config kind stealing now log).settle
      (Pool.orderly_ofWorkers _ _ _ _ _) (Pool.orderly_ofWorkers _ _ _ _ _)
  exact
    { adaptive_eq := rfl
      schedulerTickMs_eq := rfl
      pool := halike
      recurring_eq := rfl
      coordinator_eq := rfl
      kept := Pool.kept_of_start h
      kept' := Pool.kept_of_start h'
      rested := Pool.rested_of_start h
      rested' := Pool.rested_of_start h'
      ticks := ticks_of_start h
      awake := fun c' hc' => hclock.trans_lt (hawake c' hc') }

theorem twin_of_start {config : EngineConfig} {kind : StrategyKind} {stealing : Bool}
    {around : Surroundings} {now : Instant} {log : LogBook}
    (h : startPool config around now log = .ok e ∧
        startPool (config.withStrategy kind stealing) around now log = .ok e' ∨
      start config around now log = .ok e ∧
        start (config.withStrategy kind stealing) around now log = .ok e')
    (hone : config.resolvedWorkerCount around.processors = 1) : Twin e e' := by
  rcases h with ⟨h, h'⟩ | ⟨h, h'⟩
  · rw [eq_ofPool_of_startPool h, eq_ofPool_of_startPool h']
    exact twin_ofPool (start_pool (.inl h)) (start_pool (.inl h')) hone fun _ hc => by contradiction
  · have hticks := ticks_of_start (start_pool (.inr h))
    rw [eq_ofPool_of_start h, eq_ofPool_of_start h']
    refine twin_ofPool (c := some (Coordinator.start config now)) (start_pool (.inr h))
      (start_pool (.inr h')) hone fun c hc => ?_
    obtain rfl := Option.some.inj hc
    exact hticks.lt_nextWake_after now

/-- With one shard the strategy of a queue shows in no answer, in no instant at which a wait ends, and
in nothing else that callers see but the strategy itself. So in a pool of one worker tasks fare the same
whatever the strategy is and whenever it is exchanged, be it by requests or by a coordinator. -/
theorem strategy_unobservable {β : Type} :
    (∀ (kind kind' : StrategyKind) (capacity : Nat) (stealing stealing' : Bool) (now : Instant)
      (requests requests' : List (QueueRequest β)),
      requests.filter (!·.isSwitch) = requests'.filter (!·.isSwitch) → .interrupt ∉ requests →
      ((requests.filterMap QueueRequest.offered?).map Task.id).Nodup →
      (Custody.start kind capacity 1 stealing now).observe requests =
        (Custody.start kind' capacity 1 stealing' now).observe requests') ∧
    ∀ (config : EngineConfig) (kind : StrategyKind) (stealing : Bool) (around : Surroundings)
      (now : Instant) (log : LogBook) (e e' : Engine α),
      (startPool config around now log = .ok e ∧
          startPool (config.withStrategy kind stealing) around now log = .ok e' ∨
        start config around now log = .ok e ∧
          start (config.withStrategy kind stealing) around now log = .ok e') →
      config.resolvedWorkerCount around.processors = 1 →
      ∀ requests requests' : List (Request α),
        requests.filter (!·.isSwitch) = requests'.filter (!·.isSwitch) →
        (e.run requests).pool.SameFate (e'.run requests').pool := by
  constructor
  · intro kind kind' capacity stealing stealing' now requests requests' hsame hcalls hdistinct
    exact Custody.observe_eq kind kind' capacity stealing stealing' now hsame hcalls hdistinct
  · intro config kind stealing around now log e e' h hone requests requests' hsame
    have htwin := (twin_of_start h hone).run hsame
    exact htwin.pool.sameFate htwin.kept htwin.kept'

/-- The pool of one worker that begins with the other strategy. -/
def lockedPool : Pool Nat :=
  (Pool.ofWorkers (soloConfig.withStrategy .locked false) 1 1 0 ⟨0, []⟩).settle

theorem start_lockedPool :
    Pool.start (soloConfig.withStrategy .locked false) {} 0 ⟨0, []⟩ = .ok lockedPool := by
  have hvalid : (soloConfig.withStrategy .locked false).validate = .ok () := rfl
  unfold Pool.start
  rw [hvalid]
  rfl

theorem soloPool_unobservable :
    (Custody.start .sharded 2 1 true 0).observe Custody.mixedRequests =
        (Custody.start .locked 2 1 false 0).observe
          (Custody.mixedRequests.filter (!·.isSwitch)) ∧
      startPool soloConfig {} 0 ⟨0, []⟩ = .ok (ofPool soloConfig soloPool none) ∧
      startPool (soloConfig.withStrategy .locked false) {} 0 ⟨0, []⟩ =
        .ok (ofPool (soloConfig.withStrategy .locked false) lockedPool none) ∧
      soloConfig.resolvedWorkerCount 1 = 1 ∧
      ∀ kind, ((ofPool soloConfig soloPool none).run
          [.submitAt 5 lateSubmission, .switch kind, .advance 10]).pool.SameFate
        ((ofPool (soloConfig.withStrategy .locked false) lockedPool none).run
          [.submitAt 5 lateSubmission, .advance 10]).pool := by
  have hstart : startPool soloConfig {} 0 ⟨0, []⟩ = .ok (ofPool soloConfig soloPool none) :=
    startPool_of_start start_soloPool
  have hlocked : startPool (soloConfig.withStrategy .locked false) {} 0 ⟨0, []⟩ =
      .ok (ofPool (soloConfig.withStrategy .locked false) lockedPool none) :=
    startPool_of_start start_lockedPool
  have hobserve := strategy_unobservable (α := Nat).1 .sharded .locked 2 true false 0
    Custody.mixedRequests (Custody.mixedRequests.filter (!·.isSwitch)) rfl
    (by simp [Custody.mixedRequests]) (by decide)
  have hfate := strategy_unobservable (β := Unit).2 soloConfig .locked false {} 0 ⟨0, []⟩ _ _
    (.inl ⟨hstart, hlocked⟩) rfl
  exact ⟨hobserve, hstart, hlocked, rfl, fun kind => hfate _ _ rfl⟩

end Engine

end Dispatch
