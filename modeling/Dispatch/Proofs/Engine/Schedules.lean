import Dispatch.Proofs.Engine.Recurring
import Dispatch.Proofs.Engine.Shutdown
import Dispatch.Proofs.Selector.Spacing
import Mathlib.Data.List.Chain
/-!
# The schedules of the coordinator

The coordinator sleeps until a tick after its last sweep or until its next sample, whichever comes first,
and a sample is due one interval after the one before. As the clock stops at each wake-up, a sample is
taken exactly when it is due: however the ticks lie, the samples form a grid that begins with the engine.
What the coordinator has done is kept in its record, and the selector confirms the samples in it. Once the
coordinator is stopped, nothing is added.
-/

namespace Dispatch

variable {α : Type}

theorem Instant.le_add_of_le_after {t now : Instant} {d : Duration} (h : t ≤ now.after d)
    (hlatest : t ≤ latest) : t ≤ now + d := by
  unfold after add? at h
  split at h
  · exact h
  · rename_i hbeyond
    exact Int.le_trans hlatest (Int.le_of_lt (Int.not_le.1 hbeyond))

/-! ## Grids of instants -/

section Grid

variable {R : Instant → Instant → Prop} {instants : List Instant} {started t : Instant}
  {interval : Duration}

/-- One more instant in front of a chain that goes back to a start. -/
theorem isChain_cons_append : (t :: instants ++ [started]).IsChain R ↔
    R t (instants.headD started) ∧ (instants ++ [started]).IsChain R := by
  cases instants <;> simp

/-- Instants that follow each other by an interval, the latest first, are those of a grid. -/
theorem isGrid_of_isChain
    (hchain : (instants ++ [started]).IsChain fun later earlier => later = earlier.after interval)
    (hheld : ∀ earlier ∈ instants ++ [started], earlier + interval ≤ Instant.latest) :
    instants.headD started = started + instants.length * interval ∧
      instants.reverse = (List.range instants.length).map fun k => started + (k + 1 : Nat) * interval := by
  induction instants with
  | nil => simp
  | cons t earlier ih =>
      obtain ⟨hnext, hrest⟩ := isChain_cons_append.1 hchain
      obtain ⟨hhead, hgrid⟩ := ih hrest fun s hs => hheld s (List.mem_cons_of_mem _ hs)
      have hlast : earlier.headD started ∈ earlier ++ [started] := by cases earlier <;> simp
      rw [Instant.after_eq (hheld _ (List.mem_cons_of_mem _ hlast)), hhead] at hnext
      have ht : t = started + (earlier.length + 1 : Nat) * interval := by
        rw [hnext]
        push_cast
        ring
      constructor
      · exact ht
      · rw [List.reverse_cons, hgrid, List.length_cons, List.range_succ, List.map_append, ht]
        rfl

end Grid

/-! ## Samples of a selector -/

namespace Selector

variable {config : AdaptiveConfig} {started : Instant} {instants : List Instant} {sel : Selector}

/-- Whether a selector has taken a sample at each of some instants, the latest of which comes first, and
none besides since it was started. Of the older samples only the newest are still there. -/
structure SampledAt (config : AdaptiveConfig) (started : Instant) (instants : List Instant)
    (sel : Selector) : Prop where
  config_eq : sel.config = config
  windowStarted_eq : sel.windowStarted = instants.headD started
  timestamps_eq : sel.history.map (·.timestampMs) =
    (instants.reverse.map Instant.wallMillis).rtake (max config.historyLen 1)

theorem SampledAt.sampleQueue {β : Type} (h : sel.SampledAt config started instants) (q : TaskQueue β)
    (now : Instant) : (sel.sampleQueue q now).1.SampledAt config started (now :: instants) := by
  obtain ⟨ended, hended⟩ : ∃ ended, ended = sel.endWindow q.contention.window q.kind now := ⟨_, rfl⟩
  have hconfig : ended.1.config = config := by
    rw [hended]
    exact h.config_eq
  have hsel : (sel.sampleQueue q now).1 = (ended.1.evaluate q.kind ended.2).1 := by rw [hended]; rfl
  rw [hsel]
  constructor
  · rw [config_evaluate, hconfig]
  · rw [windowStarted_evaluate, hended]
    rfl
  · have hhistory : ended.1.history = sel.history := by rw [hended]; rfl
    have htimestamp : ended.2.timestampMs = now.wallMillis := by rw [hended]; rfl
    rw [history_evaluate, map_rtake, hconfig, hhistory, List.map_append, h.timestamps_eq]
    simp [rtake_concat_rtake, htimestamp]

end Selector

/-- Whether a request stops the coordinator. -/
def Request.stops : Request α → Bool
  | .shutdown _ | .abandon => true
  | _ => false

namespace Engine

variable {e e' : Engine α} {config : EngineConfig} {started : Instant} {watched : Option Identifier}

/-! ## One wake-up -/

/-- What a coordinator that wakes up adds to its record, and when it wakes up next. -/
theorem record_coordinate (hs : e.pool.queue.Sound e.clock) (c : Coordinator) :
    (e.config.adaptive.enabled && c.nextSample ≤ e.clock) = false ∧
        (e.coordinate c).selector = e.selector ∧
        (e.coordinate c).record = e.record.addSweep e.clock ∧
        (e.coordinate c).coordinator =
          some ⟨Coordinator.nextWake e.config e.clock c.nextSample, c.nextSample⟩ ∨
      (e.config.adaptive.enabled && c.nextSample ≤ e.clock) = true ∧
        (∃ q : TaskQueue (Job α), (e.coordinate c).selector = (e.selector.sampleQueue q e.clock).1) ∧
        (e.coordinate c).record = (e.record.addSweep e.clock).addSample e.clock ∧
        (e.coordinate c).coordinator =
          some ⟨Coordinator.nextWake e.config e.clock
            (e.clock.after e.config.adaptive.samplingInterval),
            e.clock.after e.config.adaptive.samplingInterval⟩ := by
  have hacts : e.pool.Acts (e.submitDue e.clock).1.pool := acts_submitAll e.pool _
  have hclock : (e.submitDue e.clock).1.clock = e.clock := hacts.clock_eq hs
  have hdue := ((hacts.reaches hs).grows hs).sound
  have hcases := coordinate_cases e c
  rw [hclock] at hcases
  rcases hcases with ⟨hsample, heq⟩ | ⟨hsample, pool, hadjusts, heq⟩
  · refine .inl ⟨hsample, ?_⟩
    rw [heq]
    exact ⟨rfl, rfl, rfl⟩
  · have hpool : pool.clock = e.clock := (hadjusts.unasked hdue).clock_eq.trans hclock
    refine .inr ⟨hsample, ?_⟩
    rw [heq, hpool]
    exact ⟨⟨_, rfl⟩, rfl, rfl⟩

/-- Whether the coordinator of an engine that was started at an instant has done everything in time, and
wakes up for what it has to do next. -/
structure OnSchedule (config : EngineConfig) (started : Instant) (e : Engine α) : Prop where
  config_eq : e.config = config
  sound : e.pool.queue.Sound e.clock
  sweeps : (e.record.sweptAt ++ [started]).IsChain fun later earlier =>
    earlier < later ∧ later ≤ earlier.after config.schedulerTick
  samples : (e.record.sampledAt ++ [started]).IsChain fun later earlier =>
    later = earlier.after config.adaptive.samplingInterval
  sweptAt_le : ∀ t ∈ e.record.sweptAt ++ [started], t ≤ e.clock
  sampledAt_le : ∀ t ∈ e.record.sampledAt ++ [started], t ≤ e.clock
  unsampled : config.adaptive.enabled = false → e.record.sampledAt = []
  selector : e.selector.SampledAt config.adaptive started e.record.sampledAt
  /-- The coordinator does not sleep through a tick or a sample. -/
  wakes : ∀ c ∈ e.coordinator, e.clock ≤ c.wakeAt ∧
    e.record.sweptAt.headD started < c.wakeAt ∧
    c.wakeAt ≤ (e.record.sweptAt.headD started).after config.schedulerTick ∧
    (config.adaptive.enabled = true → c.wakeAt ≤ c.nextSample ∧
      c.nextSample = (e.record.sampledAt.headD started).after config.adaptive.samplingInterval)

/-- Whether the coordinator of an engine sleeps beyond the present instant. -/
def Awaits (e : Engine α) : Prop := ∀ c ∈ e.coordinator, e.clock < c.wakeAt

theorem Awaits.of_eq (h : e.Awaits) (hclock : e'.clock = e.clock)
    (hcoordinator : ∀ c ∈ e'.coordinator, c ∈ e.coordinator) : e'.Awaits := by
  intro c hc
  rw [hclock]
  exact h c (hcoordinator c hc)

theorem nextWake_le_nextSample {config : EngineConfig} (h : config.adaptive.enabled = true)
    (now nextSample : Instant) : Coordinator.nextWake config now nextSample ≤ nextSample := by
  unfold Coordinator.nextWake
  rw [if_pos h]
  exact Int.min_le_right _ _

/-- What leaves the coordinator alone and takes no time leaves it on its schedules. -/
theorem OnSchedule.of_eq (h : e.OnSchedule config started) (hconfig : e'.config = e.config)
    (hsound : e'.pool.queue.Sound e'.clock) (hclock : e'.clock = e.clock)
    (hselector : e'.selector = e.selector) (hrecord : e'.record = e.record)
    (hcoordinator : ∀ c ∈ e'.coordinator, c ∈ e.coordinator) : e'.OnSchedule config started := by
  constructor
  · exact hconfig.trans h.config_eq
  · exact hsound
  · exact hrecord ▸ h.sweeps
  · exact hrecord ▸ h.samples
  · rw [hrecord, hclock]
    exact h.sweptAt_le
  · rw [hrecord, hclock]
    exact h.sampledAt_le
  · exact hrecord ▸ h.unsampled
  · rw [hselector, hrecord]
    exact h.selector
  · intro c hc
    rw [hrecord, hclock]
    exact h.wakes c (hcoordinator c hc)

/-- At a wake-up the coordinator sweeps, and samples just if a sample is due at this very instant. -/
theorem OnSchedule.coordinate (h : e.OnSchedule config started) (hticks : Ticks config) {c : Coordinator}
    (hc : e.coordinator = some c) (hdue : c.wakeAt ≤ e.clock)
    (hsound : (e.coordinate c).pool.queue.Sound (e.coordinate c).clock)
    (hclock : (e.coordinate c).clock = e.clock) : (e.coordinate c).OnSchedule config started := by
  obtain ⟨hle, hlater, htick, hnext⟩ := h.wakes c hc
  rw [Int.le_antisymm hdue hle] at hlater htick hnext
  have hsweeps : (e.clock :: e.record.sweptAt ++ [started]).IsChain fun later earlier =>
      earlier < later ∧ later ≤ earlier.after config.schedulerTick :=
    isChain_cons_append.2 ⟨⟨hlater, htick⟩, h.sweeps⟩
  have hsweptAt : ∀ t ∈ e.clock :: e.record.sweptAt ++ [started], t ≤ e.clock :=
    List.forall_mem_cons.2 ⟨Int.le_refl _, h.sweptAt_le⟩
  -- the coordinator sleeps from now on, up to a tick or to the next sample
  have hwakes {nextSample last : Instant}
      (hcoordinator : (e.coordinate c).coordinator =
        some ⟨Coordinator.nextWake e.config e.clock nextSample, nextSample⟩)
      (hsample : config.adaptive.enabled = true →
        nextSample = last.after config.adaptive.samplingInterval) :
      ∀ c' ∈ (e.coordinate c).coordinator, e.clock ≤ c'.wakeAt ∧ e.clock < c'.wakeAt ∧
        c'.wakeAt ≤ e.clock.after config.schedulerTick ∧
        (config.adaptive.enabled = true → c'.wakeAt ≤ c'.nextSample ∧
          c'.nextSample = last.after config.adaptive.samplingInterval) := by
    intro c' hc'
    have hawake := Ticks.awake_coordinate (h.config_eq.symm ▸ hticks) c c' hc'
    rw [hclock] at hawake
    obtain rfl := Option.some.inj (hcoordinator.symm.trans hc')
    rw [h.config_eq] at hawake ⊢
    exact ⟨Int.le_of_lt hawake, hawake, nextWake_le _ _ _,
      fun henabled => ⟨nextWake_le_nextSample henabled _ _, hsample henabled⟩⟩
  rcases record_coordinate h.sound c with
    ⟨-, hselector, hrecord, hcoordinator⟩ | ⟨hsample, ⟨q, hselector⟩, hrecord, hcoordinator⟩
  · constructor
    · exact (config_coordinate e c).trans h.config_eq
    · exact hsound
    · exact hrecord ▸ hsweeps
    · exact hrecord ▸ h.samples
    · rw [hrecord, hclock]
      exact hsweptAt
    · rw [hrecord, hclock]
      exact h.sampledAt_le
    · exact hrecord ▸ h.unsampled
    · rw [hselector, hrecord]
      exact h.selector
    · rw [hrecord, hclock]
      exact hwakes hcoordinator fun henabled => (hnext henabled).2
  · rw [Bool.and_eq_true, decide_eq_true_eq, h.config_eq] at hsample
    obtain ⟨henabled, hreached⟩ := hsample
    obtain ⟨hbefore, heq⟩ := hnext henabled
    have hnow : e.clock = (e.record.sampledAt.headD started).after config.adaptive.samplingInterval :=
      (Int.le_antisymm hbefore hreached).trans heq
    constructor
    · exact (config_coordinate e c).trans h.config_eq
    · exact hsound
    · exact hrecord ▸ hsweeps
    · rw [hrecord]
      exact isChain_cons_append.2 ⟨hnow, h.samples⟩
    · rw [hrecord, hclock]
      exact hsweptAt
    · rw [hrecord, hclock]
      exact List.forall_mem_cons.2 ⟨Int.le_refl _, h.sampledAt_le⟩
    · intro hdisabled
      simp [henabled] at hdisabled
    · rw [hselector, hrecord]
      exact h.selector.sampleQueue q e.clock
    · rw [hrecord, hclock]
      exact hwakes hcoordinator fun _ => h.config_eq ▸ rfl

theorem OnSchedule.settle (h : e.OnSchedule config started) (hticks : Ticks config) :
    e.settle.OnSchedule config started ∧ e.settle.Awaits := by
  have hsound := ((leadsTo_settle e h.sound).grows h.sound).sound
  refine ⟨?_, Ticks.awake_settle (h.config_eq.symm ▸ hticks) h.sound⟩
  have hsettled : (e.mapPool .settle).OnSchedule config started :=
    h.of_eq rfl (Pool.unasked_settle h.sound).sound (Pool.clock_settle h.sound) rfl rfl fun _ hc => hc
  by_cases hasleep : ∀ c ∈ e.coordinator, e.clock < c.wakeAt
  · rw [settle_of_asleep h.sound hasleep]
    exact hsettled
  · push Not at hasleep
    obtain ⟨c, hc, hdue⟩ := hasleep
    rw [settle_of_awake h.sound hc hdue] at hsound ⊢
    have hacts := acts_coordinate (e.mapPool .settle) c
    have hcoordinated := ((hacts.reaches hsettled.sound).grows hsettled.sound).sound
    have hclock := hacts.clock_eq hsettled.sound
    have hdue' : c.wakeAt ≤ (e.mapPool .settle).clock := hdue.trans_eq (Pool.clock_settle h.sound).symm
    exact (hsettled.coordinate hticks hc hdue' hcoordinated hclock).of_eq rfl hsound
      (Pool.clock_settle hcoordinated) rfl rfl fun _ hc => hc

/-! ## Runs -/

theorem OnSchedule.jump (h : e.OnSchedule config started) (hticks : Ticks config) {t : Instant}
    (hwake : ∀ wake ∈ e.nextWake, t ≤ wake) :
    (e.jump t).OnSchedule config started ∧ (e.jump t).Awaits := by
  have hle : e.clock ≤ max e.clock t := Int.le_max_left _ _
  refine OnSchedule.settle ?_ hticks
  exact
    { h with
      sound := h.sound.mono hle
      sweptAt_le := fun s hs => Int.le_trans (h.sweptAt_le s hs) hle
      sampledAt_le := fun s hs => Int.le_trans (h.sampledAt_le s hs) hle
      wakes := fun c hc => by
        obtain ⟨hclock, hrest⟩ := h.wakes c hc
        obtain ⟨wake, hnext, hbefore⟩ := exists_nextWake_le hc
        exact ⟨Int.max_le.2 ⟨hclock, Int.le_trans (hwake wake hnext) hbefore⟩, hrest⟩ }

theorem Pace.onSchedule (hpace : Pace watched e e') (hticks : Ticks config)
    (h : e.OnSchedule config started ∧ e.Awaits) : e'.OnSchedule config started ∧ e'.Awaits := by
  obtain ⟨hschedule, hawaits⟩ := h
  cases hpace with
  | @request done hacts hleaves =>
      have hsound := ((hacts.reaches hschedule.sound).grows hschedule.sound).sound
      have hdone := hschedule.of_eq hleaves.config_eq hsound (hacts.clock_eq hschedule.sound)
        hleaves.selector_eq hleaves.record_eq fun c hc => (hleaves.coordinator c hc).1
      exact hdone.settle hticks
  | arrange hpool hleaves =>
      have hclock : e'.clock = e.clock := congrArg Pool.clock hpool
      have hsound : e'.pool.queue.Sound e'.clock := by
        rw [clock, hpool]
        exact hschedule.sound
      have hcoordinator : ∀ c ∈ e'.coordinator, c ∈ e.coordinator := fun c hc =>
        (hleaves.coordinator c hc).1
      exact ⟨hschedule.of_eq hleaves.config_eq hsound hclock hleaves.selector_eq hleaves.record_eq
        hcoordinator, hawaits.of_eq hclock hcoordinator⟩
  | jump t hwake => exact hschedule.jump hticks hwake
  | join =>
      have hclock : (e.mapPool .join).clock = e.clock := Pool.clock_join e.pool
      have hsound := ((Pool.reaches_join e.pool).grows hschedule.sound).sound
      exact ⟨hschedule.of_eq rfl hsound hclock rfl rfl fun _ hc => hc,
        hawaits.of_eq hclock fun _ hc => hc⟩

theorem Paces.onSchedule (h : Paces watched e e') (hticks : Ticks config)
    (hschedule : e.OnSchedule config started ∧ e.Awaits) :
    e'.OnSchedule config started ∧ e'.Awaits := by
  induction h with
  | refl => exact hschedule
  | tail _ hlast ih => exact hlast.onSchedule hticks ih

theorem onSchedule_of_start {around : Surroundings} {now : Instant} {log : LogBook}
    (h : start config around now log = .ok e) : e.OnSchedule config now ∧ e.Awaits := by
  have hpool := start_pool (.inr h)
  have hticks := ticks_of_start hpool
  have hclock : e.clock = now := Pool.clock_of_start hpool
  have he := eq_ofPool_of_start h
  have hcoordinator := coordinator_of_start h
  have hrecord : e.record = {} := by
    rw [he]
    rfl
  have hselector : e.selector = { config := config.adaptive, windowStarted := now } := by
    rw [he, ← hclock]
    rfl
  have hawake : now < (Coordinator.start config now).wakeAt := hticks.lt_nextWake_after now
  constructor
  · constructor
    · rw [he]
      rfl
    · exact (Pool.kept_of_start hpool).balanced.sound
    · simp [hrecord]
    · simp [hrecord]
    · simp [hrecord, hclock]
    · simp [hrecord, hclock]
    · simp [hrecord]
    · rw [hrecord, hselector]
      exact ⟨rfl, rfl, by simp⟩
    · intro c hc
      obtain rfl := Option.some.inj (hcoordinator.symm.trans hc)
      rw [hrecord, hclock]
      exact ⟨Int.le_of_lt hawake, hawake, nextWake_le _ _ _,
        fun henabled => ⟨nextWake_le_nextSample henabled _ _, rfl⟩⟩
  · intro c hc
    obtain rfl := Option.some.inj (hcoordinator.symm.trans hc)
    exact hclock ▸ hawake

/-! ## Stopping -/

/-- Without a coordinator nothing is swept or sampled any more. -/
structure Unscheduled (e e' : Engine α) : Prop where
  coordinator_eq : e'.coordinator = none
  record_eq : e'.record = e.record
  selector_eq : e'.selector = e.selector

theorem Unscheduled.trans {e'' : Engine α} (h : Unscheduled e e') (h' : Unscheduled e' e'') :
    Unscheduled e e'' :=
  ⟨h'.coordinator_eq, h'.record_eq.trans h.record_eq, h'.selector_eq.trans h.selector_eq⟩

theorem Leaves.unscheduled (h : Leaves watched e e') (hnone : e.coordinator = none) :
    Unscheduled e e' := by
  refine ⟨Option.eq_none_iff_forall_not_mem.2 fun c hc => ?_, h.record_eq, h.selector_eq⟩
  have hbefore := (h.coordinator c hc).1
  simp [hnone] at hbefore

theorem unscheduled_settle (hnone : e.coordinator = none) : Unscheduled e e.settle := by
  rw [settle_of_coordinator_eq_none hnone]
  exact ⟨hnone, rfl, rfl⟩

theorem Pace.unscheduled (h : Pace watched e e') (hnone : e.coordinator = none) :
    Unscheduled e e' := by
  cases h with
  | request hacts hleaves =>
      have hdone := hleaves.unscheduled hnone
      exact hdone.trans (unscheduled_settle hdone.coordinator_eq)
  | arrange hpool hleaves => exact hleaves.unscheduled hnone
  | jump t hwake =>
      have hjumped : (e.mapPool fun p => { p with clock := max p.clock t }).coordinator = none := hnone
      have hsettled := unscheduled_settle hjumped
      exact ⟨hsettled.coordinator_eq, hsettled.record_eq, hsettled.selector_eq⟩
  | join => exact ⟨hnone, rfl, rfl⟩

theorem Paces.unscheduled (h : Paces watched e e') (hnone : e.coordinator = none) :
    Unscheduled e e' := by
  induction h with
  | refl => exact ⟨hnone, rfl, rfl⟩
  | tail _ hlast ih => exact ih.trans (hlast.unscheduled ih.coordinator_eq)

/-- A request that stops the coordinator does so before anything else. -/
theorem unscheduled_serve {request : Request α} (h : request.stops = true) :
    Unscheduled e (e.serve request) := by
  have hstopped : Unscheduled e e.stopCoordinator := ⟨rfl, rfl, rfl⟩
  cases request with
  | shutdown graceful =>
      have hpaces : Paces none e.stopCoordinator (e.stopCoordinator.shutdownPool graceful) :=
        paces_shutdownPool _ graceful
      exact hstopped.trans (hpaces.unscheduled rfl)
  | abandon =>
      have hpaces : Paces none e.stopCoordinator e.stopCoordinator.abandonPool :=
        paces_tell (Pool.Act.abandon e.pool).acts
      exact hstopped.trans (hpaces.unscheduled rfl)
  | _ => simp [Request.stops] at h

/-! ## Until the coordinator is stopped -/

/-- One thing that can be seen of an engine whose coordinator is not stopped: another request is served,
or the clock jumps to an instant before which nothing happens by itself. -/
inductive Stay : Engine α → Engine α → Prop where
  | serve (e : Engine α) (request : Request α) (hstops : request.stops = false) :
      Stay e (e.serve request)
  | jump (e : Engine α) (t : Instant) (hwake : ∀ wake ∈ e.nextWake, t ≤ wake) : Stay e (e.jump t)

/-- Whether an engine is seen to become another one before its coordinator is stopped. -/
def Stays : Engine α → Engine α → Prop := Relation.ReflTransGen Stay

/-- Serving requests in order is one way to be seen. -/
theorem stays_run (e : Engine α) {requests : List (Request α)}
    (hstops : ∀ request ∈ requests, request.stops = false) : Stays e (e.run requests) := by
  induction requests generalizing e with
  | nil => exact .refl
  | cons request rest ih =>
      have hone := Stay.serve e request (hstops request List.mem_cons_self)
      exact .head hone (ih _ fun r hr => hstops r (List.mem_cons_of_mem _ hr))

theorem Stays.visits (h : Stays e e') : Visits none e e' := by
  induction h with
  | refl => exact .refl
  | tail _ hlast ih =>
      refine ih.tail ?_
      cases hlast with
      | serve request hstops => exact .serve _ request request.spares_none
      | jump t hwake => exact .jump _ t hwake

theorem isSome_settle (e : Engine α) : e.settle.coordinator.isSome = e.coordinator.isSome := by
  unfold settle
  simp only
  split
  · rename_i hnone
    rfl
  · rename_i c hc
    have hbefore : e.coordinator = some c := hc
    split
    · rw [hbefore]
      rfl
    · rfl

theorem isSome_runUntil (stop : Engine α → Bool) (limit : Instant) (e : Engine α) :
    (e.runUntil stop limit).coordinator.isSome = e.coordinator.isSome := by
  have hjump (e : Engine α) (t : Instant) : (e.jump t).coordinator.isSome = e.coordinator.isSome :=
    isSome_settle _
  fun_induction runUntil stop limit e with
  | case1 e => rfl
  | case2 e _ _ => exact hjump e limit
  | case3 e _ t _ _ => exact hjump e limit
  | case4 e _ t _ _ next _ ih => exact ih.trans (hjump e t)
  | case5 e _ t _ _ next _ => exact hjump e t

theorem isSome_serve (e : Engine α) {request : Request α} (h : request.stops = false) :
    (e.serve request).coordinator.isSome = e.coordinator.isSome := by
  cases request with
  | scheduleRecurring interval s =>
      show (e.scheduleRecurring interval s).1.coordinator.isSome = _
      unfold Engine.scheduleRecurring
      split <;> rfl
  | register | cancelRecurring | clearRecurring | registerCheck | unregisterCheck | report => rfl
  | advance d => exact isSome_runUntil _ _ e
  | waitIdle timeout => exact isSome_runUntil _ _ e
  | await h timeout => exact isSome_runUntil _ _ e
  | get h timeout => exact isSome_runUntil _ _ e
  | shutdownPool graceful => exact (isSome_runUntil _ _ _).trans (isSome_settle _)
  | shutdown | abandon => simp [Request.stops] at h
  | _ => exact isSome_settle _

/-- The coordinator is there until it is stopped. -/
theorem Stays.isSome_coordinator (h : Stays e e') :
    e'.coordinator.isSome = e.coordinator.isSome := by
  induction h with
  | refl => rfl
  | tail _ hlast ih =>
      refine Eq.trans ?_ ih
      cases hlast with
      | serve request hstops => exact isSome_serve _ hstops
      | jump t hwake => exact isSome_settle _

/-! ## Sweeps and samples in time -/

/-- Whether the coordinator of an engine that was started at an instant has swept once in every tick and
sampled once in every interval, up to the present instant. -/
structure KeepsSchedules (config : EngineConfig) (started : Instant) (e : Engine α) : Prop where
  /-- From the start on, a sweep comes within a tick of the one before. -/
  sweeps : (e.record.sweptAt ++ [started]).IsChain fun later earlier : Instant =>
    earlier < later ∧ later ≤ earlier + config.schedulerTick
  /-- The latest one is no longer ago either. -/
  clock_le : e.clock ≤ e.record.sweptAt.headD started + config.schedulerTick
  /-- Samples are taken at the multiples of the interval and at no other instant. -/
  samples : config.adaptive.enabled = true →
    e.record.sampledAt.reverse =
      (List.range (e.clock.since started / config.adaptive.samplingInterval)).map
        fun k => started + (k + 1 : Nat) * config.adaptive.samplingInterval
  unsampled : config.adaptive.enabled = false → e.record.sampledAt = []
  /-- The selector has taken these samples, and no others. -/
  selector : e.selector.SampledAt config.adaptive started e.record.sampledAt

theorem OnSchedule.keepsSchedules (h : e.OnSchedule config started) (hawaits : e.Awaits)
    (hsome : e.coordinator.isSome) (hclock : e.clock ≤ Instant.latest)
    (hnext : config.adaptive.enabled = true →
      e.clock + config.adaptive.samplingInterval ≤ Instant.latest) :
    KeepsSchedules config started e := by
  obtain ⟨c, hc⟩ := Option.isSome_iff_exists.1 hsome
  obtain ⟨-, -, htick, hsample⟩ := h.wakes c hc
  have hasleep := hawaits c hc
  constructor
  · refine h.sweeps.imp_of_mem_imp fun later earlier hlater _ hnext => ⟨hnext.1, ?_⟩
    exact Instant.le_add_of_le_after hnext.2 (Int.le_trans (h.sweptAt_le later hlater) hclock)
  · exact Instant.le_add_of_le_after (Int.le_of_lt (Int.lt_of_lt_of_le hasleep htick)) hclock
  · intro henabled
    obtain ⟨hwake, heq⟩ := hsample henabled
    have hlast : e.record.sampledAt.headD started ∈ e.record.sampledAt ++ [started] := by
      cases e.record.sampledAt <;> simp
    have hheld : ∀ t ∈ e.record.sampledAt ++ [started],
        t + config.adaptive.samplingInterval ≤ Instant.latest := fun t ht =>
      Int.le_trans (Int.add_le_add_right (h.sampledAt_le t ht) _) (hnext henabled)
    obtain ⟨hhead, hgrid⟩ := isGrid_of_isChain h.samples hheld
    -- the clock is between the last sample and the next one
    have hle := h.sampledAt_le _ hlast
    have hlt := Int.lt_of_lt_of_le hasleep hwake
    rw [heq, Instant.after_eq (hheld _ hlast), hhead] at hlt
    rw [hhead] at hle
    rw [Instant.since_div_eq hle (by linarith), hgrid]
  · exact h.unsampled
  · exact h.selector

/-- From the start of an engine on, whatever is asked of it, its coordinator keeps its schedules until it
is stopped, as far as instants can be held; from then on it neither sweeps nor samples. -/
theorem start_keepsSchedules (config : EngineConfig) (around : Surroundings) (now : Instant)
    (log : LogBook) (e₀ e : Engine α) (hstart : start config around now log = .ok e₀)
    (hstays : Stays e₀ e) (hclock : e.clock ≤ Instant.latest)
    (hnext : config.adaptive.enabled = true →
      e.clock + config.adaptive.samplingInterval ≤ Instant.latest) :
    KeepsSchedules config now e ∧
      ∀ request : Request α, request.stops = true → ∀ e', Visits none (e.serve request) e' →
        Unscheduled e e' := by
  have hticks := ticks_of_start (start_pool (.inr hstart))
  obtain ⟨hschedule, hawaits⟩ := hstays.visits.paces.onSchedule hticks (onSchedule_of_start hstart)
  have hsome : e.coordinator.isSome := by
    rw [hstays.isSome_coordinator, coordinator_of_start hstart]
    rfl
  refine ⟨hschedule.keepsSchedules hawaits hsome hclock hnext, fun request hstops e' hvisits => ?_⟩
  have hserved : Unscheduled e (e.serve request) := unscheduled_serve hstops
  exact hserved.trans (hvisits.paces.unscheduled hserved.coordinator_eq)

/-- An engine with ticks of 70 and samples of 100 milliseconds. -/
def unevenConfig : EngineConfig := { workerCount := 1, schedulerTickMs := 70 }

def unevenPool : Pool Nat := (Pool.ofWorkers unevenConfig 1 1 0 ⟨0, []⟩).settle

def unevenEngine : Engine Nat :=
  ofPool unevenConfig unevenPool (some (Coordinator.start unevenConfig 0))

theorem start_unevenEngine : start unevenConfig {} 0 ⟨0, []⟩ = .ok unevenEngine := by
  have hvalid : unevenConfig.validate = .ok () := rfl
  unfold start Pool.start
  rw [hvalid]
  rfl

/-- The engine after 350 milliseconds, with a task in between. -/
def passingEngine : Engine Nat := unevenEngine.run
  [.advance (.ofMillis 160), .submit countSubmission, .advance (.ofMillis 190)]

theorem passingEngine_keepsSchedules : start unevenConfig {} 0 ⟨0, []⟩ = .ok unevenEngine ∧
    Stays unevenEngine passingEngine ∧ passingEngine.clock = 350000000 ∧
    passingEngine.clock ≤ Instant.latest ∧
    passingEngine.clock + unevenConfig.adaptive.samplingInterval ≤ Instant.latest ∧
    passingEngine.record.sweptAt.map (· / 1000000) = [300, 270, 200, 170, 100, 70] ∧
    passingEngine.record.sampledAt.map (· / 1000000) = [300, 200, 100] ∧
    KeepsSchedules unevenConfig 0 passingEngine ∧
    ∀ request : Request Nat, request.stops = true → ∀ e', Visits none (passingEngine.serve request) e' →
      Unscheduled passingEngine e' := by
  have hstays : Stays unevenEngine passingEngine := stays_run _ (by simp [Request.stops])
  have hclock : passingEngine.clock = 350000000 := by decide +kernel
  have hlatest : passingEngine.clock ≤ Instant.latest := by rw [hclock]; decide
  have hnext : passingEngine.clock + unevenConfig.adaptive.samplingInterval ≤ Instant.latest := by
    rw [hclock]
    decide
  exact ⟨start_unevenEngine, hstays, hclock, hlatest, hnext, by decide +kernel, by decide +kernel,
    start_keepsSchedules unevenConfig {} 0 ⟨0, []⟩ unevenEngine passingEngine start_unevenEngine hstays
      hlatest fun _ => hnext⟩

end Engine

end Dispatch
