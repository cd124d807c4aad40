import Dispatch.Proofs.Engine.Unobservable
import Dispatch.Proofs.Engine.Wakes
/-!
# Recurring tasks fire once in every interval

The coordinator wakes up in every tick, and more often if it has samples to take; recurring tasks are
registered in between. If a tick is not longer than the interval of a recurring task, each wake-up comes
within one interval of the one before. So the task is never due twice between two sweeps, and however the
ticks lie to its grid, a sweep finds that it has fired once for each whole interval since its
registration.
-/

namespace Dispatch

variable {α : Type}

namespace Engine

variable {e e' e'' : Engine α} {config : EngineConfig} {watched : Option Identifier}

/-! ## The states of an engine -/

/-- One thing that can be seen of an engine: a request is served, or the clock jumps to an instant before
which nothing happens by itself. In the midst of a wait an engine has made some of these jumps. -/
inductive Visit (watched : Option Identifier) : Engine α → Engine α → Prop where
  | serve (e : Engine α) (request : Request α) (hspares : request.spares watched = true) :
      Visit watched e (e.serve request)
  | jump (e : Engine α) (t : Instant) (hwake : ∀ wake ∈ e.nextWake, t ≤ wake) :
      Visit watched e (e.jump t)

/-- Whether an engine is seen to become another one while a recurring task is left alone. -/
def Visits (watched : Option Identifier) : Engine α → Engine α → Prop :=
  Relation.ReflTransGen (Visit watched)

/-- Serving requests in order is one way to be seen. -/
theorem visits_run (e : Engine α) {requests : List (Request α)}
    (hspares : ∀ request ∈ requests, request.spares watched = true) :
    Visits watched e (e.run requests) := by
  induction requests generalizing e with
  | nil => exact .refl
  | cons request rest ih =>
      have hone := Visit.serve e request (hspares request List.mem_cons_self)
      exact .head hone (ih _ fun r hr => hspares r (List.mem_cons_of_mem _ hr))

theorem Visit.paces (h : Visit watched e e') : Paces watched e e' := by
  cases h with
  | serve request hspares => exact paces_serve e request hspares
  | jump t hwake => exact (Pace.jump e t hwake).paces

theorem Visits.paces (h : Visits watched e e') : Paces watched e e' := by
  induction h with
  | refl => exact .refl
  | tail _ hlast ih => exact ih.trans hlast.paces

/-! ## From the registration on -/

/-- A started coordinator wakes up within a tick. -/
theorem paced_of_start {around : Surroundings} {now : Instant} {log : LogBook}
    (h : start config around now log = .ok e) : e.Paced config fun _ _ => True := by
  have hpool := start_pool (.inr h)
  have hkept := Pool.kept_of_start hpool
  have hticks := ticks_of_start hpool
  have hclock : e.clock = now := Pool.clock_of_start hpool
  have he := eq_ofPool_of_start h
  refine ⟨by rw [he]; rfl, hkept.balanced.sound, ?_⟩
  intro c hc
  obtain rfl := Option.some.inj ((coordinator_of_start h).symm.trans hc)
  rw [hclock]
  refine ⟨Int.le_of_lt ?_, now, Int.le_refl _, ?_, trivial⟩
  · exact hticks.lt_nextWake_after now
  · intro hlatest
    exact (nextWake_le config now _).trans_eq (Instant.after_eq hlatest)

/-- Whether there is an entry for a submission under an identifier that is on its grid, as far as
instants can be held. -/
def Registered (id : Identifier) (s : Submission α) (registered : Instant) (interval : Duration)
    (swept : Instant) (entries : List (RecurringEntry α)) : Prop :=
  swept + interval ≤ Instant.latest → ∃ entry ∈ entries, entry.id = id ∧
    entry.submission = { s with token := none } ∧ entry.OnGrid registered interval swept

/-- A sweep within a tick of the one before finds the entry on its grid, and leaves it there. -/
theorem Registered.exists_swept {id : Identifier} {s : Submission α} {registered swept now : Instant}
    {interval : Duration} {entries : List (RecurringEntry α)}
    (h : Registered id s registered interval swept entries)
    (htick : config.schedulerTick ≤ interval) (hlongest : interval ≤ Duration.longest)
    (hle : swept ≤ now)
    (hnow : swept + config.schedulerTick ≤ Instant.latest → now ≤ swept + config.schedulerTick)
    (hlatest : now + interval ≤ Instant.latest) :
    ∃ entry ∈ entries, entry.id = id ∧ entry.submission = { s with token := none } ∧
      entry.OnGrid registered interval swept ∧
      (entry.swept now now).OnGrid registered interval now ∧
      entry.swept now now ∈ (entries.filter (!·.cancelled)).map (·.swept now now) := by
  have htick' : (config.schedulerTick : Int) ≤ interval := by exact_mod_cast htick
  obtain ⟨entry, hentry, hid, hasked, hgrid⟩ := h (by linarith)
  have hmesh : now ≤ swept + interval := by
    have := hnow (by linarith)
    linarith
  refine ⟨entry, hentry, hid, hasked, hgrid, hgrid.swept hle hmesh hlongest hlatest, ?_⟩
  exact List.mem_map_of_mem (List.mem_filter.2 ⟨hentry, by simp [hgrid.cancelled_eq]⟩)

theorem lasting_registered {id : Identifier} {s : Submission α} {registered : Instant}
    {interval : Duration} (htick : config.schedulerTick ≤ interval)
    (hlongest : interval ≤ Duration.longest) :
    Lasting config (some id) (Registered id s registered interval) := by
  constructor
  · intro swept entries entries' h hleaves hlatest
    obtain ⟨entry, hentry, hid, hasked, hgrid⟩ := h hlatest
    exact ⟨entry, hleaves id rfl entry hentry hid, hid, hasked, hgrid⟩
  · intro swept now entries h hle hnow hlatest
    obtain ⟨entry, -, hid, hasked, -, hgrid, hmem⟩ := h.exists_swept htick hlongest hle hnow hlatest
    exact ⟨_, hmem, (entry.swept_id now now).trans hid,
      (entry.swept_submission now now).trans hasked, hgrid⟩

/-- A task that is registered is on its grid, wherever between two wake-ups this happens. -/
theorem Paced.scheduleRecurring (h : e.Paced config fun _ _ => True) {interval : Duration}
    {s : Submission α} {id : Identifier} (hid : (e.scheduleRecurring interval s).2 = .ok id) :
    (e.scheduleRecurring interval s).1.Paced config
      (Registered id s e.clock interval) := by
  unfold Engine.scheduleRecurring Recurring.schedule at hid ⊢
  by_cases haccepting : e.pool.accepting = true
  · by_cases hzero : interval = 0
    · simp [haccepting, hzero] at hid
    · simp only [if_pos haccepting, if_neg hzero] at hid ⊢
      refine ⟨h.config_eq, h.sound, ?_⟩
      intro c hc
      obtain ⟨hclock, swept, hswept, hbound, -⟩ := h.sleeps c hc
      refine ⟨hclock, e.clock, Int.le_refl _, ?_, ?_⟩
      · intro hlatest
        have := hbound (by linarith)
        linarith
      · intro hlatest
        refine ⟨_, List.mem_append_right _ List.mem_cons_self, Except.ok.inj hid, rfl, ?_⟩
        exact RecurringEntry.onGrid_schedule (Nat.pos_of_ne_zero hzero) hlatest
  · simp [haccepting] at hid

/-- Whether a recurring task that was registered at an instant has not been cancelled and has fired so
often, once in every interval. -/
structure HasFired (id : Identifier) (s : Submission α) (registered : Instant) (interval : Duration)
    (count : Nat) (entry : RecurringEntry α) : Prop where
  id_eq : entry.id = id
  /-- Recurring tasks have no tokens. -/
  submission_eq : entry.submission = { s with token := none }
  cancelled_eq : entry.cancelled = false
  fired_eq : entry.fired = count
  nextExecution_eq : entry.nextExecution = registered + (count + 1 : Nat) * interval

/-- Whether an engine `e`, in which a recurring task has been registered, becomes `e'` by a sweep at
an instant that finds the task on its grid. -/
structure FiresOnTime (id : Identifier) (s : Submission α) (registered : Instant)
    (interval : Duration) (now : Instant) (e e' : Engine α) : Prop where
  clock_eq : e'.clock = now
  /-- The task fires in this sweep just if it is due, and has then fired once for each whole interval
  since its registration. -/
  fires : ∃ before ∈ e.recurring.entries, ∃ after ∈ e'.recurring.entries,
    HasFired id s registered interval before.fired before ∧
      HasFired id s registered interval (now.since registered / interval) after ∧
      after.fired = before.fired + if before.isDue now then 1 else 0
  /-- That is what the engine tells about it. -/
  fireCount_eq : (e'.recurring.entries.map (·.id)).Nodup →
    e'.recurring.fireCount id = some (now.since registered / interval)
  /-- Each of the tasks that are due and not cancelled is submitted once, and nothing else is. -/
  attempted : ∃ attempts,
    List.Forall₂ (fun entry attempt => entry.Asks now attempt.1)
      ((e.recurring.entries.filter (!·.cancelled)).filter (·.isDue now)) attempts ∧
    e'.pool.answers = attempts.reverse ++ e.pool.answers

theorem hasFired_of_onGrid {id : Identifier} {s : Submission α} {registered swept : Instant}
    {interval : Duration} {entry : RecurringEntry α} (hid : entry.id = id)
    (hasked : entry.submission = { s with token := none })
    (hgrid : entry.OnGrid registered interval swept) :
    HasFired id s registered interval entry.fired entry :=
  ⟨hid, hasked, hgrid.cancelled_eq, rfl, by exact_mod_cast hgrid.nextExecution_eq⟩

/-- From the start of an engine on, whatever happens, as long as it is not shut down and a recurring task
is not cancelled whose interval is not shorter than a tick: at each wake-up of the coordinator the task
is found to fire once in every interval. -/
theorem recurring_firesOnTime (config : EngineConfig) (around : Surroundings) (now : Instant)
    (log : LogBook) (e₀ e e' : Engine α) (hstart : start config around now log = .ok e₀)
    (hbefore : Visits none e₀ e) (interval : Duration) (s : Submission α) (id : Identifier)
    (hid : (e.scheduleRecurring interval s).2 = .ok id)
    (hafter : Visits (some id) (e.scheduleRecurring interval s).1 e')
    (htick : config.schedulerTick ≤ interval) (hlongest : interval ≤ Duration.longest)
    (c : Coordinator) (hc : e'.coordinator = some c)
    (hlatest : c.wakeAt + interval ≤ Instant.latest) :
    FiresOnTime id s e.clock interval c.wakeAt e' (e'.jump c.wakeAt) := by
  have hticks := ticks_of_start (start_pool (.inr hstart))
  have hlasting : Lasting config (some id) (Registered id s e.clock interval) :=
    lasting_registered htick hlongest
  have hpaced : e.Paced config fun _ _ => True :=
    hbefore.paces.paced hticks ⟨fun _ _ => trivial, fun _ _ _ => trivial⟩ (paced_of_start hstart)
  have hpaced' := hafter.paces.paced hticks hlasting (hpaced.scheduleRecurring hid)
  obtain ⟨hclock, swept, hswept, hbound, hregistered⟩ := hpaced'.sleeps c hc
  -- the clock moves to the wake-up, and the sweep comes within a tick of the one before
  let woken := e'.mapPool fun p => { p with clock := max p.clock c.wakeAt }
  have hwoken : woken.clock = c.wakeAt := Int.max_eq_right hclock
  have hsweeps : Sweeps woken (e'.jump c.wakeAt) :=
    sweeps_settle (hpaced'.sound.mono (Int.le_max_left _ _)) hc (Int.le_of_eq hwoken.symm)
  obtain ⟨before, hbeforeMem, hbeforeId, hasked, hgrid, hafterGrid, hafterMem⟩ :=
    hregistered.exists_swept htick hlongest (Int.le_trans hswept hclock) hbound hlatest
  have hentries := hsweeps.entries_eq
  have hattempted := hsweeps.attempted
  rw [hwoken] at hentries hattempted
  have hafterMem' := hentries ▸ hafterMem
  have hafterId := (before.swept_id c.wakeAt c.wakeAt).trans hbeforeId
  have hfired := hasFired_of_onGrid hafterId ((before.swept_submission _ _).trans hasked) hafterGrid
  rw [hafterGrid.fired_eq] at hfired
  refine
    { clock_eq := hsweeps.clock_eq.trans hwoken
      fires := ⟨before, hbeforeMem, _, hafterMem', hasFired_of_onGrid hbeforeId hasked hgrid, hfired,
        before.swept_fired _ _⟩
      fireCount_eq := ?_
      attempted := hattempted }
  intro hdistinct
  rw [Recurring.fireCount, ← hafterId, Recurring.find?_eq_some hdistinct hafterMem',
    Option.map_some, hafterGrid.fired_eq]

/-- The engine that is started with the pool of two workers. -/
def pairEngine : Engine Nat := ofPool pairConfig pairPool (some (Coordinator.start pairConfig 0))

theorem start_pairEngine : start pairConfig {} 0 ⟨0, []⟩ = .ok pairEngine := by
  unfold start
  rw [start_pairPool]
  rfl

def quarterSecond : Duration := .ofMillis 250

def countSubmission : Submission Nat := ⟨"count", .normal, none, ⟨[], .value 1⟩⟩

/-- The engine between two of its wake-ups. -/
def offbeatEngine : Engine Nat := pairEngine.run [.advance (.ofMillis 30)]

/-- The engine a while after the registration of a recurring task. -/
def beatingEngine : Engine Nat :=
  (offbeatEngine.scheduleRecurring quarterSecond countSubmission).1.run
    [.submit countSubmission, .advance (.ofMillis 200)]

theorem beatingEngine_firesOnTime : start pairConfig {} 0 ⟨0, []⟩ = .ok pairEngine ∧
    Visits none pairEngine offbeatEngine ∧
    (offbeatEngine.scheduleRecurring quarterSecond countSubmission).2 = .ok (.numbered 0) ∧
    Visits (some (.numbered 0)) (offbeatEngine.scheduleRecurring quarterSecond countSubmission).1
      beatingEngine ∧
    pairConfig.schedulerTick ≤ quarterSecond ∧
    beatingEngine.coordinator = some ⟨300000000, 300000000⟩ ∧
    FiresOnTime (.numbered 0) countSubmission offbeatEngine.clock quarterSecond 300000000
      beatingEngine (beatingEngine.jump 300000000) := by
  have hbefore : Visits none pairEngine offbeatEngine := visits_run _ (by simp [Request.spares])
  have hid : (offbeatEngine.scheduleRecurring quarterSecond countSubmission).2 =
      .ok (.numbered 0) := by decide +kernel
  have hafter : Visits (some (.numbered 0))
      (offbeatEngine.scheduleRecurring quarterSecond countSubmission).1 beatingEngine :=
    visits_run _ (by simp [Request.spares])
  have hcoordinator : beatingEngine.coordinator = some ⟨300000000, 300000000⟩ := by decide +kernel
  exact ⟨start_pairEngine, hbefore, hid, hafter, by decide, hcoordinator,
    recurring_firesOnTime pairConfig {} 0 ⟨0, []⟩ pairEngine offbeatEngine beatingEngine
      start_pairEngine hbefore quarterSecond countSubmission (.numbered 0) hid hafter (by decide)
      (by decide) ⟨300000000, 300000000⟩ hcoordinator (by decide)⟩

end Engine

end Dispatch
