import Dispatch.Proofs.Engine.Schedules
import Dispatch.Proofs.Engine.Sessions
import Dispatch.Proofs.Pool.Asleep
import Mathlib.Order.Bounds.Defs
/-!
# Waits with a deadline

While a caller waits, an engine does what it would do as well if nobody waited. So a wait ends at the first
instant at which there is what it waits for, if that is not after its deadline, and at the deadline to the
instant otherwise. Such an instant is always one at which somebody wakes up, since from one wake-up to the
next nothing happens but time.
-/

namespace Dispatch

variable {α : Type}

namespace Instant

variable {t earlier : Instant}

theorem add_since (h : earlier ≤ t) : earlier + (t.since earlier : Int) = t := by
  simp only [since, Instant] at *
  omega

theorem add_duration_since (t : Instant) (d : Duration) : (t + d : Instant).since t = d := by
  simp only [since, Instant, Duration] at *
  omega

end Instant

namespace Pool

variable {p : Pool α}

theorem Rested.dropHandle (h : p.Rested) (id : Nat) : (p.dropHandle id).Rested :=
  ⟨⟨h.orderly.sound, h.orderly.closed_of_interrupted⟩, h.stillAt, { h.manned with }⟩

/-- Whether no task is queued, and none executing. -/
def IsDone (p : Pool α) : Prop := p.queue.tasks = [] ∧ p.running = []

instance (p : Pool α) : Decidable p.IsDone :=
  decidable_of_iff (p.queue.tasks.isEmpty = true ∧ p.running.isEmpty = true) (by simp [IsDone])

/-- What is outstanding is queued or executing. -/
theorem Kept.isIdle_iff (h : p.Kept) : p.isIdle = true ↔ p.IsDone := by
  have hsize : p.queue.size = p.queue.tasks.length := h.balanced.sound.depth_eq
  have hcount : p.outstanding = p.queue.tasks.length + p.running.length :=
    hsize ▸ h.balanced.outstanding_eq
  rw [isIdle, decide_eq_true_eq, hcount, Nat.add_eq_zero_iff, List.length_eq_zero_iff,
    List.length_eq_zero_iff]
  exact Iff.rfl

end Pool

namespace Engine

variable {e e' : Engine α} {t limit : Instant} {watched : Option Identifier}

/-! ## Engines at rest -/

/-- Whether nothing can be done in an engine before time passes or a request is made. -/
structure Asleep (e : Engine α) : Prop where
  ticks : Ticks e.config
  rested : e.pool.Rested
  awaits : e.Awaits

theorem Asleep.clock_jump (h : e.Asleep) (hle : e.clock ≤ t) : (e.jump t).clock = t := by
  have hsound := h.rested.orderly.sound.mono (Int.le_max_left e.pool.clock t)
  exact (clock_settle (e := e.mapPool fun p => { p with clock := max p.clock t }) hsound).trans
    (Int.max_eq_right hle)

theorem Pace.asleep (hpace : Pace watched e e') (h : e.Asleep) : e'.Asleep := by
  have hrested := hpace.move.rested h.rested
  have hs := h.rested.orderly.sound
  cases hpace with
  | @request done hacts hleaves =>
      have hticks : Ticks done.config := hleaves.config_eq ▸ h.ticks
      have hdone := ((hacts.reaches hs).grows hs).sound
      exact ⟨(config_settle done).symm ▸ hticks, hrested, Ticks.awake_settle hticks hdone⟩
  | arrange hpool hleaves =>
      refine ⟨hleaves.config_eq ▸ h.ticks, hrested, h.awaits.of_eq (congrArg Pool.clock hpool) ?_⟩
      exact fun c hc => (hleaves.coordinator c hc).1
  | jump t hwake =>
      exact ⟨(config_settle _).symm ▸ h.ticks, hrested,
        Ticks.awake_settle h.ticks (hs.mono (Int.le_max_left e.clock t))⟩
  | join => exact ⟨h.ticks, hrested, h.awaits.of_eq (Pool.clock_join e.pool) fun _ hc => hc⟩

theorem Paces.asleep (hpaces : Paces watched e e') (h : e.Asleep) : e'.Asleep := by
  induction hpaces with
  | refl => exact h
  | tail _ hlast ih => exact hlast.asleep ih

theorem Asleep.dropHandle (h : e.Asleep) (id : Nat) : (e.mapPool (·.dropHandle id)).Asleep :=
  ⟨h.ticks, h.rested.dropHandle id, h.awaits⟩

/-- Started pools and engines are at rest. -/
theorem asleep_of_start {config : EngineConfig} {around : Surroundings} {now : Instant}
    {log : LogBook} (h : startPool config around now log = .ok e ∨
      start config around now log = .ok e) : e.Asleep := by
  have hpool := start_pool h
  have hticks := ticks_of_start hpool
  have hrested := Pool.rested_of_start hpool
  rcases h with h | h
  · have he := eq_ofPool_of_startPool h
    rw [he]
    exact ⟨hticks, hrested, fun c hc => by contradiction⟩
  · obtain ⟨hschedule, hawaits⟩ := onSchedule_of_start h
    exact ⟨hschedule.config_eq ▸ hticks, hrested, hawaits⟩

/-! ## From one wake-up to the next -/

/-- The next wake-up is the one of a worker or of the coordinator. -/
theorem nextWake_le_of_pool {wake : Instant} (h : e.pool.nextWake = some wake) :
    ∃ first ∈ e.nextWake, first ≤ wake := by
  unfold nextWake
  rw [h]
  cases e.coordinator with
  | none => exact ⟨wake, rfl, Int.le_refl wake⟩
  | some c => exact ⟨_, rfl, Int.min_le_left _ _⟩

/-- At rest all wake-ups are still to come. -/
theorem Asleep.lt_nextWake (h : e.Asleep) {wake : Instant} (hwake : e.nextWake = some wake) :
    e.clock < wake := by
  rcases Instant.earliest?_eq_some hwake with hpool | hcoordinator
  · exact h.rested.lt_of_mem_wakes ((Pool.nextWake_cases e.pool).1 wake hpool)
  · obtain ⟨c, hc, rfl⟩ := Option.map_eq_some_iff.1 hcoordinator
    exact h.awaits c hc

/-- Before the next wake-up nothing happens. -/
theorem Asleep.passes_jump (h : e.Asleep) (hle : e.clock ≤ t)
    (hbefore : ∀ wake ∈ e.nextWake, t < wake) : e.pool.Passes (e.jump t).pool := by
  have hmax : max e.pool.clock t = t := Int.max_eq_right hle
  have hrested : { e.pool with clock := t }.Rested := by
    refine h.rested.withClock hle fun wake hwake => ?_
    obtain ⟨first, hfirst, hle⟩ := nextWake_le_of_pool hwake
    exact Int.lt_of_lt_of_le (hbefore first hfirst) hle
  have hasleep : ∀ c ∈ e.coordinator, t < c.wakeAt := by
    intro c hc
    obtain ⟨first, hfirst, hle⟩ := exists_nextWake_le hc
    exact Int.lt_of_lt_of_le (hbefore first hfirst) hle
  have hclock : e.pool.Passes { e.pool with clock := t } := ⟨t, e.pool.queue, rfl, rfl⟩
  have hjump : (e.jump t).pool = { e.pool with clock := t }.settle := by
    unfold jump
    simp only [mapPool, hmax]
    rw [settle_of_asleep (e := { e with pool := { e.pool with clock := t } }) hrested.orderly.sound
      hasleep]
    rfl
  rw [hjump]
  exact hclock.trans hrested.passes_settle

/-- A length of time that ends before the next wake-up passes in one go. -/
theorem advance_of_lt {d : Duration} (h : ∀ wake ∈ e.nextWake, e.clock + d < wake) :
    e.advance d = e.jump (e.clock + d) := by
  unfold advance
  rw [runUntil]
  simp only [Bool.false_eq_true, if_false]
  split
  · rfl
  · rename_i wake hwake
    exact if_pos (h wake hwake)

/-- Until then nothing happens but time. -/
theorem Asleep.passes_advance (h : e.Asleep) {d : Duration}
    (hbefore : ∀ wake ∈ e.nextWake, e.clock + d < wake) : e.pool.Passes (e.advance d).pool := by
  rw [advance_of_lt hbefore]
  exact h.passes_jump (Int.le_add_of_nonneg_right (Int.natCast_nonneg d)) hbefore

/-- With each wake-up up to a limit the clock comes nearer to the limit. -/
theorem Asleep.timeLeft_jump_lt (h : e.Asleep) {wake : Instant} (hwake : e.nextWake = some wake)
    (hle : wake ≤ limit) : (e.jump wake).timeLeft limit < e.timeLeft limit := by
  have hlt := h.lt_nextWake hwake
  unfold timeLeft
  rw [h.clock_jump (Int.le_of_lt hlt)]
  simp only [Instant] at *
  omega

/-- A longer one passes up to the wake-up, and then the rest of it. -/
theorem Asleep.advance_of_le (h : e.Asleep) {wake : Instant} (hwake : e.nextWake = some wake)
    {d : Duration} (hle : wake ≤ e.clock + d) :
    e.advance d = (e.jump wake).advance ((e.clock + d : Instant).since wake) := by
  have hclock := h.clock_jump (Int.le_of_lt (h.lt_nextWake hwake))
  have hlimit : (e.jump wake).clock + ((e.clock + d : Instant).since wake : Int) = e.clock + d := by
    rw [hclock, Instant.add_since hle]
  unfold advance
  rw [hlimit]
  conv_lhs => rw [runUntil]
  simp only [hwake, Bool.false_eq_true, if_false, Int.not_lt.2 hle]
  exact if_pos (h.timeLeft_jump_lt hwake hle)

/-! ## The first instant -/

/-- Whether an engine that waits until a limit for something to hold of the pool has stopped at the first
instant at which it holds when nobody waits, if there is one that is not after the limit. -/
structure StopsFirst (stops : Pool α → Bool) (limit : Instant) (e e' : Engine α) (d : Duration) :
    Prop where
  clock_eq : e'.clock = e.clock + d
  clock_le : e.clock + d ≤ limit
  passes : e'.pool.Passes (e.advance d).pool
  not_before : ∀ earlier < d, stops (e.advance earlier).pool = false
  stops_or : stops e'.pool = true ∨ e.clock + d = limit

section Waits

variable {stops : Pool α → Bool} (hstops : ∀ {p q : Pool α}, p.Passes q → stops q = stops p)

include hstops

/-- Where a limit comes before the next wake-up, nothing happens up to the limit. -/
theorem Asleep.stopsFirst_jump (h : e.Asleep) (hgoes : stops e.pool = false) (hle : e.clock ≤ limit)
    (hbefore : ∀ wake ∈ e.nextWake, limit < wake) :
    StopsFirst stops limit e (e.jump limit) (limit.since e.clock) := by
  have hlimit := Instant.add_since hle
  have hnot {d : Duration} (hd : e.clock + d ≤ limit) : ∀ wake ∈ e.nextWake, e.clock + d < wake :=
    fun wake hwake => Int.lt_of_le_of_lt hd (hbefore wake hwake)
  constructor
  · rw [h.clock_jump hle, hlimit]
  · exact Int.le_of_eq hlimit
  · rw [advance_of_lt (hnot (Int.le_of_eq hlimit)), hlimit]
    exact .refl _
  · intro earlier hearlier
    have hd : e.clock + earlier ≤ limit := by
      rw [← hlimit]
      exact Int.add_le_add_left (Int.ofNat_le.2 (Nat.le_of_lt hearlier)) _
    exact (hstops (h.passes_advance (hnot hd))).trans hgoes
  · exact .inr hlimit

/-- What a wait finds after a wake-up comes as much later for the engine as the wake-up is away. -/
theorem Asleep.stopsFirst_of_wake (h : e.Asleep) (hgoes : stops e.pool = false)
    {wake : Instant} (hwake : e.nextWake = some wake) {d : Duration}
    (hnext : StopsFirst stops limit (e.jump wake) e' d) :
    StopsFirst stops limit e e' (wake.since e.clock + d) := by
  have hlt := h.lt_nextWake hwake
  have hclock := h.clock_jump (Int.le_of_lt hlt)
  have hsum : e.clock + ((wake.since e.clock + d : Duration) : Int) = (e.jump wake).clock + d := by
    rw [Int.natCast_add, ← Int.add_assoc, Instant.add_since (Int.le_of_lt hlt), hclock]
  have hadvance : e.advance (wake.since e.clock + d) = (e.jump wake).advance d := by
    have hle : wake ≤ e.clock + ((wake.since e.clock + d : Duration) : Int) := by
      rw [hsum, hclock]
      exact Int.le_add_of_nonneg_right (Int.natCast_nonneg d)
    rw [h.advance_of_le hwake hle, hsum, hclock, Instant.add_duration_since]
  constructor
  · rw [hsum]
    exact hnext.clock_eq
  · rw [hsum]
    exact hnext.clock_le
  · rw [hadvance]
    exact hnext.passes
  · intro earlier hearlier
    rcases Int.lt_or_le (e.clock + earlier) wake with hbefore | hafter
    · -- up to the wake-up nothing happens
      have hnot : ∀ w ∈ e.nextWake, e.clock + earlier < w := fun w hw =>
        Option.some.inj (hwake.symm.trans hw) ▸ hbefore
      exact (hstops (h.passes_advance hnot)).trans hgoes
    · -- after it, what is not so for the engine that has woken up is not so for this one
      rw [h.advance_of_le hwake hafter]
      refine hnext.not_before _ ?_
      simp only [Instant.since, Instant, Duration] at *
      omega
  · rw [hsum]
    exact hnext.stops_or

/-- A wait stops at the first instant at which there is what it waits for, or else at its limit. -/
theorem Asleep.exists_stopsFirst (h : e.Asleep) (hle : e.clock ≤ limit) :
    ∃ d, StopsFirst stops limit e (e.runUntil (stops ·.pool) limit) d := by
  -- the induction is on the wake-ups up to the limit
  fun_induction runUntil (stops ·.pool) limit e with
  | case1 e hdone =>
      have hnot : ∀ wake ∈ e.nextWake, e.clock + (0 : Nat) < wake := fun wake hwake => by
        rw [Int.natCast_zero, Int.add_zero]
        exact h.lt_nextWake hwake
      exact ⟨0, by simp, by simpa using hle, h.passes_advance hnot, by simp, .inl hdone⟩
  | case2 e hgoes hnone =>
      exact ⟨_, h.stopsFirst_jump hstops (by simpa using hgoes) hle (by simp [hnone])⟩
  | case3 e hgoes wake hwake hlater =>
      refine ⟨_, h.stopsFirst_jump hstops (by simpa using hgoes) hle fun w hw => ?_⟩
      exact Option.some.inj (hwake.symm.trans hw) ▸ hlater
  | case4 e hgoes wake hwake hlimit next _ ih =>
      have hclock := h.clock_jump (Int.le_of_lt (h.lt_nextWake hwake))
      have hpace : Pace none e next :=
        .jump e wake fun w hw => Int.le_of_eq (Option.some.inj (hwake.symm.trans hw))
      obtain ⟨d, hnext⟩ := ih (hpace.asleep h) (hclock.trans_le (Int.not_lt.1 hlimit))
      exact ⟨_, h.stopsFirst_of_wake hstops (by simpa using hgoes) hwake hnext⟩
  | case5 e _ wake hwake hlimit next hstuck =>
      exact absurd (h.timeLeft_jump_lt hwake (Int.not_lt.1 hlimit)) hstuck

end Waits

/-- Where nothing is waited for, the whole length of time passes. -/
theorem Asleep.clock_advance (h : e.Asleep) (d : Duration) : (e.advance d).clock = e.clock + d := by
  have hle : e.clock ≤ e.clock + d := Int.le_add_of_nonneg_right (Int.natCast_nonneg d)
  have hnever : ∀ {p q : Pool α}, p.Passes q → (fun _ => false : Pool α → Bool) q = false := fun _ => rfl
  obtain ⟨passed, hfirst⟩ := h.exists_stopsFirst hnever hle
  exact hfirst.clock_eq.trans (hfirst.stops_or.resolve_left Bool.false_ne_true)

/-! ## Answers in time -/

theorem deadline_of_le {timeout : Duration} (h : e.clock + timeout ≤ Instant.latest) :
    e.deadline (some timeout) = e.clock + timeout := by
  have hadd : e.clock.add? timeout = some (e.clock + timeout) := if_pos h
  simp [deadline, hadd]

/-- A deadline that cannot be held is none. -/
theorem deadline_of_lt {timeout : Duration} (h : Instant.latest < e.clock + timeout) :
    e.deadline (some timeout) = Instant.latest := by
  have hadd : e.clock.add? timeout = none := if_neg (Int.not_le.2 h)
  simp [deadline, hadd]

/-- Whether a wait of an engine for something to come about comes back at the right instant with the right
answer. When it would come about is seen from what the engine does if nobody waits. -/
structure AnswersInTime {β : Type} (e : Engine α) (timeout : Duration) (about : Pool α → Prop)
    (found : Pool α → β) (late : β) (answered : Engine α × β) : Prop where
  /-- It comes back as soon as it has come about, if it does so by the deadline, or there is none because
  it cannot be held. -/
  first : ∀ d : Duration, IsLeast {d : Duration | about (e.advance d).pool} d →
    e.clock + d ≤ Instant.latest → (e.clock + timeout ≤ Instant.latest → d ≤ timeout) →
    answered.1.clock = e.clock + d ∧ answered.2 = found (e.advance d).pool
  /-- It comes back at the deadline if it has not come about by then. -/
  late : e.clock + timeout ≤ Instant.latest → (∀ d ≤ timeout, ¬ about (e.advance d).pool) →
    answered.1.clock = e.clock + timeout ∧ answered.2 = late

theorem Asleep.answersInTime {β : Type} (h : e.Asleep) (stops : Pool α → Bool) (answer : Pool α → β)
    {about : Pool α → Prop} {found : Pool α → β} {late : β}
    (hstops : ∀ {p q : Pool α}, p.Passes q → stops q = stops p)
    (habout : ∀ d, stops (e.advance d).pool = true ↔ about (e.advance d).pool)
    (hfound : ∀ {p q : Pool α}, p.Passes q → stops p = true → answer p = found q)
    (hlate : ∀ {p : Pool α}, stops p = false → answer p = late) (timeout : Duration)
    (e' : Engine α) (he' : e' = e.runUntil (stops ·.pool) (e.deadline (some timeout))) :
    AnswersInTime e timeout about found late (e', answer e'.pool) := by
  subst he'
  constructor
  case first =>
    intro d ⟨hholds, hleast⟩ hlatest hintime
    have hlimit : e.clock + d ≤ e.deadline (some timeout) := by
      rcases Int.lt_or_le Instant.latest (e.clock + timeout) with hbeyond | hheld
      · rw [deadline_of_lt hbeyond]
        exact hlatest
      · rw [deadline_of_le hheld]
        exact Int.add_le_add_left (Int.ofNat_le.2 (hintime hheld)) _
    obtain ⟨first, hfirst⟩ := h.exists_stopsFirst hstops
      (Int.le_trans (Int.le_add_of_nonneg_right (Int.natCast_nonneg d)) hlimit)
    have hle : first ≤ d := by
      by_contra hlt
      have hnot := hfirst.not_before d (Nat.not_le.1 hlt)
      rw [(habout d).2 hholds] at hnot
      contradiction
    -- where the wait has not stopped before its limit, the limit is the first instant
    have heq : first = d := by
      refine Nat.le_antisymm hle ?_
      rcases hfirst.stops_or with hstopped | hdone
      · exact hleast ((habout first).1 ((hstops hfirst.passes).trans hstopped))
      · rw [← hdone] at hlimit
        exact Int.ofNat_le.1 (Int.le_of_add_le_add_left hlimit)
    subst heq
    have hstopped := (hstops hfirst.passes).symm.trans ((habout first).2 hholds)
    exact ⟨hfirst.clock_eq, hfound hfirst.passes hstopped⟩
  case late =>
    intro hheld hnot
    rw [deadline_of_le hheld]
    obtain ⟨first, hfirst⟩ := h.exists_stopsFirst hstops
      (Int.le_add_of_nonneg_right (a := e.clock) (Int.natCast_nonneg timeout))
    have hle : first ≤ timeout := Int.ofNat_le.1 (Int.le_of_add_le_add_left hfirst.clock_le)
    have hgoes : stops (e.runUntil (stops ·.pool) (e.clock + timeout)).pool = false := by
      refine Bool.eq_false_iff.2 fun hstopped => hnot first hle ?_
      exact (habout first).1 ((hstops hfirst.passes).trans hstopped)
    have hlimit := hfirst.stops_or.resolve_left (by simp [hgoes])
    exact ⟨hfirst.clock_eq.trans hlimit, hlate hgoes⟩

theorem waitIdleAsync_eq (e : Engine α) (timeout : Duration) :
    e.waitIdleAsync timeout = e.waitIdle (some timeout) := by
  have hdeadline : e.deadline ((e.clock.add? timeout).map (·.since e.clock)) =
      e.deadline (some timeout) := by
    cases hadd : e.clock.add? timeout with
    | none => simp [deadline, hadd]
    | some limit =>
        obtain ⟨-, heq⟩ := Option.ite_none_right_eq_some.1 hadd
        obtain rfl := Option.some.inj heq
        simp [Instant.add_duration_since]
  unfold waitIdleAsync waitIdle
  simp only [hdeadline]

theorem getAsync_eq (e : Engine α) (h : Handle) (timeout : Duration) :
    e.getAsync h timeout = e.get h (some timeout) := by
  unfold getAsync get await
  simp only [result_eq]

end Engine

namespace Session

open Engine

variable {s : Session α}

theorem asleep_use (hs : s.InOrder) (h : s.engine.Asleep) (u : Use α) : (s.use u).engine.Asleep := by
  cases u with
  | request r => exact (paces_serve s.engine r r.spares_none).asleep h
  | inquire id inquiry =>
      simp only [use]
      cases hheld : s.handles id with
      | none => exact h
      | some handle =>
          obtain ⟨rfl, -, -, htaken⟩ := hs.held id handle hheld
          have hmeanwhile : (s.engine.meanwhile handle.id inquiry).Asleep :=
            Paces.asleep (paces_meanwhile s.engine handle.id inquiry : Paces none _ _) h
          simp only [inquire_eq htaken]
          cases inquiry.keeps with
          | true => exact hmeanwhile
          | false => exact hmeanwhile.dropHandle handle.id
  | drop id =>
      simp only [use]
      cases s.handles id with
      | none => exact h
      | some handle => exact h.dropHandle id

theorem asleep_run (hs : s.InOrder) (h : s.engine.Asleep) (uses : List (Use α)) :
    (s.run uses).engine.Asleep := by
  induction uses generalizing s with
  | nil => exact h
  | cons u rest ih => exact ih (hs.use u) (asleep_use hs h u)

/-- Whether the waits with a deadline that callers can begin in a session come back in time. -/
structure WaitsInTime (s : Session α) : Prop where
  /-- What happens if nobody waits is seen at each instant to come. -/
  clock_advance : ∀ d : Duration, (s.engine.advance d).clock = s.engine.clock + d
  /-- A wait for all tasks ends when no task is queued or executing, or else at the deadline. -/
  waitIdle : ∀ timeout : Duration, AnswersInTime s.engine timeout Pool.IsDone (fun _ => true) false
    (s.engine.waitIdle (some timeout))
  outstanding_pos : ∀ timeout : Duration, (s.engine.waitIdle (some timeout)).2 = false →
    0 < (s.engine.waitIdle (some timeout)).1.pool.outstanding
  /-- A wait for a task ends when its outcome has been delivered, or else at the deadline. -/
  get : ∀ id handle, s.handles id = some handle → handle.taken = false → ∀ timeout : Duration,
    AnswersInTime s.engine timeout (fun p => (p.outcome? id).isSome = true)
      (fun p => valueOf (p.outcome? id)) (.error .timeout) (s.engine.get handle (some timeout))
  /-- Where an earlier call has taken the outcome, a wait reports a shutdown at once. -/
  get_of_taken : ∀ id handle, s.handles id = some handle → handle.taken = true →
    ∀ timeout : Duration, s.engine.get handle (some timeout) = (s.engine, .error .shuttingDown)
  waitIdleAsync_eq : ∀ timeout : Duration,
    s.engine.waitIdleAsync timeout = s.engine.waitIdle (some timeout)
  getAsync_eq : ∀ (handle : Handle) (timeout : Duration),
    s.engine.getAsync handle timeout = s.engine.get handle (some timeout)

theorem get_eq (hs : s.InOrder) {id : Nat} {handle : Handle} (hheld : s.handles id = some handle)
    (hfree : handle.taken = false) (timeout : Option Duration) :
    s.engine.get handle timeout = (s.engine.awaitOutcome id timeout,
      valueOf ((s.engine.awaitOutcome id timeout).pool.outcome? id)) := by
  obtain ⟨rfl, -, -, htaken⟩ := hs.held id handle hheld
  have hawaited := hs.comes (comes_meanwhile s.engine handle.id (.get timeout))
  obtain ⟨-, -, hthere, -⟩ := hawaited.held _ handle hheld
  -- the handle is still there, so that what was delivered has come in at it
  have hshown := hawaited.faithful.receive_shown hthere
  rw [hfree, if_neg (by simp)] at hshown
  unfold Engine.get Engine.await
  simp only [receiveWithin_eq htaken]
  exact congrArg (fun o => (s.engine.awaitOutcome handle.id timeout, valueOf o)) hshown

theorem InOrder.waitsInTime (hs : s.InOrder) (h : s.engine.Asleep) : s.WaitsInTime where
  clock_advance := h.clock_advance
  waitIdle timeout := by
    have hkept : ∀ d, (s.engine.advance d).pool.Kept := fun d =>
      ((comes_runUntil _ _ s.engine).leadsTo hs.kept.balanced.sound).kept hs.kept
    refine h.answersInTime Pool.isIdle Pool.isIdle ?_
      (fun d => (hkept d).isIdle_iff) (fun _ hidle => hidle) (fun hidle => hidle) timeout _ rfl
    intro p q hpasses
    rw [Pool.isIdle, Pool.isIdle, hpasses.outstanding_eq]
  outstanding_pos timeout hlate := Nat.pos_of_ne_zero (of_decide_eq_false hlate)
  get id handle hheld hfree timeout := by
    rw [get_eq hs hheld hfree]
    refine h.answersInTime (fun p => (p.outcome? id).isSome) (fun p => valueOf (p.outcome? id)) ?_ (fun _ => Iff.rfl) ?_ ?_ timeout _ rfl
    · intro p q hpasses
      rw [hpasses.outcome?_eq]
    · intro p q hpasses _
      rw [hpasses.outcome?_eq]
    · intro p hnone
      rw [Option.isSome_eq_false_iff, Option.isNone_iff_eq_none] at hnone
      rw [hnone]
      rfl
  get_of_taken id handle _ htaken timeout := by
    have hsettled : s.engine.runUntil (fun e => handle.isSettled e.pool)
        (s.engine.deadline (some timeout)) = s.engine :=
      runUntil_of_stop (by simp [Handle.isSettled, htaken]) _
    unfold Engine.get Engine.await receiveWithin
    simp only [hsettled]
    simp [Handle.receive, htaken, Receipt.shown, valueOf, Outcome.result]
  waitIdleAsync_eq := s.engine.waitIdleAsync_eq
  getAsync_eq := s.engine.getAsync_eq

/-- From the start of a pool or an engine on, whatever callers have done, a wait with a deadline comes back
at the first instant at which there is what it waits for, the deadline included, and at the deadline
otherwise. A deadline that cannot be held is none, and waits that do not hold up the caller come back in
the same way. -/
theorem run_waitsInTime (config : EngineConfig) (around : Surroundings) (now : Instant) (log : LogBook)
    (e : Engine α)
    (h : Engine.startPool config around now log = .ok e ∨
      Engine.start config around now log = .ok e) (uses : List (Use α)) :
    (e.session.run uses).WaitsInTime :=
  have hs := inOrder_session h
  (hs.run uses).waitsInTime (asleep_run hs (asleep_of_start h) uses)

/-- The session in which a task has been submitted that ends at the instant 3. -/
def lateSession : Session Nat := (ofPool soloConfig soloPool none).session.run (repeatedUses.take 1)

/-- The session in which the outcome of the task has been taken. -/
def takenSession : Session Nat := (ofPool soloConfig soloPool none).session.run (repeatedUses.take 3)

/-- A wait up to the very instant at which the task ends finds it done, and a shorter one does not. -/
theorem lateSession_waitsInTime :
    (startPool soloConfig {} 0 ⟨0, []⟩ = .ok (ofPool soloConfig soloPool none) ∨
        Engine.start soloConfig {} 0 ⟨0, []⟩ = .ok (ofPool soloConfig soloPool none)) ∧
      lateSession.WaitsInTime ∧
      ((lateSession.engine.waitIdle (some 3)).1.clock = 3 ∧
        (lateSession.engine.waitIdle (some 3)).2 = true) ∧
      lateSession.handles 1 = some ⟨1, none, false⟩ ∧
      (lateSession.engine.get ⟨1, none, false⟩ (some 2)).1.clock = 2 ∧
      (lateSession.engine.get ⟨1, none, false⟩ (some 2)).2 = .error .timeout := by
  have hstart : startPool soloConfig {} 0 ⟨0, []⟩ = .ok (ofPool soloConfig soloPool none) :=
    startPool_of_start start_soloPool
  have hwaits : lateSession.WaitsInTime :=
    run_waitsInTime soloConfig {} 0 ⟨0, []⟩ _ (.inl hstart) (repeatedUses.take 1)
  have hheld : lateSession.handles 1 = some ⟨1, none, false⟩ := by decide +kernel
  have hleast : IsLeast {d : Duration | (lateSession.engine.advance d).pool.IsDone} 3 := by
    have hbefore : ∀ d < 3, ¬ (lateSession.engine.advance d).pool.IsDone := by decide +kernel
    exact ⟨show (lateSession.engine.advance 3).pool.IsDone by decide +kernel,
      fun d hd => Nat.not_lt.1 fun hlt => hbefore d hlt hd⟩
  have hnone : ∀ d ≤ 2, ¬ ((lateSession.engine.advance d).pool.outcome? 1).isSome = true := by
    decide +kernel
  have hclock : lateSession.engine.clock = 0 := by decide +kernel
  have hidle := (hwaits.waitIdle 3).first 3 hleast (by rw [hclock]; decide) fun _ => Nat.le_refl 3
  have hlate := (hwaits.get 1 _ hheld rfl 2).late (by rw [hclock]; decide) hnone
  rw [hclock] at hidle hlate
  exact ⟨.inl hstart, hwaits, hidle, hheld, hlate⟩

/-- A wait for a task whose outcome has been taken does not tell the value that was delivered. -/
theorem takenSession_notInTime : takenSession.engine.pool.accepting = true ∧
    takenSession.handles 1 = some ⟨1, none, true⟩ ∧
    takenSession.engine.pool.outcome? 1 = some (.completed 7) ∧
    (takenSession.engine.get ⟨1, none, true⟩ (some 5)).2 = .error .shuttingDown ∧
    ¬ AnswersInTime takenSession.engine 5 (fun p => (p.outcome? 1).isSome = true)
      (fun p => valueOf (p.outcome? 1)) (.error .timeout)
      (takenSession.engine.get ⟨1, none, true⟩ (some 5)) := by
  have hshut : (takenSession.engine.get ⟨1, none, true⟩ (some 5)).2 = .error .shuttingDown := by
    decide +kernel
  refine ⟨by decide +kernel, by decide +kernel, by decide +kernel, hshut, fun hintime => ?_⟩
  have hleast : IsLeast {d : Duration | ((takenSession.engine.advance d).pool.outcome? 1).isSome = true}
      0 := ⟨show ((takenSession.engine.advance 0).pool.outcome? 1).isSome = true by decide +kernel,
    fun d _ => Nat.zero_le d⟩
  have hfound := (hintime.first 0 hleast (by decide +kernel) fun _ => Nat.zero_le 5).2
  have hvalue : valueOf ((takenSession.engine.advance 0).pool.outcome? 1) = .ok 7 := by decide +kernel
  rw [hshut, hvalue] at hfound
  contradiction

end Session

end Dispatch
