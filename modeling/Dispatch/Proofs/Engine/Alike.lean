import Dispatch.Proofs.Engine.Idle
import Dispatch.Proofs.Pool.AlikeRequests
import Dispatch.Proofs.Recurring.Grid
/-!
# Engines that cannot be told apart

Two engines are alike if their pools of one worker each are, and nothing else differs but the selectors
of the strategy and the health checks. What is done to both engines leaves them alike; a coordinator
that wakes up may find that one of them is to exchange its strategy and the other one is not, and leaves
them alike just as well.
-/

namespace Dispatch

variable {α : Type}

namespace Pool

variable {p p' : Pool α}

/-! ## Recurring tasks -/

theorem Alike.submitEntry (h : p.Alike p') (hkept : p.Kept) (entry : RecurringEntry α) :
    (Recurring.submitEntry p' entry).2 = (Recurring.submitEntry p entry).2 ∧
      (Recurring.submitEntry p entry).1.Alike (Recurring.submitEntry p' entry).1 := by
  obtain ⟨hanswer, halike⟩ := h.submitAt hkept p.clock entry.submission
  unfold Recurring.submitEntry Pool.submit
  rw [h.clock_eq]
  generalize p.submitAt p.clock entry.submission = r at hanswer halike
  generalize p'.submitAt p.clock entry.submission = r' at hanswer halike
  obtain ⟨q, answer⟩ := r
  obtain ⟨q', answer'⟩ := r'
  obtain rfl : answer' = answer := hanswer
  cases answer' with
  | ok handle => exact ⟨rfl, halike⟩
  | error fault => exact ⟨rfl, halike.note _ _ _ _⟩

theorem Alike.submitAll (h : p.Alike p') (hkept : p.Kept) (entries : List (RecurringEntry α)) :
    (Recurring.submitAll p entries).1.Alike (Recurring.submitAll p' entries).1 := by
  induction entries generalizing p p' with
  | nil => exact h
  | cons entry rest ih =>
      have hreaches := (Engine.acts_submitEntry p entry).reaches h.queue.sound
      exact ih (h.submitEntry hkept entry).2 (hreaches.kept hkept)

end Pool

/-! ## The coordinator -/

namespace Engine

variable {e e' f f' : Engine α}

/-- Whether the coordinator has something to wait for: the settings of a started engine do. -/
structure Ticks (config : EngineConfig) : Prop where
  schedulerTickMs_pos : 0 < config.schedulerTickMs
  samplingIntervalMs_pos : 0 < config.adaptive.samplingIntervalMs

theorem Ticks.lt_nextWake {config : EngineConfig} (h : Ticks config) {now nextSample : Instant}
    (hsample : config.adaptive.enabled = true → now < nextSample) :
    now < Coordinator.nextWake config now nextSample := by
  have hsweep : now < now.after config.schedulerTick :=
    Instant.lt_after now (Nat.mul_pos h.schedulerTickMs_pos (by decide))
  unfold Coordinator.nextWake
  split
  · exact Int.lt_min.2 ⟨hsweep, hsample ‹_›⟩
  · exact hsweep

/-- This holds in particular if the next sample is an interval away. -/
theorem Ticks.lt_nextWake_after {config : EngineConfig} (h : Ticks config) (now : Instant) :
    now < Coordinator.nextWake config now (now.after config.adaptive.samplingInterval) := by
  apply h.lt_nextWake
  intro _
  exact Instant.lt_after now (Nat.mul_pos h.samplingIntervalMs_pos (by decide))

/-- What a coordinator does that wakes up: it submits what is due, and may take a sample then. -/
theorem coordinate_cases (e : Engine α) (c : Coordinator) :
    (e.config.adaptive.enabled && c.nextSample ≤ (e.submitDue e.clock).1.clock) = false ∧
        e.coordinate c = { (e.submitDue e.clock).1 with
          coordinator := some ⟨Coordinator.nextWake e.config (e.submitDue e.clock).1.clock
            c.nextSample, c.nextSample⟩
          record := e.record.addSweep e.clock } ∨
      (e.config.adaptive.enabled && c.nextSample ≤ (e.submitDue e.clock).1.clock) = true ∧
        ∃ pool, (e.submitDue e.clock).1.pool.Adjusts pool ∧
          e.coordinate c = { (e.submitDue e.clock).1 with
            selector := (e.selector.sampleQueue (e.submitDue e.clock).1.pool.queue
              (e.submitDue e.clock).1.clock).1
            pool := pool
            coordinator := some ⟨Coordinator.nextWake e.config pool.clock
              (pool.clock.after e.config.adaptive.samplingInterval),
              pool.clock.after e.config.adaptive.samplingInterval⟩
            record := (e.record.addSweep e.clock).addSample (e.submitDue e.clock).1.clock } := by
  let swept : Engine α := { (e.submitDue e.clock).1 with record := e.record.addSweep e.clock }
  obtain ⟨pool, hadjusts, heq⟩ := exists_sample_eq swept
  unfold coordinate
  cases hsample : e.config.adaptive.enabled && decide (c.nextSample ≤ swept.clock) with
  | false =>
      have hfalse : (swept.config.adaptive.enabled && decide (c.nextSample ≤ swept.clock)) = false :=
        hsample
      refine .inl ⟨hsample, ?_⟩
      simp only [swept] at hfalse
      simp only [hfalse]
      rfl
  | true =>
      have htrue : (swept.config.adaptive.enabled && decide (c.nextSample ≤ swept.clock)) = true :=
        hsample
      refine .inr ⟨hsample, pool, hadjusts, ?_⟩
      simp only [swept] at htrue heq
      simp only [htrue, heq, if_true]
      rfl

/-- A coordinator that has acted sleeps beyond the present instant. -/
theorem Ticks.awake_coordinate (h : Ticks e.config) (c : Coordinator) :
    ∀ c' ∈ (e.coordinate c).coordinator, (e.coordinate c).clock < c'.wakeAt := by
  intro c' hc'
  rcases coordinate_cases e c with ⟨hsample, heq⟩ | ⟨-, pool, -, heq⟩
  · rw [heq] at hc' ⊢
    obtain rfl := Option.some.inj hc'
    refine h.lt_nextWake fun henabled => ?_
    rw [henabled, Bool.true_and, decide_eq_false_iff_not, Int.not_le] at hsample
    exact hsample
  · rw [heq] at hc' ⊢
    obtain rfl := Option.some.inj hc'
    exact h.lt_nextWake_after _

/-- When everything is done, the coordinator sleeps beyond the present instant. -/
theorem Ticks.awake_settle (h : Ticks e.config) (hs : e.pool.queue.Sound e.pool.clock) :
    ∀ c ∈ e.settle.coordinator, e.settle.clock < c.wakeAt := by
  have hsettled := ((Pool.works_settle e.pool).reaches.grows hs).sound
  unfold settle
  simp only
  split
  · rename_i hnone
    intro c hc
    rw [hnone] at hc
    contradiction
  · rename_i c hcoordinator
    split
    · have hcoordinated :=
        (((acts_coordinate (e.mapPool .settle) c).reaches hsettled).grows hsettled).sound
      intro c' hc'
      rw [show (((e.mapPool .settle).coordinate c).mapPool .settle).clock =
        ((e.mapPool .settle).coordinate c).clock from Pool.clock_settle hcoordinated]
      exact Ticks.awake_coordinate (e := e.mapPool .settle) h c c' hc'
    · rename_i hlater
      intro c' hc'
      obtain rfl : c = c' := Option.some.inj (hcoordinator.symm.trans hc')
      exact Int.not_le.1 hlater

/-! ## Engines that are alike -/

/-- Whether two engines differ, as far as tasks are concerned, in the strategies of their pools only. -/
structure Alike (e e' : Engine α) : Prop where
  adaptive_eq : e'.config.adaptive = e.config.adaptive
  schedulerTickMs_eq : e'.config.schedulerTickMs = e.config.schedulerTickMs
  pool : e.pool.Alike e'.pool
  recurring_eq : e'.recurring = e.recurring
  coordinator_eq : e'.coordinator = e.coordinator

theorem Alike.clock_eq (h : e.Alike e') : e'.clock = e.clock := h.pool.clock_eq

theorem Alike.symm (h : e.Alike e') : e'.Alike e where
  adaptive_eq := h.adaptive_eq.symm
  schedulerTickMs_eq := h.schedulerTickMs_eq.symm
  pool := h.pool.symm
  recurring_eq := h.recurring_eq.symm
  coordinator_eq := h.coordinator_eq.symm

theorem Alike.nextWake_eq (h : e.Alike e') (now nextSample : Instant) :
    Coordinator.nextWake e'.config now nextSample = Coordinator.nextWake e.config now nextSample := by
  unfold Coordinator.nextWake EngineConfig.schedulerTick
  rw [h.adaptive_eq, h.schedulerTickMs_eq]

theorem Alike.submitDue (h : e.Alike e') (hkept : e.pool.Kept) (now : Instant) :
    (e.submitDue now).1.Alike (e'.submitDue now).1 := by
  refine { h with pool := ?_, recurring_eq := ?_ }
  · show (Recurring.submitAll e.pool _).1.Alike (Recurring.submitAll e'.pool _).1
    rw [h.recurring_eq]
    exact h.pool.submitAll hkept _
  · show (e'.recurring.sweep e'.pool now).1 = (e.recurring.sweep e.pool now).1
    unfold Recurring.sweep
    simp only [h.recurring_eq, h.pool.clock_eq]

/-- Coordinators that wake up at the same instant leave no trace of the samples that they take: one of
them may have had the strategy exchanged and the other one not. -/
theorem Alike.coordinate (h : e.Alike e') (hkept : e.pool.Kept) (hkept' : e'.pool.Kept)
    (ho : e.pool.Orderly) (ho' : e'.pool.Orderly) (c : Coordinator) :
    ((e.coordinate c).mapPool .settle).Alike ((e'.coordinate c).mapPool .settle) := by
  have hdue := h.submitDue hkept e.clock
  have hacts : e.pool.Acts (e.submitDue e.clock).1.pool := acts_submitAll e.pool _
  have hacts' : e'.pool.Acts (e'.submitDue e.clock).1.pool := acts_submitAll e'.pool _
  have hcases := coordinate_cases e c
  have hcases' := coordinate_cases e' c
  rw [h.clock_eq] at hcases'
  generalize (e.submitDue e.clock).1 = g at hdue hacts hcases
  generalize (e'.submitDue e.clock).1 = g' at hdue hacts' hcases'
  have hg := (hacts.reaches ho.sound).kept hkept
  have hg' := (hacts'.reaches ho'.sound).kept hkept'
  have hog := hacts.orderly ho
  have hog' := hacts'.orderly ho'
  -- either both coordinators take a sample or neither does
  have hsame : (e'.config.adaptive.enabled && decide (c.nextSample ≤ g'.clock)) =
      (e.config.adaptive.enabled && decide (c.nextSample ≤ g.clock)) := by
    rw [h.adaptive_eq, hdue.clock_eq]
  rw [hsame] at hcases'
  rcases hcases with ⟨hsample, heq⟩ | ⟨hsample, pool, hadjusts, heq⟩
  · obtain ⟨-, heq'⟩ := hcases'.resolve_right fun hother => by simp [hsample] at hother
    rw [heq, heq']
    refine { hdue with pool := hdue.pool.settle hog hog', coordinator_eq := ?_ }
    show some _ = some _
    rw [h.nextWake_eq, hdue.clock_eq]
  · obtain ⟨-, pool', hadjusts', heq'⟩ :=
      hcases'.resolve_left fun hother => by simp [hsample] at hother
    -- each pool is alike to what it would be without the sample
    have hleft := hadjusts.settle_alike hdue.pool.refl_left hg hog
    have hright := hadjusts'.settle_alike hdue.pool.symm.refl_left hg' hog'
    have hpools := hleft.symm.trans ((hdue.pool.settle hog hog').trans hright)
    have hpoolClock : pool'.clock = pool.clock := by
      rw [← Pool.clock_settle (hadjusts.acts.orderly hog).sound,
        ← Pool.clock_settle (hadjusts'.acts.orderly hog').sound]
      exact hpools.clock_eq
    rw [heq, heq']
    refine { hdue with pool := hpools, coordinator_eq := ?_ }
    show some _ = some _
    rw [h.nextWake_eq, h.adaptive_eq, hpoolClock]

theorem Alike.settle (h : e.Alike e') (hkept : e.pool.Kept) (hkept' : e'.pool.Kept)
    (ho : e.pool.Orderly) (ho' : e'.pool.Orderly) : e.settle.Alike e'.settle := by
  have hsettled : (e.mapPool .settle).Alike (e'.mapPool .settle) :=
    { h with pool := h.pool.settle ho ho' }
  have hworks := Pool.works_settle e.pool
  have hworks' := Pool.works_settle e'.pool
  unfold Engine.settle
  simp only
  rw [hsettled.coordinator_eq]
  split
  · exact hsettled
  · rename_i c _
    rw [hsettled.clock_eq]
    split
    · exact hsettled.coordinate (hworks.reaches.kept hkept) (hworks'.reaches.kept hkept')
        (hworks.orderly ho) (hworks'.orderly ho') c
    · exact hsettled

/-! ## Engines at rest -/

/-- Whether two engines have come to rest alike. -/
structure Twin (e e' : Engine α) : Prop extends Alike e e' where
  kept : e.pool.Kept
  kept' : e'.pool.Kept
  rested : e.pool.Rested
  rested' : e'.pool.Rested
  ticks : Ticks e.config
  awake : ∀ c ∈ e.coordinator, e.clock < c.wakeAt

theorem Twin.symm (h : Twin e e') : Twin e' e where
  toAlike := h.toAlike.symm
  kept := h.kept'
  kept' := h.kept
  rested := h.rested'
  rested' := h.rested
  ticks := ⟨h.schedulerTickMs_eq ▸ h.ticks.1, h.adaptive_eq ▸ h.ticks.2⟩
  awake := fun c hc => by
    rw [h.clock_eq]
    exact h.awake c (h.coordinator_eq ▸ hc)

theorem config_coordinate (e : Engine α) (c : Coordinator) : (e.coordinate c).config = e.config := by
  rcases coordinate_cases e c with ⟨-, heq⟩ | ⟨-, _, -, heq⟩
  · rw [heq]
    rfl
  · rw [heq]
    rfl

theorem config_settle (e : Engine α) : e.settle.config = e.config := by
  unfold settle
  simp only
  split
  · rfl
  · split
    · exact config_coordinate (e.mapPool .settle) _
    · rfl

/-- What is done to both engines, and done alike, leaves them at rest alike. -/
theorem Twin.request (h : Twin e e') (f f' : Engine α) (hacts : e.pool.Acts f.pool)
    (hacts' : e'.pool.Acts f'.pool) (hconfig : f.config = e.config) (halike : f.Alike f') :
    Twin f.settle f'.settle := by
  have hmove := Move.request hacts
  have hmove' := Move.request hacts'
  have hkept := (hacts.reaches h.rested.orderly.sound).kept h.kept
  have hkept' := (hacts'.reaches h.rested'.orderly.sound).kept h.kept'
  exact
    { toAlike := halike.settle hkept hkept' (hacts.orderly h.rested.orderly)
        (hacts'.orderly h.rested'.orderly)
      kept := (hmove.leadsTo h.rested.orderly.sound).kept h.kept
      kept' := (hmove'.leadsTo h.rested'.orderly.sound).kept h.kept'
      rested := hmove.rested h.rested
      rested' := hmove'.rested h.rested'
      ticks := by rw [config_settle, hconfig]; exact h.ticks
      awake := Ticks.awake_settle (hconfig ▸ h.ticks) hkept.balanced.sound }

/-- Nor is rest disturbed by anything that does not concern the pools. -/
theorem Twin.arrange (h : Twin e e') (halike : f.Alike f') (hpool : f.pool = e.pool)
    (hpool' : f'.pool = e'.pool) (hconfig : f.config = e.config)
    (hcoordinator : ∀ c ∈ f.coordinator, c ∈ e.coordinator) : Twin f f' where
  toAlike := halike
  kept := hpool ▸ h.kept
  kept' := hpool' ▸ h.kept'
  rested := hpool ▸ h.rested
  rested' := hpool' ▸ h.rested'
  ticks := hconfig ▸ h.ticks
  awake := fun c hc => by
    rw [show f.clock = e.clock from congrArg Pool.clock hpool]
    exact h.awake c (hcoordinator c hc)

theorem Twin.jump (h : Twin e e') (t : Instant) : Twin (e.jump t) (e'.jump t) := by
  have hle : e.pool.clock ≤ max e.pool.clock t := Int.le_max_left _ _
  have hle' : e'.pool.clock ≤ max e'.pool.clock t := Int.le_max_left _ _
  have hkept := (Pool.works_withClock hle).reaches.kept h.kept
  have hkept' := (Pool.works_withClock hle').reaches.kept h.kept'
  have ho := (Pool.works_withClock hle).orderly h.rested.orderly
  have ho' := (Pool.works_withClock hle').orderly h.rested'.orderly
  have halike : Alike (e.mapPool fun p => { p with clock := max p.clock t })
      (e'.mapPool fun p => { p with clock := max p.clock t }) := by
    refine { h.toAlike with pool := ?_ }
    show Pool.Alike { e.pool with clock := max e.pool.clock t }
      { e'.pool with clock := max e'.pool.clock t }
    rw [show max e'.pool.clock t = max e.pool.clock t by rw [h.pool.clock_eq]]
    exact h.pool.withClock hle
  exact
    { toAlike := halike.settle hkept hkept' ho ho'
      kept := (leadsTo_jump e t h.rested.orderly.sound).kept h.kept
      kept' := (leadsTo_jump e' t h.rested'.orderly.sound).kept h.kept'
      rested := (Move.jump e t).rested h.rested
      rested' := (Move.jump e' t).rested h.rested'
      ticks := by rw [Engine.jump, config_settle]; exact h.ticks
      awake := Ticks.awake_settle h.ticks hkept.balanced.sound }

theorem Twin.join (h : Twin e e') : Twin (e.mapPool .join) (e'.mapPool .join) where
  toAlike := { h.toAlike with pool := h.pool.join }
  kept := (Pool.reaches_join e.pool).kept h.kept
  kept' := (Pool.reaches_join e'.pool).kept h.kept'
  rested := Pool.rested_join h.rested
  rested' := Pool.rested_join h.rested'
  ticks := h.ticks
  awake := fun c hc => by
    rw [show (e.mapPool .join).clock = e.clock from Pool.clock_join e.pool]
    exact h.awake c hc

end Engine

end Dispatch
