import Dispatch.Proofs.Engine.Alike
import Dispatch.Proofs.Pool.Circuit
import Dispatch.Proofs.Recurring.Grid
/-!
# The wake-ups of the coordinator

Whatever callers do meanwhile, the coordinator sleeps from one wake-up to the next, and the next one
comes within a tick, whether it is there for a sweep or for a sample. The clock stops at each of them. So
the recurring tasks are as the last sweep has left them, but for what callers do to them, until the next
sweep comes.
-/

namespace Dispatch

variable {α : Type}

namespace Pool

variable {p q r : Pool α}

/-! ## What is done without a submission -/

/-- Whether a pool comes of another one while no time passes and nothing is submitted. -/
structure Unasked (p q : Pool α) : Prop where
  sound : q.queue.Sound q.clock
  clock_eq : q.clock = p.clock
  answers_eq : q.answers = p.answers

theorem Unasked.refl (hs : p.queue.Sound p.clock) : p.Unasked p := ⟨hs, rfl, rfl⟩

theorem Unasked.trans (h : p.Unasked q) (h' : q.Unasked r) : p.Unasked r :=
  ⟨h'.sound, h'.clock_eq.trans h.clock_eq, h'.answers_eq.trans h.answers_eq⟩

theorem Unasked.turnAt (h : p.Unasked q) (index : Nat) : p.Unasked (q.turnAt index) where
  sound := (carries_turnAt h.sound index).sound
  clock_eq := (clock_turnAt h.sound index).trans h.clock_eq
  answers_eq := (answers_turnAt h.sound index).trans h.answers_eq

theorem unasked_settle (hs : p.queue.Sound p.clock) : p.Unasked p.settle :=
  keeps_settle (fun _ index h => h.turnAt index) (.refl hs)

theorem unasked_rouse (hs : p.queue.Sound p.clock) : p.Unasked p.rouse :=
  keeps_rouse (fun _ index h => h.turnAt index) (.refl hs)

theorem unasked_switch (hs : p.queue.Sound p.clock) (kind : StrategyKind) :
    p.Unasked (p.switch kind).1 := by
  have hsound := ((reaches_switch hs kind).grows hs).sound
  have hroused := unasked_rouse (p := { p with queue := p.queue.interrupt }) hs.interrupt.sound
  unfold switch at hsound ⊢
  split
  · rename_i hcan
    rw [if_pos hcan] at hsound
    exact ⟨hsound, hroused.clock_eq, hroused.answers_eq⟩
  · exact .refl hs

theorem Adjust.unasked (h : Adjust p q) (hs : p.queue.Sound p.clock) : p.Unasked q := by
  have hsound := ((h.act.reaches hs).grows hs).sound
  cases h with
  | note level message => exact ⟨hsound, rfl, rfl⟩
  | sample c => exact ⟨hsound, rfl, rfl⟩
  | switch kind => exact unasked_switch hs kind

theorem Adjusts.unasked (h : p.Adjusts q) (hs : p.queue.Sound p.clock) : p.Unasked q := by
  induction h with
  | refl => exact .refl hs
  | tail _ hlast ih => exact ih.trans (hlast.unasked ih.sound)

/-! ## What is done takes no time -/

theorem clock_close (hs : p.queue.Sound p.clock) (graceful : Bool) :
    (p.close graceful).clock = p.clock := by
  have hroused := unasked_rouse (p := { p with queue := p.queue.shut, accepting := false })
    hs.shut.sound
  unfold close closeQueue
  split
  · split
    · rfl
    · exact (cancelRemoved_clock _).trans hroused.clock_eq
  · rfl

theorem Act.clock_eq (h : Act p q) (hs : p.queue.Sound p.clock) : q.clock = p.clock := by
  cases h with
  | submitAt readyAt s => exact (submits_submitAt p readyAt s).clock_eq
  | switch kind => exact (unasked_switch hs kind).clock_eq
  | close graceful => exact clock_close hs graceful
  | abandon =>
      unfold Pool.abandon
      split
      · exact clock_close hs false
      · rfl
  | _ => rfl

theorem Acts.clock_eq (h : p.Acts q) (hs : p.queue.Sound p.clock) : q.clock = p.clock := by
  induction h with
  | refl => rfl
  | tail hfirst hlast ih =>
      exact (hlast.clock_eq ((Acts.reaches hs hfirst).grows hs).sound).trans ih

end Pool

namespace Engine

variable {e e' e'' : Engine α}

theorem clock_settle (hs : e.pool.queue.Sound e.clock) : e.settle.clock = e.clock := by
  have hsettled := Pool.unasked_settle hs
  rcases settle_cases e with heq | ⟨pool, hacts, heq⟩
  · exact (congrArg Pool.clock heq).trans hsettled.clock_eq
  · have hpool := ((hacts.reaches hsettled.sound).grows hsettled.sound).sound
    calc e.settle.clock = pool.settle.clock := congrArg Pool.clock heq
      _ = pool.clock := Pool.clock_settle hpool
      _ = e.pool.settle.clock := hacts.clock_eq hsettled.sound
      _ = e.clock := hsettled.clock_eq

/-! ## A sweep of the coordinator -/

/-- Whether the coordinator of an engine has swept the recurring tasks at the present instant, and
sleeps now until the next sweep or sample. -/
structure Sweeps (e e' : Engine α) : Prop where
  clock_eq : e'.clock = e.clock
  entries_eq : e'.recurring.entries =
    (e.recurring.entries.filter (!·.cancelled)).map (·.swept e.clock e.clock)
  /-- The entries that are due have one submission attempted each, and nothing else is submitted. -/
  attempted : ∃ attempts,
    List.Forall₂ (fun entry attempt => entry.Asks e.clock attempt.1)
      ((e.recurring.entries.filter (!·.cancelled)).filter (·.isDue e.clock)) attempts ∧
    e'.pool.answers = attempts.reverse ++ e.pool.answers
  wakes : ∃ c, e'.coordinator = some c ∧ c.wakeAt ≤ e.clock.after e.config.schedulerTick

/-- Whether the engine samples or not, it wakes up within a tick. -/
theorem nextWake_le (config : EngineConfig) (now nextSample : Instant) :
    Coordinator.nextWake config now nextSample ≤ now.after config.schedulerTick := by
  unfold Coordinator.nextWake
  split
  · exact Int.min_le_left _ _
  · exact Int.le_refl _

theorem sweeps_coordinate (hs : e.pool.queue.Sound e.clock) (c : Coordinator) :
    Sweeps e ((e.coordinate c).mapPool .settle) := by
  obtain ⟨attempts, hattempted⟩ := Recurring.exists_submitAll_attempted e.pool
    ((e.recurring.entries.filter (!·.cancelled)).filter (·.isDue e.clock))
  have hclock : (e.submitDue e.clock).1.pool.clock = e.clock := hattempted.clock_eq
  have hacts : e.pool.Acts (e.submitDue e.clock).1.pool := acts_submitAll e.pool _
  have hdue := ((hacts.reaches hs).grows hs).sound
  rcases coordinate_cases e c with ⟨-, heq⟩ | ⟨-, pool, hadjusts, heq⟩
  · have hsettled := Pool.unasked_settle hdue
    rw [heq]
    refine ⟨hsettled.clock_eq.trans hclock, rfl, ⟨attempts, hattempted.asks, ?_⟩, _, rfl, ?_⟩
    · exact hsettled.answers_eq.trans hattempted.answers_eq
    · exact (nextWake_le _ _ _).trans_eq (congrArg (Instant.after · _) hclock)
  · have hadjusted := hadjusts.unasked hdue
    have hsettled := hadjusted.trans (Pool.unasked_settle hadjusted.sound)
    rw [heq]
    refine ⟨hsettled.clock_eq.trans hclock, rfl, ⟨attempts, hattempted.asks, ?_⟩, _, rfl, ?_⟩
    · exact hsettled.answers_eq.trans hattempted.answers_eq
    · have hpool : pool.clock = e.clock := hadjusted.clock_eq.trans hclock
      exact (nextWake_le _ _ _).trans_eq (congrArg (Instant.after · _) hpool)

/-- As long as the coordinator sleeps, only the workers do something. -/
theorem settle_of_asleep (hs : e.pool.queue.Sound e.clock)
    (h : ∀ c ∈ e.coordinator, e.clock < c.wakeAt) : e.settle = e.mapPool .settle := by
  have hclock : (e.mapPool .settle).clock = e.clock := Pool.clock_settle hs
  unfold settle
  simp only
  split
  · rfl
  · rename_i c hc
    rw [if_neg]
    rw [hclock]
    exact Int.not_le.2 (h c hc)

/-- When it wakes up, it acts, and the workers go on. -/
theorem settle_of_awake (hs : e.pool.queue.Sound e.clock) {c : Coordinator}
    (hc : e.coordinator = some c) (hdue : c.wakeAt ≤ e.clock) :
    e.settle = ((e.mapPool .settle).coordinate c).mapPool .settle := by
  have hclock : (e.mapPool .settle).clock = e.clock := Pool.clock_settle hs
  have hcoordinator : (e.mapPool .settle).coordinator = some c := hc
  unfold settle
  simp only [hcoordinator, hclock, if_pos hdue]

/-- When the coordinator wakes up, it sweeps the recurring tasks. -/
theorem sweeps_settle (hs : e.pool.queue.Sound e.clock) {c : Coordinator}
    (hc : e.coordinator = some c) (hdue : c.wakeAt ≤ e.clock) : Sweeps e e.settle := by
  have hsettled := Pool.unasked_settle hs
  have hsweeps := sweeps_coordinate (e := e.mapPool .settle) hsettled.sound c
  have hclock : (e.mapPool .settle).clock = e.clock := hsettled.clock_eq
  obtain ⟨attempts, hasks, hanswers⟩ := hsweeps.attempted
  rw [hclock] at hasks
  rw [settle_of_awake hs hc hdue]
  refine ⟨hsweeps.clock_eq.trans hclock, ?_, ⟨attempts, hasks, ?_⟩, ?_⟩
  · rw [hsweeps.entries_eq, hclock]
    rfl
  · rw [hanswers]
    exact congrArg _ hsettled.answers_eq
  · rw [← hclock]
    exact hsweeps.wakes

/-! ## From one wake-up to the next -/

/-- What holds of the recurring tasks after a sweep holds until the next sweep, and is made to hold anew
then. -/
structure Lasting (config : EngineConfig) (watched : Option Identifier)
    (P : Instant → List (RecurringEntry α) → Prop) : Prop where
  leaves : ∀ {swept entries entries'}, P swept entries →
    (∀ id ∈ watched, ∀ entry ∈ entries, entry.id = id → entry ∈ entries') → P swept entries'
  sweeps : ∀ {swept now : Instant} {entries}, P swept entries → swept ≤ now →
    (swept + config.schedulerTick ≤ Instant.latest → now ≤ swept + config.schedulerTick) →
    P now ((entries.filter (!·.cancelled)).map (·.swept now now))

/-- Whether the coordinator, as long as there is one, wakes up within a tick of its last sweep, since
which something holds of the recurring tasks. -/
structure Paced (config : EngineConfig) (P : Instant → List (RecurringEntry α) → Prop)
    (e : Engine α) : Prop where
  config_eq : e.config = config
  sound : e.pool.queue.Sound e.clock
  sleeps : ∀ c ∈ e.coordinator, e.clock ≤ c.wakeAt ∧ ∃ swept, swept ≤ e.clock ∧
    (swept + config.schedulerTick ≤ Instant.latest → c.wakeAt ≤ swept + config.schedulerTick) ∧
    P swept e.recurring.entries

variable {config : EngineConfig} {watched : Option Identifier}
  {P : Instant → List (RecurringEntry α) → Prop}

theorem Paced.settle (h : e.Paced config P) (hticks : Ticks config)
    (hlasting : Lasting config watched P) : e.settle.Paced config P := by
  have hsound := (leadsTo_settle e h.sound).grows h.sound |>.sound
  have hconfig := (config_settle e).trans h.config_eq
  refine ⟨hconfig, hsound, ?_⟩
  intro c' hc'
  have hawake := Ticks.awake_settle (h.config_eq ▸ hticks) h.sound c' hc'
  refine ⟨Int.le_of_lt hawake, ?_⟩
  by_cases hasleep : ∀ c ∈ e.coordinator, e.clock < c.wakeAt
  · -- the coordinator sleeps on
    have hsettle := settle_of_asleep h.sound hasleep
    rw [hsettle] at hc' ⊢
    rw [show (e.mapPool .settle).clock = e.clock from Pool.clock_settle h.sound]
    exact (h.sleeps c' hc').2
  · push Not at hasleep
    obtain ⟨c, hc, hdue⟩ := hasleep
    have hsweeps := sweeps_settle h.sound hc hdue
    obtain ⟨hle, swept, hswept, hbound, hP⟩ := h.sleeps c hc
    obtain ⟨c'', hc'', hnext⟩ := hsweeps.wakes
    obtain rfl : c'' = c' := Option.some.inj (hc''.symm.trans hc')
    rw [hsweeps.clock_eq, hsweeps.entries_eq]
    refine ⟨e.clock, Int.le_refl _, ?_, ?_⟩
    · intro hlatest
      rw [h.config_eq, Instant.after_eq hlatest] at hnext
      exact hnext
    · exact hlasting.sweeps hP hswept fun hlatest => Int.le_trans hle (hbound hlatest)

theorem Paced.leaves (h : e.Paced config P) (hlasting : Lasting config watched P)
    (hleaves : e.Leaves watched e') (hclock : e'.clock = e.clock)
    (hsound : e'.pool.queue.Sound e'.clock) : e'.Paced config P := by
  refine ⟨hleaves.config_eq.trans h.config_eq, hsound, ?_⟩
  intro c hc
  obtain ⟨hbefore, hentries⟩ := hleaves.coordinator c hc
  obtain ⟨hle, swept, hswept, hbound, hP⟩ := h.sleeps c hbefore
  rw [hclock]
  exact ⟨hle, swept, hswept, hbound, hlasting.leaves hP hentries⟩

/-- The next thing that happens by itself is not later than the wake-up of the coordinator. -/
theorem exists_nextWake_le {c : Coordinator} (hc : e.coordinator = some c) :
    ∃ wake, e.nextWake = some wake ∧ wake ≤ c.wakeAt := by
  rw [nextWake, hc]
  cases e.pool.nextWake with
  | none => exact ⟨_, rfl, Int.le_refl _⟩
  | some t => exact ⟨_, rfl, Int.min_le_right _ _⟩

theorem Paced.jump (h : e.Paced config P) (hticks : Ticks config)
    (hlasting : Lasting config watched P) {t : Instant} (hwake : ∀ wake ∈ e.nextWake, t ≤ wake) :
    (e.jump t).Paced config P := by
  have hle : e.clock ≤ max e.clock t := Int.le_max_left _ _
  refine Paced.settle ⟨h.config_eq, h.sound.mono hle, ?_⟩ hticks hlasting
  intro c hc
  obtain ⟨hclock, swept, hswept, hbound, hP⟩ := h.sleeps c hc
  obtain ⟨wake, hnext, hbefore⟩ := exists_nextWake_le hc
  exact ⟨Int.max_le.2 ⟨hclock, Int.le_trans (hwake wake hnext) hbefore⟩, swept,
    Int.le_trans hswept hle, hbound, hP⟩

theorem Pace.paced (hpace : Pace watched e e') (hticks : Ticks config)
    (hlasting : Lasting config watched P) (h : e.Paced config P) : e'.Paced config P := by
  cases hpace with
  | @request done hacts hleaves =>
      have hsound := ((hacts.reaches h.sound).grows h.sound).sound
      exact (h.leaves hlasting hleaves (hacts.clock_eq h.sound) hsound).settle hticks hlasting
  | arrange hpool hleaves =>
      refine h.leaves hlasting hleaves (congrArg Pool.clock hpool) ?_
      rw [clock, hpool]
      exact h.sound
  | jump t hwake => exact h.jump hticks hlasting hwake
  | join =>
      refine h.leaves hlasting (leaves_of_eq rfl rfl rfl rfl rfl) (Pool.clock_join e.pool) ?_
      exact ((Pool.reaches_join e.pool).grows h.sound).sound

theorem Paces.paced (h : Paces watched e e') (hticks : Ticks config)
    (hlasting : Lasting config watched P) (hpaced : e.Paced config P) : e'.Paced config P := by
  induction h with
  | refl => exact hpaced
  | tail _ hlast ih => exact hlast.paced hticks hlasting ih

end Engine

end Dispatch
