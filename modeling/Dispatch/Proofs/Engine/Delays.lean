import Dispatch.Proofs.Engine.Starts
import Dispatch.Proofs.Recurring.Bookkeeping
/-!
# The longer of two delays

A delay leads to the instant that lies so far ahead, or to the instant a year ahead if that one cannot be
held. So the longer of two delays leads to the later instant, unless the shorter one is longer than a year
and the longer one is too long to be held. Tasks and recurring entries get ready in the order of these
instants.
-/

namespace Dispatch

variable {α : Type}

namespace Instant

variable {now t : Instant} {d d₁ d₂ : Duration}

/-- Where neither the instant that is asked for nor the one a year ahead can be held, there is none. -/
def after? (now : Instant) (d : Duration) : Option Instant := (now.add? d).or (now.add? farAhead)

/-- Whether the longer of two delays leads to an earlier instant than the shorter one. -/
structure Overtakes (now : Instant) (d₁ d₂ : Duration) : Prop where
  farAhead_lt : farAhead < d₁
  held : now + d₁ ≤ latest
  not_held : latest < now + d₂

theorem after_of_latest_lt (h : latest < now + d) : now.after d = now + farAhead := by
  rw [after, add?, if_neg (Int.not_le.2 h), Option.getD_none]

theorem after?_eq_some_iff : now.after? d = some t ↔ now.after d = t ∧ t ≤ latest := by
  have hadd {d : Duration} : now.add? d = some t ↔ now + d = t ∧ t ≤ latest := by
    unfold add?
    split
    · simp only [Option.some.injEq]
      exact ⟨fun heq => ⟨heq, heq ▸ ‹_›⟩, And.left⟩
    · exact iff_of_false (by simp) fun h => absurd (h.1 ▸ h.2) ‹_›
  by_cases hheld : now + d ≤ latest
  · have hsome : now.add? d = some (now + d) := if_pos hheld
    rw [after?, hsome, Option.some_or, ← hsome, hadd, after_eq hheld]
  · have hnone : now.add? d = none := if_neg hheld
    rw [after?, hnone, Option.none_or, hadd, after_of_latest_lt (Int.not_le.1 hheld)]

theorem after_le_after_iff (h : d₁ ≤ d₂) : now.after d₁ ≤ now.after d₂ ↔ ¬ now.Overtakes d₁ d₂ := by
  have hle : now + (d₁ : Int) ≤ now + d₂ := Int.add_le_add_left (by exact_mod_cast h) now
  by_cases hlong : now + d₂ ≤ latest
  · -- if the longer one can be held, the shorter one can be held too
    rw [after_eq (Int.le_trans hle hlong), after_eq hlong]
    exact iff_of_true hle fun hover => absurd hlong (Int.not_le.2 hover.not_held)
  · have hlost := Int.not_le.1 hlong
    rw [after_of_latest_lt hlost]
    by_cases hshort : now + d₁ ≤ latest
    · have hiff : now + (d₁ : Int) ≤ now + farAhead ↔ d₁ ≤ farAhead := by
        rw [Int.add_le_add_iff_left]
        exact Int.ofNat_le
      rw [after_eq hshort, hiff]
      exact ⟨fun hnear hover => absurd hover.farAhead_lt (Nat.not_lt.2 hnear),
        fun hnot => Nat.le_of_not_lt fun hfar => hnot ⟨hfar, hshort, hlost⟩⟩
    · rw [after_of_latest_lt (Int.not_le.1 hshort)]
      exact iff_of_true (Int.le_refl _) fun hover => hshort hover.held

/-- Of two instants, whatever has come by the later one has come by the earlier one just if they are in
this order. -/
theorem forall_le_iff {t u : Instant} : (∀ now : Instant, u ≤ now → t ≤ now) ↔ t ≤ u :=
  ⟨fun h => h u (Int.le_refl u), fun h _ hle => Int.le_trans h hle⟩

end Instant

/-! ## Recurring entries -/

namespace Recurring

variable {history : List (Call α)} {id : Identifier} {now : Instant} {interval : Duration}
  {entry : RecurringEntry α}

/-- Whether an entry is registered at some point of a history. -/
def Enters (history : List (Call α)) (now : Instant) (interval : Duration) (id : Identifier) : Prop :=
  ∃ later s earlier, history = later ++ .schedule now interval s :: earlier ∧
    ((after earlier).schedule now interval s).2 = .ok id

/-- An entry that has never been due is due for the first time after one interval. -/
theorem Enters.nextExecution_eq (h : Enters history now interval id)
    (hdistinct : (issued history).Nodup) (hfound : (after history).find? id = some entry)
    (hfired : entry.fired = 0) : entry.nextExecution = now.after interval := by
  obtain ⟨later, s, earlier, rfl, hok⟩ := h
  induction later generalizing entry with
  | nil =>
      rcases schedule_cases (after earlier) now interval s with heq | ⟨new, hnew, heq⟩
      · simp [heq] at hok
      · -- the identifier is that of the new entry
        have hid : new.id = id := by simpa [heq] using hok
        have hmem : new ∈ (after (.schedule now interval s :: earlier)).entries := by
          simp [after, make, heq]
        have hnewFound := find?_eq_some (nodup_map_id hdistinct) hmem
        rw [hid] at hnewFound
        obtain rfl := Option.some.inj (hnewFound.symm.trans hfound)
        exact hnew.nextExecution_eq
  | cons c later ih =>
      rw [List.cons_append] at hdistinct hfound
      have hrest : (issued (later ++ .schedule now interval s :: earlier)).Nodup :=
        List.Nodup.of_append_right hdistinct
      have hissued : id ∈ issued (later ++ .schedule now interval s :: earlier) := by
        refine (issued_suffix later _).subset (List.mem_append_left _ ?_)
        simp [handsOut?, hok, Except.toOption]
      change ((after (later ++ .schedule now interval s :: earlier)).make c).find? id = _ at hfound
      cases c with
      | schedule now' interval' s' =>
          rw [make, find?_schedule (handsOut?_ne hdistinct hissued)] at hfound
          exact ih hfired hrest hfound
      | cancel id' =>
          rw [make, find?_cancel, Option.map_eq_some_iff] at hfound
          obtain ⟨before, hbefore, rfl⟩ := hfound
          have hkeeps : before.fired = 0 → before.nextExecution = now.after interval :=
            fun hfired => ih hfired hrest hbefore
          by_cases hid : before.id = id'
          · rw [if_pos hid] at hfired ⊢
            exact hkeeps hfired
          · rw [if_neg hid] at hfired ⊢
            exact hkeeps hfired
      | sweep p now' =>
          rw [make, find?_sweep (nodup_map_id hrest), Option.map_eq_some_iff] at hfound
          obtain ⟨before, hbefore, rfl⟩ := hfound
          -- an entry that has not fired was not due
          rw [RecurringEntry.swept_fired] at hfired
          have hdue : before.isDue now' = false := by
            cases hdue : before.isDue now' with
            | false => rfl
            | true => simp [hdue] at hfired
          rw [RecurringEntry.swept_of_not_isDue hdue]
          exact ih (Nat.eq_zero_of_add_eq_zero_right hfired) hrest
            (Option.filter_eq_some_iff.1 hbefore).1
      | clear => contradiction

end Recurring

/-! ## Tasks -/

namespace Engine

variable {e : Engine α} {requests : List (Request α)} {clock : Instant} {delay : Duration} {id : Nat}

/-- Whether a task is accepted, at some point of a run, that gets ready after a delay. -/
def Delays (e : Engine α) (requests : List (Request α)) (clock : Instant) (delay : Duration)
    (id : Nat) : Prop :=
  ∃ before s later handle, requests = before ++ .schedule delay s :: later ∧
    (e.run before).clock = clock ∧ ((e.run before).schedule delay s).2 = .ok handle ∧ handle.id = id

theorem Delays.exists_accepted (h : e.Delays requests clock delay id) (hkept : e.pool.Kept) :
    ∃ t ∈ (e.run requests).pool.accepted, t.id = id ∧ t.readyAt = clock.after delay := by
  obtain ⟨before, s, later, handle, rfl, rfl, hok, rfl⟩ := h
  obtain ⟨haccepted, hid⟩ := Pool.accepted_submitAt hok
  have hrun := kept_run hkept before
  have hlater := reaches_submitAt hrun.balanced.sound ((e.run before).clock.after delay) s later
  have hsubmit := Pool.Step.submitAt (e.run before).pool ((e.run before).clock.after delay) s
  have hsound := (hsubmit.kept hrun).balanced.sound
  rw [run_append]
  exact ⟨_, (hlater.grows hsound).accepted_subset haccepted, hid.symm, rfl⟩

/-- Of two delays the longer one never leads to the earlier instant, unless it overtakes the shorter one:
so it is with the instants themselves; from the start of a pool or an engine on, with any two tasks that
were accepted with these delays at the same instant; and with any two recurring entries that were
registered with these intervals at the same instant and have not been due yet. -/
theorem run_ordersDelays (config : EngineConfig) (around : Surroundings) (now : Instant)
    (log : LogBook) (e : Engine α)
    (h : startPool config around now log = .ok e ∨ start config around now log = .ok e)
    (d₁ d₂ : Duration) (hle : d₁ ≤ d₂) :
    (∀ clock t₁ t₂ : Instant, clock.after? d₁ = some t₁ → clock.after? d₂ = some t₂ →
      (t₁ ≤ t₂ ↔ ¬ clock.Overtakes d₁ d₂)) ∧
    (∀ requests clock id₁ id₂, e.Delays requests clock d₁ id₁ → e.Delays requests clock d₂ id₂ →
      ∃ t₁ ∈ (e.run requests).pool.accepted, ∃ t₂ ∈ (e.run requests).pool.accepted,
        t₁.id = id₁ ∧ t₂.id = id₂ ∧
        ((∀ now, t₂.isReady now = true → t₁.isReady now = true) ↔ ¬ clock.Overtakes d₁ d₂)) ∧
    ∀ (history : List (Recurring.Call α)) (clock : Instant) (id₁ id₂ : Identifier)
      (entry₁ entry₂ : RecurringEntry α), (Recurring.issued history).Nodup →
      Recurring.Enters history clock d₁ id₁ → Recurring.Enters history clock d₂ id₂ →
      (Recurring.after history).find? id₁ = some entry₁ → entry₁.fired = 0 →
      (Recurring.after history).find? id₂ = some entry₂ → entry₂.fired = 0 →
      ((∀ now, entry₂.isDue now = true → entry₁.isDue now = true) ↔ ¬ clock.Overtakes d₁ d₂) := by
  have hkept := Pool.kept_of_start (start_pool h)
  refine ⟨fun clock t₁ t₂ h₁ h₂ => ?_, fun requests clock id₁ id₂ h₁ h₂ => ?_, ?_⟩
  · obtain ⟨rfl, -⟩ := Instant.after?_eq_some_iff.1 h₁
    obtain ⟨rfl, -⟩ := Instant.after?_eq_some_iff.1 h₂
    exact Instant.after_le_after_iff hle
  · obtain ⟨t₁, haccepted₁, hid₁, hready₁⟩ := h₁.exists_accepted hkept
    obtain ⟨t₂, haccepted₂, hid₂, hready₂⟩ := h₂.exists_accepted hkept
    refine ⟨t₁, haccepted₁, t₂, haccepted₂, hid₁, hid₂, ?_⟩
    simp only [Task.isReady_iff]
    rw [Instant.forall_le_iff, hready₁, hready₂]
    exact Instant.after_le_after_iff hle
  · intro history clock id₁ id₂ entry₁ entry₂ hdistinct h₁ h₂ hfound₁ hfired₁ hfound₂ hfired₂
    have hdue₁ := h₁.nextExecution_eq hdistinct hfound₁ hfired₁
    have hdue₂ := h₂.nextExecution_eq hdistinct hfound₂ hfired₂
    simp only [RecurringEntry.isDue, decide_eq_true_eq]
    rw [Instant.forall_le_iff, hdue₁, hdue₂]
    exact Instant.after_le_after_iff hle

def twoYears : Duration := 2 * Instant.farAhead

/-- A task is to run in two years, and another one as late as can be asked for. -/
def distantRequests : List (Request Nat) :=
  [.schedule twoYears lateSubmission, .schedule Duration.longest lateSubmission]

/-- Two entries with these intervals. -/
def distantHistory : List (Recurring.Call Nat) :=
  [.schedule 0 Duration.longest Recurring.pulse, .schedule 0 twoYears Recurring.pulse]

/-- The later delay is too long to be held, so that its task gets ready after one year. -/
theorem distantRequests_overtakes : twoYears ≤ Duration.longest ∧
    ¬ (0 : Instant).after twoYears ≤ (0 : Instant).after Duration.longest ∧
    ((ofPool soloConfig soloPool none).run distantRequests).pool.accepted.map
      (fun t => (t.id, t.readyAt)) = [(2, (Instant.farAhead : Int)), (1, (twoYears : Int))] ∧
    (Recurring.after distantHistory).entries.map (·.nextExecution) =
      [(twoYears : Int), (Instant.farAhead : Int)] := by
  decide +kernel

theorem distantRequests_ordersDelays :
    (startPool soloConfig {} 0 ⟨0, []⟩ = .ok (ofPool soloConfig soloPool none) ∨
        start soloConfig {} 0 ⟨0, []⟩ = .ok (ofPool soloConfig soloPool none)) ∧
      twoYears ≤ Duration.longest ∧ (0 : Instant).Overtakes twoYears Duration.longest ∧
      (∃ t₁ ∈ ((ofPool soloConfig soloPool none).run distantRequests).pool.accepted,
        ∃ t₂ ∈ ((ofPool soloConfig soloPool none).run distantRequests).pool.accepted,
        t₁.id = 1 ∧ t₂.id = 2 ∧
        ((∀ now, t₂.isReady now = true → t₁.isReady now = true) ↔
          ¬ (0 : Instant).Overtakes twoYears Duration.longest)) ∧
      ∃ entry₁ entry₂, (Recurring.after distantHistory).find? (.numbered 0) = some entry₁ ∧
        (Recurring.after distantHistory).find? (.numbered 1) = some entry₂ ∧
        ((∀ now, entry₂.isDue now = true → entry₁.isDue now = true) ↔
          ¬ (0 : Instant).Overtakes twoYears Duration.longest) := by
  have hstart : startPool soloConfig {} 0 ⟨0, []⟩ = .ok (ofPool soloConfig soloPool none) :=
    startPool_of_start start_soloPool
  have hle : twoYears ≤ Duration.longest := by decide
  have hfirst : (ofPool soloConfig soloPool none).Delays distantRequests 0 twoYears 1 :=
    ⟨[], lateSubmission, _, ⟨1, none, false⟩, rfl, by decide +kernel, by decide +kernel, rfl⟩
  have hsecond : (ofPool soloConfig soloPool none).Delays distantRequests 0 Duration.longest 2 :=
    ⟨[.schedule twoYears lateSubmission], lateSubmission, [], ⟨2, none, false⟩, rfl,
      by decide +kernel, by decide +kernel, rfl⟩
  have hlong : Recurring.Enters distantHistory 0 Duration.longest (.numbered 1) :=
    ⟨[], Recurring.pulse, _, rfl, by decide⟩
  have hshort : Recurring.Enters distantHistory 0 twoYears (.numbered 0) :=
    ⟨[.schedule 0 Duration.longest Recurring.pulse], Recurring.pulse, [], rfl, by decide⟩
  have h := run_ordersDelays soloConfig {} 0 ⟨0, []⟩ _ (.inl hstart) twoYears Duration.longest hle
  exact ⟨.inl hstart, hle, ⟨by decide, by decide, by decide⟩, h.2.1 _ _ _ _ hfirst hsecond, _, _,
    rfl, rfl, h.2.2 distantHistory 0 _ _ _ _ (by decide) hshort hlong rfl rfl rfl rfl⟩

end Engine

end Dispatch
