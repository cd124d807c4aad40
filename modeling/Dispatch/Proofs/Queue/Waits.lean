import Dispatch.Proofs.Queue.Alike
import Dispatch.Proofs.Queue.Calls
import Dispatch.Proofs.Queue.Dealing
/-!
# When waits end

A wait of a worker that may take every ready task takes one as soon as one is at hand: at once, or else at
the ready instant of the soonest task. Where that lies beyond the deadline, the wait ends at the deadline,
to the instant. No wait takes more than two looks, and only one that nothing can end is endless.
-/

namespace Dispatch

variable {β : Type} {now later : Instant}

/-- The earlier of two instants is not after either of them. -/
theorem Instant.earliest?_le {a b : Option Instant} {wake : Instant}
    (h : Instant.earliest? a b = some wake) : (∀ d ∈ a, wake ≤ d) ∧ ∀ d ∈ b, wake ≤ d := by
  cases a with
  | none =>
      obtain rfl : b = some wake := h
      simp
  | some a =>
      cases b with
      | none =>
          obtain rfl := Option.some.inj h
          simp
      | some b =>
          obtain rfl := Option.some.inj h
          simp

theorem Instant.earliest?_eq_none {a b : Option Instant} (h : Instant.earliest? a b = none) :
    a = none ∧ b = none := by
  cases a <;> cases b <;> simp_all [Instant.earliest?]

/-! ## Looks that come upon nothing -/

theorem Locked.Sound.attempt_eq_self {q : Locked β} (hs : q.Sound later) (hle : now ≤ later)
    (hnil : (Strategy.locked q).atHand now = []) : q.attempt now = (q, none) := by
  have hnone : (q.attempt now).2 = none := (hs.isFirst_attempt hle).eq_none_iff.2 hnil
  have hdelayed : (q.promote now).delayed = q.delayed := by
    rw [hs.promote_delayed, List.filter_eq_self]
    intro t ht
    simpa using List.filter_eq_nil_iff.1 (List.append_eq_nil_iff.1 hnil).2 t ht
  have hself := promote_eq_self (congrArg List.length hdelayed)
  exact Prod.ext ((attempt_fst_of_none hnone).trans hself) hnone

theorem Sharded.Sound.tryPop_eq_record {q : Sharded β} (hs : q.Sound later) (hle : now ≤ later)
    (hnil : (Strategy.sharded q).atHand now = []) (worker : Nat) :
    ∃ n, q.tryPop worker now = (q.record n, none) := by
  have hnone := hs.tryPop_eq_none_of_atHand hle hnil worker
  have hp := (hs.promote_of_le hle worker).1
  have hdue : (q.takeDue now).2 = [] := by
    show q.delayed.takeWhile (·.isReady now) = []
    rw [(Task.takeWhile_isReady hs.delayed_ordered now).1]
    exact (List.append_eq_nil_iff.1 hnil).2
  obtain ⟨n, hrecord⟩ := Sharded.promote_eq_record hdue worker
  exact ⟨n, Prod.ext (((hp.popFirst _).2 hnone).1.trans hrecord) hnone⟩

/-! ## What a worker picks -/

namespace Strategy

variable {s s' : Strategy β} {worker : Nat} {deadline : Option Instant} {t : Task β}

/-- Whether every worker may take every ready task, from wherever it is. -/
def IsOpen (s : Strategy β) : Prop := s.isShared = true ∨ s.Undivided

/-- Whether a task is the one that a worker takes at an instant: the first one of all at hand, or of those
in the first shard on its way that has one. -/
def IsPick (worker : Nat) (now : Instant) (t : Task β) : Strategy β → Prop
  | locked q => Task.IsFirst ((locked q).atHand now) (some t)
  | sharded q => q.IsPick worker now t

theorem IsPick.isFirst (h : s.IsPick worker now t) (hone : s.Undivided) :
    Task.IsFirst (s.atHand now) (some t) := by
  cases s with
  | locked q => exact h
  | sharded q => exact Sharded.IsPick.isFirst h (hone _ rfl)

theorem isPick_bare : s.bare.IsPick worker now t ↔ s.IsPick worker now t := by
  cases s <;> exact Iff.rfl

@[simp] theorem atHand_bare (now : Instant) (s : Strategy β) : s.bare.atHand now = s.atHand now := by
  cases s <;> rfl

@[simp] theorem nextReadyAt_bare (s : Strategy β) : s.bare.nextReadyAt = s.nextReadyAt := by
  cases s <;> rfl

@[simp] theorem shape_bare (s : Strategy β) : s.bare.shape = s.shape := by
  cases s <;> rfl

section Bare

variable (h : s'.bare = s.bare)
include h

theorem isInterrupted_eq_of_bare : s'.isInterrupted = s.isInterrupted := by
  rw [← isInterrupted_bare, h, isInterrupted_bare]

theorem atHand_eq_of_bare (now : Instant) : s'.atHand now = s.atHand now := by
  rw [← atHand_bare, h, atHand_bare]

theorem nextReadyAt_eq_of_bare : s'.nextReadyAt = s.nextReadyAt := by
  rw [← nextReadyAt_bare, h, nextReadyAt_bare]

theorem shape_eq_of_bare : s'.shape = s.shape := by
  rw [← shape_bare, h, shape_bare]

end Bare

theorem IsOpen.of_shape_eq (h : s.IsOpen) (heq : s'.shape = s.shape) : s'.IsOpen := by
  unfold IsOpen isShared at *
  rw [heq]
  exact h.imp_right fun hone => hone.of_shape_eq heq

theorem IsOpen.reach_eq {q : Sharded β} (h : (sharded q).IsOpen) : q.reach = q.shards.length :=
  Sharded.reach_eq_of_stealing (h.imp id fun hone => hone _ rfl)

/-- A look that comes upon nothing finds nothing, and changes nothing but counts. -/
theorem Sound.attempt_of_atHand_eq_nil (hs : s.Sound later) (hle : now ≤ later)
    (hnil : s.atHand now = []) (worker : Nat) :
    ∃ s', s.attempt worker now = (s', none) ∧ s'.bare = s.bare := by
  cases s with
  | locked q =>
      have hlook := Locked.Sound.attempt_eq_self hs hle hnil
      exact ⟨locked q, by simp [Strategy.attempt, hlook], rfl⟩
  | sharded q =>
      obtain ⟨n, hfirst⟩ := Sharded.Sound.tryPop_eq_record hs hle hnil worker
      rcases attempt_sharded_cases q worker now with heq | ⟨q', hlook, -, heq⟩
      · refine ⟨sharded (q.record n), ?_, rfl⟩
        rw [heq, hfirst]
        rfl
      · -- the second look comes upon nothing either
        obtain rfl : q.record n = q' := congrArg Prod.fst (hfirst.symm.trans hlook)
        obtain ⟨m, hsecond⟩ :=
          Sharded.Sound.tryPop_eq_record (Sharded.Sound.record hs n) hle hnil worker
        refine ⟨sharded ((q.record n).record m), ?_, rfl⟩
        rw [heq, hsecond]
        rfl

/-- A look of a worker that may take every ready task takes its pick of what is at hand. -/
theorem Sound.attempt_of_atHand_ne_nil (hs : s.Sound later) (hle : now ≤ later) (hopen : s.IsOpen)
    (hne : s.atHand now ≠ []) (worker : Nat) :
    ∃ s' t, s.attempt worker now = (s', some t) ∧ s.IsPick worker now t := by
  cases s with
  | locked q =>
      have hfirst := Locked.Sound.isFirst_attempt hs hle
      cases hlook : q.attempt now with
      | mk q' found =>
          rw [hlook] at hfirst
          cases found with
          | none => exact absurd (hfirst.eq_none_iff.1 rfl) hne
          | some t => exact ⟨locked q', t, by simp [Strategy.attempt, hlook], hfirst⟩
  | sharded q =>
      have hnone := Sharded.Sound.tryPop_eq_none_iff hs hle hopen.reach_eq worker
      cases hlook : q.tryPop worker now with
      | mk q' found =>
          rw [hlook] at hnone
          cases found with
          | none => exact absurd (hnone.1 rfl) hne
          | some t =>
              have hpick := Sharded.Sound.isPick_tryPop hs hle (congrArg Prod.snd hlook)
              exact ⟨sharded q', t, by simp [Strategy.attempt, hlook], hpick⟩

/-- Where nothing is at hand, nothing that is held was moved to the ready tasks. -/
theorem atHand_eq_filter_of_nil (hnil : s.atHand now = []) (wake : Instant) :
    s.atHand wake = s.tasks.filter (·.readyAt ≤ wake) := by
  cases s with
  | locked q =>
      have hready : q.ready = [] := (List.append_eq_nil_iff.1 hnil).1
      simp only [atHand, tasks, Locked.tasks, hready, List.nil_append]
      rfl
  | sharded q =>
      have hready : q.readyTasks = [] := (List.append_eq_nil_iff.1 hnil).1
      simp only [atHand, tasks, Sharded.tasks_eq, hready, List.nil_append]
      rfl

theorem atHand_eq_nil_of_tasks (h : s.tasks = []) (now : Instant) : s.atHand now = [] := by
  have hsplit := tasks_perm_atHand now s
  rw [h] at hsplit
  exact (List.append_eq_nil_iff.1 (List.nil_perm.1 hsplit)).1

/-! ## The last look -/

/-- How a wait ends with a look at an instant. -/
structure LastLook (worker : Nat) (now : Instant) (s : Strategy β) (r : Instant × Wait β) : Prop where
  taken : s.atHand now ≠ [] → ∃ t, r = (now, .task t) ∧ s.IsPick worker now t
  givenUp : s.atHand now = [] → s.isInterrupted = true → r = (now, .interrupted)
  timedOut : s.atHand now = [] → s.isInterrupted = false → r = (now, .timedOut)

/-- What a look finds does not depend on the counts of lock operations and of sleepers. -/
theorem LastLook.of_bare_eq {r : Instant × Wait β} (h : s'.LastLook worker now r)
    (heq : s'.bare = s.bare) : s.LastLook worker now r := by
  have hat := atHand_eq_of_bare heq now
  have hflag := isInterrupted_eq_of_bare heq
  constructor
  · intro hne
    obtain ⟨t, ht, hpick⟩ := h.taken (hat ▸ hne)
    exact ⟨t, ht, isPick_bare.1 (heq ▸ isPick_bare.2 hpick)⟩
  · exact fun hnil hint => h.givenUp (hat.trans hnil) (hflag.trans hint)
  · exact fun hnil hcalm => h.timedOut (hat.trans hnil) (hflag.trans hcalm)

theorem LastLook.ne_endless {r : Instant × Wait β} (h : s.LastLook worker now r) :
    r.2 ≠ .endless := by
  intro hend
  by_cases hnil : s.atHand now = []
  · cases hint : s.isInterrupted with
    | true => simp [h.givenUp hnil hint] at hend
    | false => simp [h.timedOut hnil hint] at hend
  · obtain ⟨t, ht, -⟩ := h.taken hnil
    simp [ht] at hend

/-- Where something is at hand, waits are to be given up or the deadline has come, a look is the last one
of its wait. -/
theorem Sound.exists_lastLook (hs : s.Sound later) (hle : now ≤ later) (hopen : s.IsOpen)
    (hlast : s.atHand now ≠ [] ∨ s.isInterrupted = true ∨ ∃ d ∈ deadline, d ≤ now) (worker : Nat) :
    ∃ r : Strategy β × Instant × Wait β, s.LastLook worker now r.2 ∧
      ∀ looks, s.waitLooks worker deadline (looks + 1) now = r := by
  by_cases hnil : s.atHand now = []
  · obtain ⟨s', hlook, hbare⟩ := hs.attempt_of_atHand_eq_nil hle hnil worker
    have hflag := isInterrupted_eq_of_bare hbare
    by_cases hint : s.isInterrupted = true
    · refine ⟨(s', now, .interrupted), ?_, fun looks => ?_⟩
      · exact ⟨absurd hnil, fun _ _ => rfl, by simp [hint]⟩
      · simp [Strategy.waitLooks, hlook, hflag, hint]
    · have hcome : deadline.any (· ≤ now) = true := by
        obtain ⟨d, hd, hdle⟩ := (hlast.resolve_left (absurd hnil)).resolve_left hint
        exact (Option.any_eq_true _ _).2 ⟨d, hd, decide_eq_true hdle⟩
      refine ⟨(s', now, .timedOut), ?_, fun looks => ?_⟩
      · exact ⟨absurd hnil, by simp [hint], fun _ _ => rfl⟩
      · simp [Strategy.waitLooks, hlook, hflag, hint, hcome]
  · obtain ⟨s', t, hlook, hpick⟩ := hs.attempt_of_atHand_ne_nil hle hopen hnil worker
    refine ⟨(s', now, .task t), ?_, fun looks => ?_⟩
    · exact ⟨fun _ => ⟨t, rfl, hpick⟩, by simp [hnil], by simp [hnil]⟩
    · simp [Strategy.waitLooks, hlook]

/-! ## Waits -/

/-- How a wait ends that a worker began at an instant. -/
structure WaitEnds (worker : Nat) (deadline : Option Instant) (now : Instant) (s : Strategy β)
    (r : Instant × Wait β) : Prop where
  taken : s.atHand now ≠ [] → ∃ t, r = (now, .task t) ∧ s.IsPick worker now t
  givenUp : s.atHand now = [] → s.isInterrupted = true → r = (now, .interrupted)
  expired : s.atHand now = [] → s.isInterrupted = false → ∀ d ∈ deadline, d ≤ now →
    r = (now, .timedOut)
  /-- The wait sleeps until the soonest task gets ready, which may be just at the deadline. -/
  due : s.atHand now = [] → s.isInterrupted = false → (∀ d ∈ deadline, now < d) →
    ∀ wake, IsSoonest s.tasks (some wake) → (∀ d ∈ deadline, wake ≤ d) →
      ∃ t, r = (wake, .task t) ∧ s.IsPick worker wake t
  /-- The wait sleeps until the deadline if no task gets ready by then. -/
  late : s.atHand now = [] → s.isInterrupted = false → ∀ d ∈ deadline, now < d →
    (∀ t ∈ s.tasks, d < t.readyAt) → r = (d, .timedOut)
  endless_iff : r.2 = .endless ↔ s.tasks = [] ∧ s.isInterrupted = false ∧ deadline = none

/-- A wait whose first look is the last one. -/
theorem LastLook.waitEnds {r : Instant × Wait β} (h : s.LastLook worker now r)
    (hlast : s.atHand now ≠ [] ∨ s.isInterrupted = true ∨ ∃ d ∈ deadline, d ≤ now) :
    s.WaitEnds worker deadline now r := by
  have hawake : s.atHand now = [] → s.isInterrupted = false → ¬ ∀ d ∈ deadline, now < d := by
    intro hnil hcalm hbefore
    rcases hlast with hne | hint | ⟨d, hd, hdle⟩
    · exact hne hnil
    · rw [hcalm] at hint
      contradiction
    · exact Int.not_lt.2 hdle (hbefore d hd)
  constructor
  case taken => exact h.taken
  case givenUp => exact h.givenUp
  case expired => exact fun hnil hcalm _ _ _ => h.timedOut hnil hcalm
  case due => exact fun hnil hcalm hbefore => absurd hbefore (hawake hnil hcalm)
  case late =>
    intro hnil hcalm d hd hlt
    obtain rfl : deadline = some d := hd
    exact absurd (by simpa using hlt) (hawake hnil hcalm)
  case endless_iff =>
    constructor
    · exact fun hend => absurd hend h.ne_endless
    · rintro ⟨htasks, hcalm, rfl⟩
      exact absurd (by simp) (hawake (atHand_eq_nil_of_tasks htasks now) hcalm)

/-- A wait that sleeps until the deadline or until the soonest task gets ready, whichever comes first, and
whose next look is the last one. -/
theorem LastLook.waitEnds_asleep {r : Instant × Wait β} {wake : Instant}
    (h : s.LastLook worker wake r) (hnil : s.atHand now = []) (hcalm : s.isInterrupted = false)
    (hbefore : ∀ d ∈ deadline, now < d) (hdeadline : ∀ d ∈ deadline, wake ≤ d)
    (hsoonest : ∀ first, IsSoonest s.tasks (some first) → wake ≤ first)
    (hcases : deadline = some wake ∨ IsSoonest s.tasks (some wake)) :
    s.WaitEnds worker deadline now r := by
  have hat := atHand_eq_filter_of_nil hnil wake
  constructor
  case taken => exact absurd hnil
  case givenUp => simp [hcalm]
  case expired => exact fun _ _ d hd hdle => absurd (hbefore d hd) (Int.not_lt.2 hdle)
  case due =>
    intro _ _ _ first hfirst hfirstLe
    have heq : first = wake := by
      rcases hcases with hd | hwake
      · exact Int.le_antisymm (hfirstLe wake hd) (hsoonest first hfirst)
      · exact Option.some.inj (hfirst.unique hwake)
    subst heq
    obtain ⟨⟨t, ht, hready⟩, -⟩ := hfirst
    apply h.taken
    rw [hat]
    exact List.ne_nil_of_mem (List.mem_filter.2 ⟨ht, decide_eq_true (Int.le_of_eq hready)⟩)
  case late =>
    intro _ _ d hd _ hall
    have heq : d = wake := by
      rcases hcases with heq | ⟨⟨t, ht, rfl⟩, -⟩
      · exact Option.some.inj (hd.symm.trans heq)
      · exact absurd (hall t ht) (Int.not_lt.2 (hdeadline d hd))
    subst heq
    apply h.timedOut _ hcalm
    rw [hat]
    exact List.filter_eq_nil_iff.2 fun t ht => by simpa using hall t ht
  case endless_iff =>
    constructor
    · exact fun hend => absurd hend h.ne_endless
    · rintro ⟨htasks, -, hd⟩
      rcases hcases with heq | ⟨⟨t, ht, -⟩, -⟩
      · rw [hd] at heq
        contradiction
      · rw [htasks] at ht
        contradiction

theorem waitLooks_asleep (hlook : s.attempt worker now = (s', none))
    (hcalm : s'.isInterrupted = false) (hbefore : ∀ d ∈ deadline, now < d) {wake : Instant}
    (hwake : Instant.earliest? deadline s'.nextReadyAt = some wake) (looks : Nat) :
    s.waitLooks worker deadline (looks + 1) now =
      s'.sleep.rouse.waitLooks worker deadline looks (max now wake) := by
  have hnot : deadline.any (· ≤ now) = false := by
    rw [Option.any_eq_false]
    intro d hd
    simpa using hbefore d hd
  rw [Strategy.waitLooks]
  simp only [hlook, hcalm, hnot, hwake, Bool.false_eq_true, if_false]

/-- A wait that goes to sleep until an instant looks once more then, at what it left behind. -/
theorem Sound.exists_lastLook_asleep (hs : s.Sound later) (hle : now ≤ later) (hopen : s.IsOpen)
    (hnil : s.atHand now = []) (hcalm : s.isInterrupted = false) (hbefore : ∀ d ∈ deadline, now < d)
    {wake : Instant} (hlt : now < wake)
    (hwake : Instant.earliest? deadline s.nextReadyAt = some wake)
    (hlast : s.atHand wake ≠ [] ∨ ∃ d ∈ deadline, d ≤ wake) (worker : Nat) :
    ∃ r : Strategy β × Instant × Wait β, s.LastLook worker wake r.2 ∧
      ∀ looks, s.waitLooks worker deadline (looks + 2) now = r := by
  obtain ⟨s', hlook, hbare⟩ := hs.attempt_of_atHand_eq_nil hle hnil worker
  have hsound := (hs.attempt_of_le hle worker).sound
  rw [hlook] at hsound
  have hawake : s'.sleep.rouse.bare = s.bare := by simp [hbare]
  have hsound' : s'.sleep.rouse.Sound (max later wake) :=
    (sameTasks_rouse _).sound _ ((sameTasks_sleep _).sound _ (hsound.mono (Int.le_max_left _ _)))
  have hopen' : s'.sleep.rouse.IsOpen := hopen.of_shape_eq (shape_eq_of_bare hawake)
  have hlast' : s'.sleep.rouse.atHand wake ≠ [] ∨ s'.sleep.rouse.isInterrupted = true ∨
      ∃ d ∈ deadline, d ≤ wake := by
    rw [atHand_eq_of_bare hawake]
    exact hlast.imp_right .inr
  obtain ⟨r, hend, hr⟩ :=
    hsound'.exists_lastLook (Int.le_max_right later wake) hopen' hlast' worker
  refine ⟨r, hend.of_bare_eq hawake, fun looks => ?_⟩
  have hcalm' := (isInterrupted_eq_of_bare hbare).trans hcalm
  have hwake' : Instant.earliest? deadline s'.nextReadyAt = some wake := by
    rw [nextReadyAt_eq_of_bare hbare, hwake]
  rw [waitLooks_asleep hlook hcalm' hbefore hwake', Int.max_eq_right (Int.le_of_lt hlt)]
  exact hr looks

/-- A wait that neither a deadline nor a task can end. -/
theorem Sound.exists_waitEnds_endless (hs : s.Sound later) (hle : now ≤ later) (htasks : s.tasks = [])
    (hcalm : s.isInterrupted = false) (hnext : s.nextReadyAt = none) (worker : Nat) :
    ∃ r : Strategy β × Instant × Wait β, s.WaitEnds worker none now r.2 ∧
      ∀ looks, s.waitLooks worker none (looks + 1) now = r := by
  have hnil := atHand_eq_nil_of_tasks htasks now
  obtain ⟨s', hlook, hbare⟩ := hs.attempt_of_atHand_eq_nil hle hnil worker
  have hcalm' := (isInterrupted_eq_of_bare hbare).trans hcalm
  have hnext' := (nextReadyAt_eq_of_bare hbare).trans hnext
  refine ⟨(s', now, .endless), ?_, fun looks => ?_⟩
  · constructor <;> simp [hnil, hcalm, htasks, IsSoonest]
  · simp [Strategy.waitLooks, hlook, hcalm', hnext', Instant.earliest?]

/-- Two looks are enough for any wait. -/
theorem Sound.exists_waitEnds (hs : s.Sound later) (hle : now ≤ later) (hopen : s.IsOpen)
    (worker : Nat) (deadline : Option Instant) :
    ∃ r : Strategy β × Instant × Wait β, s.WaitEnds worker deadline now r.2 ∧
      ∀ looks, s.waitLooks worker deadline (looks + 2) now = r := by
  by_cases hlast : s.atHand now ≠ [] ∨ s.isInterrupted = true ∨ ∃ d ∈ deadline, d ≤ now
  · obtain ⟨r, hend, hr⟩ := hs.exists_lastLook hle hopen hlast worker
    exact ⟨r, hend.waitEnds hlast, fun looks => hr (looks + 1)⟩
  · push Not at hlast
    obtain ⟨hnil, hint, hbefore⟩ := hlast
    have hcalm : s.isInterrupted = false := by simpa using hint
    have hsoonest := hs.isSoonest_of_atHand hnil
    cases hwake : Instant.earliest? deadline s.nextReadyAt with
    | none =>
        obtain ⟨rfl, hnext⟩ := Instant.earliest?_eq_none hwake
        rw [hnext] at hsoonest
        obtain ⟨r, hend, hr⟩ := hs.exists_waitEnds_endless hle hsoonest hcalm hnext worker
        exact ⟨r, hend, fun looks => hr (looks + 1)⟩
    | some wake =>
        obtain ⟨hdeadline, hnext⟩ := Instant.earliest?_le hwake
        -- the instant of waking is the deadline, or that at which the soonest task gets ready
        have hcases : deadline = some wake ∨ IsSoonest s.tasks (some wake) := by
          rcases Instant.earliest?_eq_some hwake with heq | heq
          · exact .inl heq
          · exact .inr (heq ▸ hsoonest)
        have hat := atHand_eq_filter_of_nil hnil
        have hlt : now < wake := by
          rcases hcases with heq | ⟨⟨t, ht, rfl⟩, -⟩
          · exact hbefore wake heq
          · have hlate := (hat now).symm.trans hnil
            rw [List.filter_eq_nil_iff] at hlate
            simpa using hlate t ht
        have hlast : s.atHand wake ≠ [] ∨ ∃ d ∈ deadline, d ≤ wake := by
          rcases hcases with heq | ⟨⟨t, ht, hready⟩, -⟩
          · exact .inr ⟨wake, heq, Int.le_refl wake⟩
          · rw [hat wake]
            exact .inl (List.ne_nil_of_mem
              (List.mem_filter.2 ⟨ht, decide_eq_true (Int.le_of_eq hready)⟩))
        obtain ⟨r, hend, hr⟩ :=
          hs.exists_lastLook_asleep hle hopen hnil hcalm hbefore hlt hwake hlast worker
        refine ⟨r, ?_, hr⟩
        apply hend.waitEnds_asleep hnil hcalm hbefore hdeadline _ hcases
        exact fun first hfirst => hnext first (hsoonest.unique hfirst)

end Strategy

/-! ## Stocks -/

namespace Strategy

variable {s : Strategy β} {worker : Nat} {deadline : Option Instant}

theorem WaitEnds.of_enter {r : Instant × Wait β} (h : s.enter.WaitEnds worker deadline now r) :
    s.WaitEnds worker deadline now r := by
  cases s <;> exact ⟨h.taken, h.givenUp, h.expired, h.due, h.late, h.endless_iff⟩

/-- A new strategy has one backlog only if it has at most one shard. -/
theorem undivided_ofKind {kind : StrategyKind} {shards : Nat} (h : kind = .locked ∨ shards ≤ 1)
    (stealing : Bool) (contention : Contention) :
    (ofKind kind shards stealing contention : Strategy β).Undivided := by
  cases kind with
  | locked => simp [Undivided, ofKind, shape]
  | sharded =>
      have hle : shards ≤ 1 := h.resolve_left (by simp)
      simp [Undivided, ofKind, shape, Sharded.ofCount, hle]

theorem isOpen_ofKind {kind : StrategyKind} {stealing : Bool} {shards : Nat}
    (h : kind = .locked ∨ stealing = true ∨ shards ≤ 1) (contention : Contention) :
    (ofKind kind shards stealing contention : Strategy β).IsOpen := by
  rcases h with hkind | rfl | hle
  · exact .inr (undivided_ofKind (.inl hkind) stealing contention)
  · cases kind with
    | locked => exact .inl rfl
    | sharded => exact .inl rfl
  · exact .inr (undivided_ofKind (.inr hle) stealing contention)

end Strategy

namespace Stock

variable {c : Stock β} {worker : Nat} {deadline : Option Instant}

/-- Whether a wait of a worker at a stock ends at the right instant and in the right way. -/
structure WaitsEnd (worker : Nat) (deadline : Option Instant) (c : Stock β) : Prop where
  ends : c.strategy.WaitEnds worker deadline c.clock (c.strategy.popWait worker deadline c.clock).2
  /-- No wait needs more looks than it may take. -/
  looks_eq : ∀ looks, c.strategy.enter.waitLooks worker deadline (looks + 2) c.clock =
    c.strategy.popWait worker deadline c.clock
  /-- As long as no look was made ahead of the clock, what is at hand is what is ready. -/
  atHand_eq : ∀ wake, c.seen ≤ wake → c.strategy.atHand wake = c.strategy.tasks.filter (·.readyAt ≤ wake)
  /-- So it is while a wait sleeps. -/
  atHand_eq_asleep : c.strategy.atHand c.clock = [] → ∀ wake,
    c.strategy.atHand wake = c.strategy.tasks.filter (·.readyAt ≤ wake)

theorem Sound.waitsEnd (hs : c.Sound) (hopen : c.strategy.IsOpen) (worker : Nat)
    (deadline : Option Instant) : c.WaitsEnd worker deadline := by
  have henter := Strategy.sameTasks_enter c.strategy
  have hsound := henter.sound _ hs.strategy
  obtain ⟨r, hends, hr⟩ :=
    hsound.exists_waitEnds hs.clock_le (hopen.of_shape_eq henter.shape_eq) worker deadline
  have hwait : c.strategy.popWait worker deadline c.clock = r := hr c.strategy.delayedCount
  constructor
  case ends =>
    rw [hwait]
    exact hends.of_enter
  case looks_eq => exact fun looks => (hr looks).trans hwait.symm
  case atHand_eq =>
    intro wake hseen
    rw [(hs.strategy.mono hseen).atHand_eq]
    rfl
  case atHand_eq_asleep => exact Strategy.atHand_eq_filter_of_nil

/-- Where every worker may take every ready task, and however requests follow each other, a wait ends with
the task that its worker picks, or empty-handed, at the first instant at which it can. Where there is one
backlog only, a worker picks the first of all tasks at hand. -/
theorem run_waitsEnd (kind : StrategyKind) (shards : Nat) (stealing : Bool)
    (hopen : kind = .locked ∨ stealing = true ∨ shards ≤ 1) (start : Instant)
    (requests : List (StockRequest β)) (worker : Nat) (deadline : Option Instant) :
    ((Stock.start (.ofKind kind shards stealing {}) start).run requests).WaitsEnd worker deadline ∧
      (kind = .locked ∨ shards ≤ 1 → ∀ now t,
        ((Stock.start (.ofKind kind shards stealing {}) start).run requests).strategy.IsPick
          worker now t →
        Task.IsFirst (((Stock.start (.ofKind kind shards stealing {}) start).run
          requests).strategy.atHand now) (some t)) := by
  have hempty : (Strategy.ofKind kind shards stealing {} : Strategy β).Sound start :=
    Strategy.sound_ofKind kind shards stealing {}
  obtain ⟨hsound, hshape⟩ :=
    (sound_start hempty (Strategy.tasks_ofKind kind shards stealing {})).run requests
  constructor
  · have hopen' := (Strategy.isOpen_ofKind (β := β) hopen {}).of_shape_eq hshape
    exact hsound.waitsEnd hopen' worker deadline
  · intro hone now t hpick
    have hundivided := Strategy.undivided_ofKind (β := β) hone stealing {}
    exact hpick.isFirst (hundivided.of_shape_eq hshape)

/-- Two tasks of which the more urgent one goes to the shard of the second worker. -/
def spreadRequests : List (StockRequest Unit) :=
  [.push ⟨1, .low, 0, ()⟩, .push ⟨2, .high, 0, ()⟩]

/-- When both have been taken, there comes one that gets ready at 5. -/
def delayedRequests : List (StockRequest Unit) :=
  spreadRequests ++ [.popWait 0 none, .popWait 0 none, .push ⟨3, .normal, 5, ()⟩]

/-- A wait ends at once if there are ready tasks, and else at its deadline or with the delayed task,
whichever is first. -/
theorem spreadRequests_waitsEnd :
    ((start (.ofKind .sharded 2 true {}) 0).run spreadRequests).WaitsEnd 0 none ∧
      ((start (.ofKind .sharded 2 true {}) 0).run delayedRequests).WaitsEnd 0 (some 3) ∧
      (((start (.ofKind .sharded 2 true {}) 0).run delayedRequests).strategy.popWait 0 (some 3) 0).2 =
        (3, .timedOut) ∧
      ((start (.ofKind .locked 1 false {}) 0).run delayedRequests).WaitsEnd 0 (some 9) ∧
      (((start (.ofKind .locked 1 false {}) 0).run delayedRequests).strategy.popWait 0 (some 9) 0).2 =
        (5, .task ⟨3, .normal, 5, ()⟩) ∧
      ∀ now t, ((start (.ofKind .locked 1 false {}) 0).run delayedRequests).strategy.IsPick 0 now t →
        Task.IsFirst (((start (.ofKind .locked 1 false {}) 0).run
          delayedRequests).strategy.atHand now) (some t) := by
  have hspread := run_waitsEnd .sharded 2 true (.inr (.inl rfl)) 0 spreadRequests 0 none
  have hdelayed := run_waitsEnd .sharded 2 true (.inr (.inl rfl)) 0 delayedRequests 0 (some 3)
  have hsingle := run_waitsEnd .locked 1 false (.inl rfl) 0 delayedRequests 0 (some 9)
  exact ⟨hspread.1, hdelayed.1, rfl, hsingle.1, rfl, hsingle.2 (.inl rfl)⟩

/-- A worker takes the task of its own shard, even if there is a more urgent one in another shard. -/
theorem spreadRequests_passesOver :
    ∃ t u : Task Unit,
      (((start (.ofKind .sharded 2 true {}) 0).run spreadRequests).strategy.popWait 0 none 0).2 =
        (0, .task t) ∧
      u ∈ ((start (.ofKind .sharded 2 true {}) 0).run spreadRequests).held ∧ u.readyAt ≤ 0 ∧
        u.urgency < t.urgency :=
  ⟨⟨1, .low, 0, ()⟩, ⟨2, .high, 0, ()⟩, rfl, by decide, by decide,
    Task.isMoreUrgent_iff.1 (by decide)⟩

end Stock

end Dispatch
