import Dispatch.Proofs.Pool.Admission
import Dispatch.Recurring
import Mathlib.Data.List.Nodup
import Mathlib.Tactic.Linarith
import Mathlib.Tactic.Ring
/-!
# Recurring tasks keep to their grids

The instants at which an entry is due form a grid that begins when the entry is registered and whose
meshes are as wide as the interval of the entry. As long as each sweep comes within one interval of the
sweep before, no mesh is missed, and the entry has fired as often as whole intervals have passed.
-/

namespace Dispatch

variable {α : Type}

theorem Instant.after_eq {t : Instant} {d : Duration} (h : t + d ≤ Instant.latest) :
    t.after d = t + d := by
  rw [after, add?, if_pos h, Option.getD_some]

/-- Later is later, even where the instant asked for cannot be held. -/
theorem Instant.lt_after (now : Instant) {d : Duration} (hpos : 0 < d) : now < now.after d := by
  have hlt : now < now + (d : Int) := Int.lt_add_of_pos_right _ (by exact_mod_cast hpos)
  have hfar : now < now + (Instant.farAhead : Int) := Int.lt_add_of_pos_right _ (by decide)
  unfold Instant.after Instant.add?
  split
  · exact hlt
  · exact hfar

theorem Instant.cast_since {earlier t : Instant} (h : earlier ≤ t) :
    (t.since earlier : Int) = t - earlier :=
  Int.toNat_of_nonneg (Int.sub_nonneg_of_le h)

/-- Between two instants of a grid in succession, so many intervals have passed as up to the first. -/
theorem Instant.since_div_eq {started now : Instant} {interval : Duration} {count : Nat}
    (hle : started + count * interval ≤ now) (hlt : now < started + (count + 1) * interval) :
    now.since started / interval = count := by
  have hsince : (now.since started : Int) = now - started := by
    have hnonneg : (0 : Int) ≤ (count * interval : Nat) := Int.natCast_nonneg _
    push_cast at hnonneg
    exact Instant.cast_since (by linarith)
  refine Nat.div_eq_of_lt_le ?_ ?_
  · zify
    linarith
  · zify
    linarith

namespace RecurringEntry

variable {entry : RecurringEntry α} {registered now clock : Instant} {interval : Duration}

/-- Whether an entry that was registered at an instant and was not cancelled is, after a sweep, at the
mesh of its grid in which the sweep was. -/
structure OnGrid (registered : Instant) (interval : Duration) (now : Instant)
    (entry : RecurringEntry α) : Prop where
  interval_eq : entry.interval = interval
  cancelled_eq : entry.cancelled = false
  nextExecution_eq : entry.nextExecution = registered + (entry.fired + 1) * interval
  le_now : registered + entry.fired * interval ≤ now
  now_lt : now < entry.nextExecution

/-- How often an entry has fired tells how many intervals have passed. -/
theorem OnGrid.fired_eq (h : entry.OnGrid registered interval now) :
    entry.fired = now.since registered / interval :=
  (Instant.since_div_eq h.le_now (h.nextExecution_eq ▸ h.now_lt)).symm

theorem onGrid_schedule {id : Identifier} {priority : Priority} {label : String} {body : Body α}
    (hpos : 0 < interval) (hlatest : registered + interval ≤ Instant.latest) :
    OnGrid registered interval registered
      { id, interval, priority, label, body, nextExecution := registered.after interval } := by
  have hafter := Instant.after_eq hlatest
  refine ⟨rfl, rfl, ?_, ?_, ?_⟩
  · simp [hafter]
  · simp
  · rw [hafter]
    exact Int.lt_add_of_pos_right _ (by exact_mod_cast hpos)

theorem nextAfter_of_advance? {scheduled t : Instant}
    (h : advance? scheduled interval (min (now.since scheduled / max interval 1 + 1) skipLimit) =
      some t) : nextAfter scheduled interval now clock = t := by
  unfold nextAfter
  simp only [h]

/-- A sweep that comes within one interval of an instant of the grid moves on by one mesh. -/
theorem nextAfter_eq {scheduled : Instant} (hlt : now < scheduled + interval)
    (hlongest : interval ≤ Duration.longest)
    (hlatest : scheduled + interval ≤ Instant.latest) :
    nextAfter scheduled interval now clock = scheduled + interval := by
  have hone : now.since scheduled / max interval 1 = 0 := by
    refine Nat.div_eq_of_lt ?_
    simp only [Instant.since, Instant, Duration] at *
    omega
  have hsteps : min (now.since scheduled / max interval 1 + 1) skipLimit = 1 := by
    rw [hone]
    decide
  refine nextAfter_of_advance? ?_
  rw [hsteps, advance?, Nat.mul_one, if_pos hlongest, Instant.add?, if_pos hlatest]

theorem swept_of_isDue (h : entry.isDue now = true) :
    entry.swept now clock = entry.fire now clock := if_pos h

theorem swept_of_not_isDue (h : entry.isDue now = false) : entry.swept now clock = entry :=
  if_neg (by simp [h])

theorem swept_id (entry : RecurringEntry α) (now clock : Instant) :
    (entry.swept now clock).id = entry.id := by
  unfold RecurringEntry.swept
  split <;> rfl

theorem swept_submission (entry : RecurringEntry α) (now clock : Instant) :
    (entry.swept now clock).submission = entry.submission := by
  unfold RecurringEntry.swept
  split <;> rfl

theorem swept_cancelled (entry : RecurringEntry α) (now clock : Instant) :
    (entry.swept now clock).cancelled = entry.cancelled := by
  unfold RecurringEntry.swept
  split <;> rfl

/-- An entry has fired once more after a sweep in which it was due. -/
theorem swept_fired (entry : RecurringEntry α) (now clock : Instant) :
    (entry.swept now clock).fired = entry.fired + if entry.isDue now then 1 else 0 := by
  unfold RecurringEntry.swept
  split <;> rfl

/-- A sweep within one interval of the one before keeps an entry on its grid. -/
theorem OnGrid.swept (h : entry.OnGrid registered interval now) {next : Instant}
    (hle : now ≤ next) (hnext : next ≤ now + interval) (hlongest : interval ≤ Duration.longest)
    (hlatest : next + interval ≤ Instant.latest) :
    (entry.swept next clock).OnGrid registered interval next := by
  have hnow := h.now_lt
  have hgrid := h.nextExecution_eq
  by_cases hdue : entry.nextExecution ≤ next
  · -- the mesh before was left less than one interval ago
    have hadvance : nextAfter entry.nextExecution entry.interval next clock =
        entry.nextExecution + interval := by
      rw [h.interval_eq]
      exact nextAfter_eq (by linarith) hlongest (by linarith)
    rw [swept_of_isDue (decide_eq_true hdue)]
    refine ⟨h.interval_eq, h.cancelled_eq, ?_, ?_, ?_⟩
    · simp only [fire, hadvance]
      rw [hgrid]
      push_cast
      ring
    · simp only [fire]
      push_cast
      rw [← hgrid]
      exact hdue
    · simp only [fire, hadvance]
      linarith
  · rw [swept_of_not_isDue (decide_eq_false hdue)]
    exact { h with
      le_now := Int.le_trans h.le_now hle
      now_lt := Int.not_le.1 hdue }

/-! ## What is submitted -/

/-- Whether a task was made by submitting at an instant what an entry asks for. -/
structure Asks (entry : RecurringEntry α) (now : Instant) (t : Task (Job α)) : Prop where
  priority_eq : t.priority = entry.priority
  readyAt_eq : t.readyAt = now
  body_eq : t.body = ⟨entry.label, none, entry.body⟩

theorem asks_newTask (p : Pool α) (entry : RecurringEntry α) :
    entry.Asks p.clock (p.newTask p.clock entry.submission) := ⟨rfl, rfl, rfl⟩

end RecurringEntry

namespace Recurring

/-- Among entries with identifiers of their own each is found by its identifier. -/
theorem find?_eq_some {r : Recurring α} (hdistinct : (r.entries.map (·.id)).Nodup)
    {entry : RecurringEntry α} (hentry : entry ∈ r.entries) : r.find? entry.id = some entry := by
  obtain ⟨found, hfound⟩ : ∃ found, r.find? entry.id = some found :=
    Option.isSome_iff_exists.1 (List.find?_isSome.2 ⟨entry, hentry, by simp⟩)
  have hid : found.id = entry.id := by simpa using List.find?_some hfound
  rw [hfound, List.inj_on_of_nodup_map hdistinct (List.mem_of_find?_eq_some hfound) hentry hid]

/-- Whether a pool comes of submitting what each of some entries asks for once, and nothing else; the
count is that of the submissions that were accepted. -/
structure Attempted (p : Pool α) (entries : List (RecurringEntry α))
    (attempts : List (Task (Job α) × Except Fault Unit)) (q : Pool α) (count : Nat) : Prop where
  asks : List.Forall₂ (fun entry attempt => entry.Asks p.clock attempt.1) entries attempts
  clock_eq : q.clock = p.clock
  answers_eq : q.answers = attempts.reverse ++ p.answers
  count_eq : count = attempts.countP (·.2.isOk)
  submitted_eq : q.metrics.submitted = p.metrics.submitted + count
  rejected_eq : q.metrics.rejected + count = p.metrics.rejected + entries.length

theorem attempted_nil (p : Pool α) : Attempted p [] [] p 0 := ⟨.nil, rfl, rfl, rfl, rfl, rfl⟩

theorem Attempted.append {p q r : Pool α} {m n : Nat} {first second : List (RecurringEntry α)}
    {attempts later : List (Task (Job α) × Except Fault Unit)}
    (hfirst : Attempted p first attempts q m) (hsecond : Attempted q second later r n) :
    Attempted p (first ++ second) (attempts ++ later) r (m + n) where
  asks := by
    have hasks := hsecond.asks
    rw [hfirst.clock_eq] at hasks
    exact List.rel_append hfirst.asks hasks
  clock_eq := hsecond.clock_eq.trans hfirst.clock_eq
  answers_eq := by
    rw [hsecond.answers_eq, hfirst.answers_eq, List.reverse_append, List.append_assoc]
  count_eq := by rw [List.countP_append, hfirst.count_eq, hsecond.count_eq]
  submitted_eq := by rw [hsecond.submitted_eq, hfirst.submitted_eq, Nat.add_assoc]
  rejected_eq := by
    have hone := hfirst.rejected_eq
    have htwo := hsecond.rejected_eq
    rw [List.length_append]
    omega

/-- To log a refusal changes nothing else of what a submission has done. -/
theorem submitEntry_fields (p : Pool α) (entry : RecurringEntry α) :
    (submitEntry p entry).2 = (p.submit entry.submission).2.isOk ∧
      (submitEntry p entry).1.clock = (p.submit entry.submission).1.clock ∧
      (submitEntry p entry).1.answers = (p.submit entry.submission).1.answers ∧
      (submitEntry p entry).1.metrics = (p.submit entry.submission).1.metrics := by
  unfold submitEntry
  split <;> rename_i heq <;> rw [heq] <;> exact ⟨rfl, rfl, rfl, rfl⟩

/-- A submission is attempted once, whether it is accepted or refused. -/
theorem exists_submitEntry_attempted (p : Pool α) (entry : RecurringEntry α) :
    ∃ attempt, Attempted p [entry] [attempt] (submitEntry p entry).1
      (submitEntry p entry).2.toNat := by
  have hsubmits := Pool.submits_submitAt p p.clock entry.submission
  obtain ⟨haccepted, hclock, hanswers, hmetrics⟩ := submitEntry_fields p entry
  obtain ⟨answer, hanswer, hcounted⟩ := hsubmits.exists_counted
  rw [Pool.submit, Pool.isOk_submitAt p p.clock entry.submission hanswer] at haccepted
  refine ⟨(p.newTask p.clock entry.submission, answer), .cons (entry.asks_newTask p) .nil,
    hclock.trans hsubmits.clock_eq, hanswers.trans hanswer, ?_, ?_, ?_⟩
  all_goals rw [haccepted]
  · cases answer <;> rfl
  · rw [hmetrics, Pool.submit, hcounted]
    cases answer <;> rfl
  · rw [hmetrics, Pool.submit, hcounted]
    cases answer <;> rfl

/-- Each of the entries has one submission attempted, and nothing else is submitted. -/
theorem exists_submitAll_attempted (p : Pool α) (entries : List (RecurringEntry α)) :
    ∃ attempts, Attempted p entries attempts (submitAll p entries).1 (submitAll p entries).2 := by
  induction entries generalizing p with
  | nil => exact ⟨[], attempted_nil p⟩
  | cons entry rest ih =>
      obtain ⟨attempt, hfirst⟩ := exists_submitEntry_attempted p entry
      obtain ⟨attempts, hrest⟩ := ih (submitEntry p entry).1
      have hcount : ∀ (accepted : Bool) (n : Nat),
          (if accepted then n + 1 else n) = accepted.toNat + n := by
        rintro (_ | _) n
        · exact (Nat.zero_add n).symm
        · exact Nat.add_comm n 1
      rw [submitAll]
      simp only [hcount]
      exact ⟨attempt :: attempts, hfirst.append hrest⟩

end Recurring

end Dispatch
