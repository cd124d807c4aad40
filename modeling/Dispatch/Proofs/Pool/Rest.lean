import Dispatch.Proofs.Pool.Closing
import Dispatch.Proofs.Pool.Still
/-!
# How long a closed pool takes to come to rest

A settled pool with a closed queue has no worker that could do anything. Its bodies sleep, and by the
instant that the bodies at hand need at most, however they are spread over the workers, all of them
have ended; turns and the passing of time up to the next wake-up never put that instant off.
-/

namespace Dispatch

variable {α : Type}

namespace Pool

variable {p q : Pool α} {t : Task (Job α)} {index : Nat}

/-! ## Settled pools -/

/-- Whether all workers have stopped or sleep. -/
def Rests (p : Pool α) : Prop := ∀ w ∈ p.workers, w.IsQuiet p.clock

/-- In a settled pool with a closed queue all workers are at rest, since none of them waits. -/
theorem rests_settle (hs : p.queue.Sound p.clock) (hclosed : p.queue.closed = true) :
    p.settle.Rests := by
  intro w hw
  obtain ⟨index, hget⟩ := List.mem_iff_getElem?.1 hw
  have hstill := stillAt_settle ⟨hs, fun _ => hclosed⟩ index w hget
  cases w with
  | seeking => exact hstill
  | waiting =>
      have hopen := hstill.1
      rw [((works_settle p).carries hs).closed hclosed] at hopen
      contradiction
  | busy run => exact hstill
  | stopped => trivial

/-! ## The time that is needed -/

/-- For how long the tasks of a queue let time pass at most, if they run one after the other. -/
def queuedTime (queue : TaskQueue (Job α)) : Duration :=
  sumOf (fun t => Action.total t.body.body.actions) queue.tasks

theorem queuedTime_of_handsOut {now : Instant} {ts : List (Task (Job α))}
    {queue queue' : TaskQueue (Job α)} (h : TaskQueue.HandsOut now ts queue queue') :
    queuedTime queue = sumOf (fun t => Action.total t.body.body.actions) ts +
      queuedTime queue' := by
  rw [queuedTime, sumOf_perm h.tasks_perm, sumOf_append, queuedTime]

theorem timeNeeded_of_task?_eq_none {w : Worker α} {now : Instant} (h : w.task? = none) :
    w.timeNeeded now = 0 := by
  cases w with
  | busy run => simp [Worker.task?] at h
  | _ => rfl

theorem Proceeds.timeNeeded_le {actions : List Action} {w : Worker α}
    (h : p.Proceeds t actions q w) : w.timeNeeded p.clock ≤ Action.total actions := by
  cases h with
  | sleeps _ _ _ htime => exact htime
  | ends _ _ _ => exact Nat.zero_le _

theorem TakesOn.timeNeeded_le {queue : TaskQueue (Job α)} {w : Worker α}
    (h : p.TakesOn queue t q w) : w.timeNeeded p.clock ≤ Action.total t.body.body.actions := by
  cases h with
  | cancels _ _ => exact Nat.zero_le _
  | refuses _ _ _ _ _ => exact Nat.zero_le _
  | starts _ _ _ _ hproceeds => exact hproceeds.timeNeeded_le

/-- A turn moves time from the queue to the worker, and adds none. -/
theorem Turned.timeNeeded_le {w w' : Worker α} (h : p.Turned index w q w') :
    queuedTime q.queue + w'.timeNeeded p.clock ≤ queuedTime p.queue + w.timeNeeded p.clock := by
  cases h with
  | rests _ => exact Nat.le_refl _
  | goesOn hw _ hproceeds =>
      subst hw
      rw [hproceeds.queue_eq]
      refine Nat.add_le_add_left (Nat.le_trans hproceeds.timeNeeded_le ?_) _
      exact Nat.le_add_left _ _
  | misses _ _ _ hlooks htask _ =>
      rw [timeNeeded_of_task?_eq_none htask, queuedTime_of_handsOut hlooks.handsOut]
      simp [sumOf]
  | takes _ _ hlooks htakes =>
      have htime := htakes.timeNeeded_le
      have hqueued := queuedTime_of_handsOut hlooks.handsOut
      simp only [Option.toList_some, sumOf] at hqueued
      rw [htakes.queue_eq, hqueued]
      simp only [Duration] at *
      omega

theorem timeNeeded_turnAt (hs : p.queue.Sound p.clock) (index : Nat) :
    (p.turnAt index).timeNeeded ≤ p.timeNeeded := by
  rcases turnAt_cases hs index with ⟨-, heq⟩ | ⟨w, p', w', hw, hturned, heq⟩
  · exact Nat.le_of_eq (congrArg timeNeeded heq)
  · have hindex : index < p.workers.length := (List.getElem?_eq_some_iff.1 hw).1
    -- as before, the sums over the workers differ in one summand
    have hbefore := sumOf_eraseIdx hw (Worker.timeNeeded p.clock)
    have hafter := sumOf_set hindex w' (Worker.timeNeeded p.clock)
    have hturn := hturned.timeNeeded_le
    have hneeded : (p.turnAt index).timeNeeded = queuedTime p'.queue +
        sumOf (Worker.timeNeeded p.clock) (p.workers.set index w') := by
      rw [heq, ← hturned.sameFrame.workers_eq, ← hturned.sameFrame.clock_eq]
      rfl
    rw [hneeded, show p.timeNeeded = queuedTime p.queue + _ from rfl, hbefore, hafter]
    simp only [Duration] at *
    omega

/-- The instant by which all bodies at hand have ended, however they are spread over the workers. -/
def dueBy (p : Pool α) : Instant := p.clock + p.timeNeeded

/-- Turns do not put that instant off. -/
theorem dueBy_settle_le (hs : p.queue.Sound p.clock) : p.settle.dueBy ≤ p.dueBy := by
  obtain ⟨-, hclock, htime⟩ := keeps_settle
    (I := fun q => q.queue.Sound q.clock ∧ q.clock = p.clock ∧ q.timeNeeded ≤ p.timeNeeded)
    (fun q index h => ⟨(carries_turnAt h.1 index).sound, (clock_turnAt h.1 index).trans h.2.1,
      Nat.le_trans (timeNeeded_turnAt h.1 index) h.2.2⟩) ⟨hs, rfl, Nat.le_refl _⟩
  rw [dueBy, dueBy, hclock]
  exact Int.add_le_add_left (Int.ofNat_le.2 htime) _

/-- A body that sleeps until `now` or longer needs less time then, by the time that has passed. -/
theorem timeNeeded_busy {run : Run α} {now : Instant} (hle : p.clock ≤ now)
    (hwake : now ≤ run.wakeAt) : (Worker.busy run).timeNeeded now + (now - p.clock).toNat =
      (Worker.busy run).timeNeeded p.clock := by
  simp only [Worker.timeNeeded, Instant.since, Instant, Duration] at *
  omega

theorem timeNeeded_le_of_isQuiet {w : Worker α} {now : Instant} (hle : p.clock ≤ now)
    (hwake : ∀ run, w = .busy run → now ≤ run.wakeAt) :
    w.timeNeeded now ≤ w.timeNeeded p.clock := by
  cases w with
  | busy run =>
      rw [← timeNeeded_busy hle (hwake run rfl)]
      exact Nat.le_add_right _ _
  | _ => exact Nat.le_refl _

/-- As long as some body sleeps, the passing of time up to the first wake-up does not put the instant
off by which all bodies have ended. -/
theorem dueBy_withClock_le {now : Instant} (hle : p.clock ≤ now)
    (hwake : ∀ run, .busy run ∈ p.workers → now ≤ run.wakeAt) {first : Run α}
    (hfirst : .busy first ∈ p.workers) : { p with clock := now }.dueBy ≤ p.dueBy := by
  obtain ⟨front, back, hsplit⟩ := List.append_of_mem hfirst
  have hside : ∀ side : List (Worker α), side ⊆ p.workers →
      sumOf (Worker.timeNeeded now) side ≤ sumOf (Worker.timeNeeded p.clock) side :=
    fun side hsub => sumOf_le fun w hw =>
      timeNeeded_le_of_isQuiet hle fun run hrun => hwake run (hrun ▸ hsub hw)
  have hfront := hside front (by rw [hsplit]; exact List.subset_append_left _ _)
  have hback := hside back fun w hw => by rw [hsplit]; simp [hw]
  have hone := timeNeeded_busy hle (hwake first hfirst)
  have hneeded : { p with clock := now }.timeNeeded + (now - p.clock).toNat ≤ p.timeNeeded := by
    simp only [timeNeeded, hsplit, sumOf_append, sumOf]
    simp only [Duration] at *
    omega
  simp only [dueBy, Instant, Duration] at *
  omega

/-! ## The next wake-up -/

/-- The earliest of some instants is one of them. -/
theorem foldl_earliest? (first : Instant) (rest : List Instant) :
    ∃ m, rest.foldl (fun wake t => Instant.earliest? wake (some t)) (some first) = some m ∧
      m ∈ first :: rest ∧ ∀ t ∈ first :: rest, m ≤ t := by
  induction rest generalizing first with
  | nil => exact ⟨first, rfl, List.mem_cons_self, by simp⟩
  | cons next rest ih =>
      obtain ⟨m, hm, hmem, hle⟩ := ih (min first next)
      have hmin : m ≤ min first next := hle _ List.mem_cons_self
      have hleft : m ≤ first := Int.le_trans hmin (Int.min_le_left first next)
      have hright : m ≤ next := Int.le_trans hmin (Int.min_le_right first next)
      refine ⟨m, hm, ?_, List.forall_mem_cons.2 ⟨hleft, List.forall_mem_cons.2 ⟨hright, ?_⟩⟩⟩
      · rcases List.mem_cons.1 hmem with heq | hmem
        · rcases Int.le_total first next with h | h
          · simp [heq, Int.min_eq_left h]
          · simp [heq, Int.min_eq_right h]
        · simp [hmem]
      · exact fun t ht => hle t (List.mem_cons_of_mem _ ht)

theorem foldl_earliest?_cases (wakes : List Instant) :
    (wakes = [] ∧ wakes.foldl (fun wake t => Instant.earliest? wake (some t)) none = none) ∨
      ∃ m, wakes.foldl (fun wake t => Instant.earliest? wake (some t)) none = some m ∧
        m ∈ wakes ∧ ∀ t ∈ wakes, m ≤ t := by
  cases wakes with
  | nil => exact .inl ⟨rfl, rfl⟩
  | cons first rest => exact .inr (foldl_earliest? first rest)

/-- Where all workers are at rest and not all have stopped, the first body that goes on is next. -/
theorem nextWake_of_rests (h : p.Rests) (hrunning : p.isStopped = false) :
    ∃ run, .busy run ∈ p.workers ∧ p.nextWake = some run.wakeAt ∧
      ∀ other, .busy other ∈ p.workers → run.wakeAt ≤ other.wakeAt := by
  have hwaiting : p.workers.any Worker.isWaiting = false := by
    refine List.any_eq_false.2 fun w hw => ?_
    have hquiet := h w hw
    cases w with
    | waiting => exact absurd hquiet id
    | _ => simp [Worker.isWaiting]
  have hbusy : ∃ run, .busy run ∈ p.workers := by
    obtain ⟨w, hw, hnot⟩ := List.all_eq_false.1 hrunning
    have hquiet := h w hw
    cases w with
    | busy run => exact ⟨run, hw⟩
    | stopped => exact absurd rfl hnot
    | _ => exact absurd hquiet id
  have hmem : ∀ t, t ∈ p.workers.filterMap Worker.wakeAt? ↔
      ∃ run, .busy run ∈ p.workers ∧ run.wakeAt = t := by
    intro t
    rw [List.mem_filterMap]
    constructor
    · rintro ⟨w, hw, ht⟩
      cases w with
      | busy run => exact ⟨run, hw, Option.some.inj ht⟩
      | _ => simp [Worker.wakeAt?] at ht
    · rintro ⟨run, hrun, rfl⟩
      exact ⟨_, hrun, rfl⟩
  unfold nextWake
  rw [hwaiting]
  rcases foldl_earliest?_cases (p.workers.filterMap Worker.wakeAt?) with
    ⟨hnil, -⟩ | ⟨m, hm, hin, hle⟩
  · obtain ⟨run, hrun⟩ := hbusy
    -- some body sleeps, so its wake-up is in the list
    have hsleeps := (hmem run.wakeAt).2 ⟨run, hrun, rfl⟩
    rw [hnil] at hsleeps
    contradiction
  · obtain ⟨run, hrun, rfl⟩ := (hmem m).1 hin
    exact ⟨run, hrun, hm, fun other hother => hle _ ((hmem _).2 ⟨other, hother, rfl⟩)⟩

end Pool

end Dispatch
