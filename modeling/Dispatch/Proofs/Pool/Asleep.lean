import Dispatch.Proofs.Pool.Idle
import Dispatch.Proofs.Pool.Rest
import Dispatch.Proofs.Queue.Waits
/-!
# Pools at rest

In a pool at rest nothing happens before the next wake-up. However often its workers have turns until then,
they find nothing, and change nothing but the counts of lock operations and of sleeping workers.
-/

namespace Dispatch

variable {α β : Type} {now later : Instant}

/-! ## Looks of workers that have nothing to take -/

theorem Sharded.Sound.tryPop_of_hasNoneFor {q : Sharded β} (hs : q.Sound now) {worker : Nat}
    (h : (Strategy.sharded q).HasNoneFor worker now) :
    ∃ n, q.tryPop worker now = (q.record n, none) := by
  obtain ⟨hempty, hlate⟩ := h
  have hdue : (q.takeDue now).2 = [] := by
    show q.delayed.takeWhile (·.isReady now) = []
    rw [(Task.takeWhile_isReady hs.delayed_ordered now).1, List.filter_eq_nil_iff]
    exact fun t ht => by simp [hlate t ht]
  obtain ⟨n, hrecord⟩ := Sharded.promote_eq_record hdue worker
  refine ⟨n, ?_⟩
  unfold Sharded.tryPop
  rw [hrecord]
  rcases (Sharded.Sound.record hs n).popFirst_cases (q.route worker) with
    ⟨-, hnone⟩ | ⟨steps, index, t, q', hget, -, -, htakes⟩
  · exact hnone
  · -- the shards on the way of the worker are empty
    have hnil : (q.record n).tasksAt index = [] := by
      unfold Sharded.tasksAt
      cases hshard : q.shards[index]? with
      | none => simp [Sharded.record, hshard]
      | some s => simp [Sharded.record, hshard, hempty index (List.mem_of_getElem? hget) s hshard]
    exact absurd (htakes.isFirst.eq_none_iff.2 hnil) (by simp)

namespace Strategy

variable {s : Strategy β} {worker : Nat}

/-- A look of a worker that has nothing to take finds nothing, and changes nothing but counts. -/
theorem Sound.attempt_of_hasNoneFor (hs : s.Sound now) (h : s.HasNoneFor worker now) :
    ∃ s', s.attempt worker now = (s', none) ∧ s'.bare = s.bare := by
  cases s with
  | locked q =>
      refine hs.attempt_of_atHand_eq_nil (Int.le_refl now) ?_ worker
      rw [hs.atHand_eq, List.filter_eq_nil_iff]
      exact fun t ht => by simp [h t ht]
  | sharded q =>
      obtain ⟨n, hfirst⟩ := Sharded.Sound.tryPop_of_hasNoneFor hs h
      rcases attempt_sharded_cases q worker now with heq | ⟨q', hlook, -, heq⟩
      · exact ⟨sharded (q.record n), by rw [heq, hfirst]; rfl, rfl⟩
      · -- the second look finds nothing either
        obtain rfl : q.record n = q' := congrArg Prod.fst (hfirst.symm.trans hlook)
        have hrecorded : (Strategy.sharded (q.record n)).HasNoneFor worker now := h
        obtain ⟨m, hsecond⟩ := (Sharded.Sound.record hs n).tryPop_of_hasNoneFor hrecorded
        exact ⟨sharded ((q.record n).record m), by rw [heq, hsecond]; rfl, rfl⟩

/-- A worker that need not stay up need not do so later, before the next delayed task gets ready. -/
theorem hasWorkFor_later (h : s.hasWorkFor worker now = false)
    (hnext : ∀ t ∈ s.nextReadyAt, later < t) : s.hasWorkFor worker later = false := by
  have hlate : s.nextReadyAt.any (· ≤ later) = false := by
    cases ht : s.nextReadyAt with
    | none => rfl
    | some t => exact decide_eq_false (Int.not_le.2 (hnext t ht))
  cases s with
  | locked q => exact Bool.or_eq_false_iff.2 ⟨(Bool.or_eq_false_iff.1 h).1, hlate⟩
  | sharded q => exact Bool.or_eq_false_iff.2 ⟨(Bool.or_eq_false_iff.1 h).1, hlate⟩

end Strategy

namespace Pool

variable {p q r : Pool α}

/-! ## The passing of time -/

/-- Whether time has passed, and nothing else has happened than that workers have looked in vain. -/
def Passes (p q : Pool α) : Prop :=
  ∃ now queue, q = { p with clock := now, queue := queue } ∧ queue.bare = p.queue.bare

theorem Passes.refl (p : Pool α) : p.Passes p := ⟨p.clock, p.queue, rfl, rfl⟩

theorem Passes.trans (h : p.Passes q) (h' : q.Passes r) : p.Passes r := by
  obtain ⟨_, _, rfl, hbare⟩ := h
  obtain ⟨now, queue, rfl, hbare'⟩ := h'
  exact ⟨now, queue, rfl, hbare'.trans hbare⟩

theorem Passes.outstanding_eq (h : p.Passes q) : q.outstanding = p.outstanding := by
  obtain ⟨_, _, rfl, -⟩ := h
  rfl

theorem Passes.outcome?_eq (h : p.Passes q) (id : Nat) : q.outcome? id = p.outcome? id := by
  obtain ⟨_, _, rfl, -⟩ := h
  rfl

/-! ## The next wake-up -/

/-- The instants at which workers can do something by themselves: a sleep ends, or the next delayed task
gets ready while a worker waits. -/
def wakes (p : Pool α) : List Instant :=
  p.workers.filterMap Worker.wakeAt? ++
    if p.workers.any Worker.isWaiting then p.queue.strategy.nextReadyAt.toList else []

/-- The next wake-up is the earliest of these instants. -/
theorem nextWake_cases (p : Pool α) : (∀ m ∈ p.nextWake, m ∈ p.wakes) ∧
    ∀ t ∈ p.wakes, ∃ m ∈ p.nextWake, m ≤ t := by
  have hcases := foldl_earliest?_cases (p.workers.filterMap Worker.wakeAt?)
  unfold nextWake wakes
  simp only
  generalize (p.workers.filterMap Worker.wakeAt?).foldl
    (fun wake t => Instant.earliest? wake (some t)) none = sleeps at hcases
  obtain ⟨hmem, hle⟩ : (∀ m ∈ sleeps, m ∈ p.workers.filterMap Worker.wakeAt?) ∧
      ∀ t ∈ p.workers.filterMap Worker.wakeAt?, ∃ m ∈ sleeps, m ≤ t := by
    rcases hcases with ⟨hnil, rfl⟩ | ⟨m, rfl, hm, hbefore⟩
    · simp [hnil]
    · refine ⟨fun first hfirst => ?_, fun t ht => ⟨m, rfl, hbefore t ht⟩⟩
      obtain rfl := Option.some.inj hfirst
      exact hm
  split
  · refine ⟨fun m hm => ?_, fun t ht => ?_⟩
    · rcases Instant.earliest?_eq_some hm with heq | heq
      · exact List.mem_append_left _ (hmem m heq)
      · exact List.mem_append_right _ (Option.mem_toList.2 heq)
    · cases hnext : Instant.earliest? sleeps p.queue.strategy.nextReadyAt with
      | none =>
          obtain ⟨rfl, hnone⟩ := Instant.earliest?_eq_none hnext
          rcases List.mem_append.1 ht with hsleep | hready
          · obtain ⟨m, hm, -⟩ := hle t hsleep
            contradiction
          · rw [hnone] at hready
            contradiction
      | some m =>
          obtain ⟨hsleeps, hnextReady⟩ := Instant.earliest?_le hnext
          refine ⟨m, rfl, ?_⟩
          rcases List.mem_append.1 ht with hsleep | hready
          · obtain ⟨first, hfirst, hbefore⟩ := hle t hsleep
            exact Int.le_trans (hsleeps first hfirst) hbefore
          · exact hnextReady t (Option.mem_toList.1 hready)
  · rw [List.append_nil]
    exact ⟨hmem, hle⟩

theorem mem_wakes_of_busy {run : Run α} (h : .busy run ∈ p.workers) : run.wakeAt ∈ p.wakes :=
  List.mem_append_left _ (List.mem_filterMap.2 ⟨_, h, rfl⟩)

theorem mem_wakes_of_waiting {t : Instant} (h : .waiting ∈ p.workers)
    (ht : t ∈ p.queue.strategy.nextReadyAt) : t ∈ p.wakes := by
  have hwaiting : p.workers.any Worker.isWaiting = true := List.any_eq_true.2 ⟨_, h, rfl⟩
  refine List.mem_append_right _ ?_
  rw [if_pos hwaiting]
  exact Option.mem_toList.2 ht

/-! ## Turns at rest -/

/-- In a pool at rest every wake-up is still to come. -/
theorem Rested.lt_of_mem_wakes (h : p.Rested) {t : Instant} (ht : t ∈ p.wakes) : p.clock < t := by
  rcases List.mem_append.1 ht with hbusy | hwaiting
  · obtain ⟨w, hw, hwake⟩ := List.mem_filterMap.1 hbusy
    obtain ⟨index, hindex⟩ := List.mem_iff_getElem?.1 hw
    have hstill := h.stillAt index w hindex
    cases w with
    | busy run =>
        obtain rfl : run.wakeAt = t := Option.some.inj hwake
        exact hstill
    | _ => contradiction
  · split at hwaiting
    · rename_i hany
      obtain ⟨w, hw, hwaits⟩ := List.any_eq_true.1 hany
      obtain ⟨index, hindex⟩ := List.mem_iff_getElem?.1 hw
      cases w with
      | waiting =>
          have hwork := (h.hasWorkFor_eq_false hindex).2
          exact Strategy.sleepsBeyond_of_hasWorkFor hwork t (Option.mem_toList.1 hwaiting)
      | _ => contradiction
    · contradiction

/-- Until the next wake-up a pool at rest stays so. -/
theorem Rested.withClock (h : p.Rested) (hle : p.clock ≤ now)
    (hbefore : ∀ wake ∈ p.nextWake, now < wake) : { p with clock := now }.Rested := by
  have hlate : ∀ t ∈ p.wakes, now < t := by
    intro t ht
    obtain ⟨m, hm, hmt⟩ := (nextWake_cases p).2 t ht
    exact Int.lt_of_lt_of_le (hbefore m hm) hmt
  have hsound := h.orderly.sound.mono hle
  refine ⟨⟨hsound, h.orderly.closed_of_interrupted⟩, fun index w hw => ?_, { h.manned with }⟩
  have hmem := List.mem_of_getElem? hw
  cases w with
  | seeking => exact h.stillAt index _ hw
  | waiting =>
      obtain ⟨hcalm, hwork⟩ := h.hasWorkFor_eq_false hw
      have hwork' := Strategy.hasWorkFor_later hwork fun t ht =>
        hlate t (mem_wakes_of_waiting hmem ht)
      exact ⟨(h.stillAt index _ hw).1, (hsound.strategy.hasWorkFor_eq_false_iff hcalm).1 hwork'⟩
  | busy run => exact hlate _ (mem_wakes_of_busy hmem)
  | stopped => trivial

/-- A waiting worker of a pool at rest looks into the queue in vain, and sleeps on. -/
theorem Rested.afterLook_eq (h : p.Rested) {index : Nat}
    (hwaiting : p.workers[index]? = some .waiting) :
    ∃ queue, p.afterLook index (p.queue.look index p.clock) = ({ p with queue := queue }, .waiting) ∧
      queue.bare = p.queue.bare := by
  obtain ⟨hopen, hnone⟩ := h.stillAt index _ hwaiting
  obtain ⟨hcalm, -⟩ := h.hasWorkFor_eq_false hwaiting
  have hawake := Strategy.sameTasks_rouse p.queue.strategy
  obtain ⟨s, hlook, hbare⟩ := (hawake.sound _ h.orderly.sound.strategy).attempt_of_hasNoneFor
    (hnone.of_bare_eq (Strategy.bare_rouse _))
  rw [Strategy.bare_rouse] at hbare
  have hfound : p.queue.look index p.clock = ({ p.queue with strategy := s }, none) := by
    unfold TaskQueue.look
    rw [hlook]
    rfl
  have hcalm' : s.isInterrupted = false := (Strategy.isInterrupted_eq_of_bare hbare).trans hcalm
  -- the queue is open and no wait is to be given up, so the worker sleeps on
  refine ⟨TaskQueue.sleep { p.queue with strategy := s }, ?_, ?_⟩
  · rw [hfound]
    simp [afterLook, hopen, hcalm']
  · simp [TaskQueue.bare, TaskQueue.sleep, hbare]

/-- A turn at rest changes nothing but counts. -/
theorem Rested.turnAt_eq (h : p.Rested) (index : Nat) :
    ∃ queue, p.turnAt index = { p with queue := queue } ∧ queue.bare = p.queue.bare := by
  unfold turnAt
  cases hw : p.workers[index]? with
  | none => exact ⟨p.queue, rfl, rfl⟩
  | some w =>
      have hstill := h.stillAt index w hw
      have hset : p.workers.set index w = p.workers := by
        obtain ⟨hlt, rfl⟩ := List.getElem?_eq_some_iff.1 hw
        exact List.set_getElem_self hlt
      cases w with
      | seeking => exact absurd hstill id
      | waiting =>
          obtain ⟨queue, hlook, hbare⟩ := h.afterLook_eq hw
          have hturn : p.turn index .waiting = ({ p with queue := queue }, .waiting) := hlook
          simp only [hturn]
          exact ⟨queue, by rw [hset], hbare⟩
      | busy run =>
          have hturn : p.turn index (.busy run) = (p, .busy run) := if_neg (Int.not_le.2 hstill)
          simp only [hturn]
          exact ⟨p.queue, by rw [hset], rfl⟩
      | stopped =>
          have hturn : p.turn index .stopped = (p, .stopped) := rfl
          simp only [hturn]
          exact ⟨p.queue, by rw [hset], rfl⟩

/-- What changes nothing but counts leaves a pool at rest. -/
theorem Rested.withQueue (h : p.Rested) {queue : TaskQueue (Job α)} (hbare : queue.bare = p.queue.bare)
    (horderly : { p with queue := queue }.Orderly) (hmanned : { p with queue := queue }.Manned) :
    { p with queue := queue }.Rested :=
  have hsame : p.Undisturbed { p with queue := queue } := ⟨rfl, hbare⟩
  ⟨horderly, fun index w hw => hsame.isStill (h.stillAt index w hw), hmanned⟩

theorem Rested.turnAt (h : p.Rested) (index : Nat) : (p.turnAt index).Rested := by
  have hworks := works_turnAt p index
  have horderly := hworks.orderly h.orderly
  have hmanned := h.manned.grows (hworks.carries h.orderly.sound).toGrows
  obtain ⟨queue, heq, hbare⟩ := h.turnAt_eq index
  rw [heq] at horderly hmanned ⊢
  exact h.withQueue hbare horderly hmanned

/-- Turns at rest change nothing but counts. -/
theorem Rested.passes_settle (h : p.Rested) : p.Passes p.settle := by
  -- each turn leaves the pool at rest, so that the next one changes nothing either
  refine (keeps_settle (I := fun q => q.Rested ∧ p.Passes q)
    (fun q index hq => ⟨hq.1.turnAt index, hq.2.trans ?_⟩) ⟨h, .refl p⟩).2
  obtain ⟨queue, heq, hbare⟩ := hq.1.turnAt_eq index
  exact ⟨q.clock, queue, heq, hbare⟩

end Pool

end Dispatch
