import Dispatch.Proofs.Pool.Crew
/-!
# What looks leave to idle workers

A look, at the whole queue or at the shards only, leaves as many idle workers as before for what is left
to be done: whoever stops being idle takes a ready task along.
-/

namespace Dispatch

variable {α : Type}

namespace Pool

variable {p q : Pool α} {index : Nat}

/-- How many workers neither run a body nor have stopped. -/
def idle (p : Pool α) : Nat := p.workers.countP Worker.isIdle

/-! ## Looks -/

/-- A pool with the worker of a number put where it is after its turn. -/
def withWorker (index : Nat) (r : Pool α × Worker α) : Pool α :=
  { r.1 with workers := r.1.workers.set index r.2 }

/-- A look leaves the queue as it finds it, and may put the worker to sleep. -/
theorem queue_afterLook (p : Pool α) (index : Nat) (r : TaskQueue (Job α) × Option (Task (Job α))) :
    (p.afterLook index r).1.queue = r.1 ∨
      r.2 = none ∧ (p.afterLook index r).1.queue = r.1.sleep := by
  obtain ⟨queue, found⟩ := r
  cases found with
  | some t => exact .inl (takesOn_takeOn p queue t).queue_eq
  | none =>
      unfold afterLook
      dsimp only
      split
      · exact .inl rfl
      · split
        · exact .inl rfl
        · exact .inr ⟨rfl, rfl⟩

theorem bare_afterLook (p : Pool α) (index : Nat) (r : TaskQueue (Job α) × Option (Task (Job α))) :
    (p.afterLook index r).1.queue.bare = r.1.bare := by
  rcases queue_afterLook p index r with heq | ⟨-, heq⟩
  · rw [heq]
  · rw [heq]
    exact congrArg (fun s => { r.1 with strategy := s }) (Strategy.bare_sleep r.1.strategy)

theorem sameFrame_afterLook (p : Pool α) (index : Nat)
    (r : TaskQueue (Job α) × Option (Task (Job α))) : SameFrame p (p.afterLook index r).1 := by
  obtain ⟨queue, found⟩ := r
  cases found with
  | some t => exact (takesOn_takeOn p queue t).sameFrame
  | none =>
      unfold afterLook
      simp only
      split
      · exact ⟨rfl, rfl, rfl⟩
      · split <;> exact ⟨rfl, rfl, rfl⟩

/-- As long as the queue is open, a worker that finds nothing stays idle. -/
theorem isIdle_afterLook (p : Pool α) (index : Nat) {r : TaskQueue (Job α) × Option (Task (Job α))}
    (hfound : r.2 = none) (hopen : r.1.closed = false) : (p.afterLook index r).2.isIdle = true := by
  obtain ⟨queue, found⟩ := r
  obtain rfl : found = none := hfound
  unfold afterLook
  simp only [show queue.closed = false from hopen]
  split
  · contradiction
  · split <;> rfl

/-- Whether a pool is another one after an idle worker has looked at it and left its tasks in another
arrangement. -/
structure LookedAt (p : Pool α) (index : Nat) (s : Strategy (Job α)) (q : Pool α) : Prop where
  handsOut : ∃ ts, TaskQueue.HandsOut p.clock ts p.queue q.queue
  bare_eq : q.queue.strategy.bare = s.bare
  clock_eq : q.clock = p.clock
  closed_eq : q.queue.closed = p.queue.closed
  length_eq : q.workers.length = p.workers.length
  workers_ne : ∀ other, other ≠ index → q.workers[other]? = p.workers[other]?
  idle_le : p.idle ≤ q.idle + 1
  /-- If the worker is idle no more, then a ready task has gone with it. -/
  countP_le : p.queue.closed = false → ∀ f : Task (Job α) → Bool,
    (∀ t, t.isReady p.clock = true → f t = true) →
      q.queue.tasks.countP f + p.idle ≤ p.queue.tasks.countP f + q.idle

theorem lookedAt_afterLook {w : Worker α} {r : TaskQueue (Job α) × Option (Task (Job α))}
    (hw : p.workers[index]? = some w) (hidle : w.isIdle = true)
    (hout : TaskQueue.HandsOut p.clock r.2.toList p.queue r.1)
    (hready : ∀ t ∈ r.2, t.isReady p.clock = true) (hclosed : r.1.closed = p.queue.closed) :
    p.LookedAt index r.1.strategy (withWorker index (p.afterLook index r)) := by
  have hframe := sameFrame_afterLook p index r
  have hbare := bare_afterLook p index r
  have hafter : TaskQueue.HandsOut p.clock r.2.toList p.queue (p.afterLook index r).1.queue := by
    rcases queue_afterLook p index r with heq | ⟨-, heq⟩
    · rw [heq]
      exact hout
    · rw [heq, ← List.append_nil r.2.toList]
      exact hout.trans hout.sound.sleep
  obtain ⟨hindex, hget⟩ := List.getElem?_eq_some_iff.1 hw
  have hidle' : (withWorker index (p.afterLook index r)).idle =
      p.idle - 1 + if (p.afterLook index r).2.isIdle then 1 else 0 := by
    unfold idle withWorker
    simp only
    rw [hframe.workers_eq, List.countP_set hindex, hget, if_pos hidle]
  refine ⟨⟨_, hafter⟩, congrArg TaskQueue.strategy hbare, hframe.clock_eq, ?_, ?_,
    fun other hne => ?_, ?_, fun hopen f hf => ?_⟩
  · exact (congrArg TaskQueue.closed hbare).trans hclosed
  · exact List.length_set.trans (congrArg List.length hframe.workers_eq)
  · simp only [withWorker, List.getElem?_set_ne hne.symm, hframe.workers_eq]
  · rw [hidle']
    omega
  · have hpos : 0 < p.idle := List.countP_pos_iff.2 ⟨w, List.mem_of_getElem? hw, hidle⟩
    have htasks := hafter.tasks_perm.countP_eq f
    rw [List.countP_append] at htasks
    change (p.afterLook index r).1.queue.tasks.countP f + p.idle ≤ _
    rw [hidle', htasks]
    cases hfound : r.2 with
    | some t =>
        have ht : f t = true := hf t (hready t hfound)
        simp only [Option.toList_some, List.countP_singleton, if_pos ht]
        split <;> omega
    | none =>
        rw [if_pos (isIdle_afterLook p index hfound (hclosed.trans hopen))]
        simp only [Option.toList_none, List.countP_nil]
        omega

theorem turnAt_eq {w : Worker α} (hw : p.workers[index]? = some w) :
    p.turnAt index = withWorker index (p.turn index w) := by
  unfold turnAt withWorker
  rw [hw]

/-- A turn of an idle worker is a whole look. -/
theorem lookedAt_turnAt (hs : p.queue.Sound p.clock) {w : Worker α}
    (hw : p.workers[index]? = some w) (hidle : w.isIdle = true) :
    ∃ s, Strategy.SameTasks p.queue.strategy s ∧ s.bare = p.queue.strategy.bare ∧
      p.LookedAt index (s.attempt index p.clock).1 (p.turnAt index) := by
  have hlooked : ∀ s : Strategy (Job α), Strategy.SameTasks p.queue.strategy s →
      s.isInterrupted = p.queue.strategy.isInterrupted →
        p.LookedAt index (s.attempt index p.clock).1
          (withWorker index (p.afterLook index (p.queue.took (s.attempt index p.clock)))) := by
    intro s hsame hflag
    have hlooks := hs.looks hsame hflag index
    have h := lookedAt_afterLook hw hidle hlooks.handsOut hlooks.isReady hlooks.closed_eq
    rwa [TaskQueue.took_strategy] at h
  rw [turnAt_eq hw]
  cases w with
  | seeking =>
      have hsame := Strategy.sameTasks_enter p.queue.strategy
      exact ⟨_, hsame, Strategy.bare_enter _, hlooked _ hsame (Strategy.isInterrupted_enter _)⟩
  | waiting =>
      have hsame := Strategy.sameTasks_rouse p.queue.strategy
      exact ⟨_, hsame, Strategy.bare_rouse _, hlooked _ hsame (Strategy.isInterrupted_rouse _)⟩
  | busy run => contradiction
  | stopped => contradiction

/-- A turn of a worker that is not idle leaves the queue as it is. -/
theorem queue_turn_of_not_isIdle (p : Pool α) (index : Nat) {w : Worker α} (h : w.isIdle = false) :
    (p.turn index w).1.queue = p.queue := by
  cases w with
  | seeking => contradiction
  | waiting => contradiction
  | stopped => rfl
  | busy run =>
      show (if _ then _ else _ : Pool α × Worker α).1.queue = _
      split
      · exact (proceeds_proceed p run.task run.rest).queue_eq
      · rfl

/-- No such turn makes an idle worker busy. -/
theorem turnAt_of_not_isIdle (hs : p.queue.Sound p.clock)
    (hidle : (p.workers[index]?).any Worker.isIdle = false) :
    (p.turnAt index).queue = p.queue ∧ p.idle ≤ (p.turnAt index).idle := by
  cases hw : p.workers[index]? with
  | none =>
      have hturn : p.turnAt index = p := by
        unfold turnAt
        rw [hw]
      rw [hturn]
      exact ⟨rfl, Nat.le_refl _⟩
  | some w =>
      rw [hw, Option.any_some] at hidle
      obtain ⟨hindex, hget⟩ := List.getElem?_eq_some_iff.1 hw
      rw [turnAt_eq hw]
      refine ⟨queue_turn_of_not_isIdle p index hidle, ?_⟩
      unfold idle withWorker
      simp only
      rw [(turned_turn hs index w).sameFrame.workers_eq, List.countP_set hindex, hget, hidle]
      simp

/-- A worker is left alone by the turns of the others. -/
theorem workers_turnAt_ne (hs : p.queue.Sound p.clock) {other : Nat} (hne : other ≠ index) :
    (p.turnAt index).workers[other]? = p.workers[other]? := by
  rcases turnAt_cases hs index with ⟨-, heq⟩ | ⟨w, p', w', -, hturned, heq⟩
  · rw [heq]
  · rw [heq]
    simp only [List.getElem?_set_ne hne.symm, hturned.sameFrame.workers_eq]

/-- A look at the shards only takes a ready task of theirs, or none. -/
theorem lookedAt_glanceAt (hs : p.queue.Sound p.clock) (index : Nat) :
    p.glanceAt index = p ∨
      ∃ s, Strategy.SameTasks p.queue.strategy s ∧ s.bare = p.queue.strategy.bare ∧
        p.LookedAt index (s.glance index).1 (p.glanceAt index) := by
  have hlooked : ∀ (s : Strategy (Job α)) (w : Worker α), p.workers[index]? = some w →
      w.isIdle = true → Strategy.SameTasks p.queue.strategy s →
        s.isInterrupted = p.queue.strategy.isInterrupted →
          p.LookedAt index (s.glance index).1
            (withWorker index (p.afterLook index (p.queue.took (s.glance index)))) := by
    intro s w hw hidle hsame hflag
    have hyields := ((hsame.sound _ hs.strategy).glance index).of_sameTasks hsame hflag
    have hout : TaskQueue.HandsOut p.clock (p.queue.took (s.glance index)).2.toList p.queue
        (p.queue.took (s.glance index)).1 := by
      rw [TaskQueue.took_snd]
      exact hs.took hyields
    have hready : ∀ t ∈ (p.queue.took (s.glance index)).2, t.isReady p.clock = true := by
      rw [TaskQueue.took_snd]
      exact hyields.isReady
    have h := lookedAt_afterLook hw hidle hout hready (TaskQueue.took_closed _)
    rwa [TaskQueue.took_strategy] at h
  unfold glanceAt
  cases hw : p.workers[index]? with
  | none => exact .inl rfl
  | some w =>
      cases w with
      | seeking =>
          right
          have hsame := Strategy.sameTasks_enter p.queue.strategy
          exact ⟨_, hsame, Strategy.bare_enter _,
            hlooked _ _ hw rfl hsame (Strategy.isInterrupted_enter _)⟩
      | waiting =>
          right
          have hsame := Strategy.sameTasks_rouse p.queue.strategy
          exact ⟨_, hsame, Strategy.bare_rouse _,
            hlooked _ _ hw rfl hsame (Strategy.isInterrupted_rouse _)⟩
      | busy run => exact .inl rfl
      | stopped => exact .inl rfl

theorem workers_glanceAt_ne (hs : p.queue.Sound p.clock) {other : Nat} (hne : other ≠ index) :
    (p.glanceAt index).workers[other]? = p.workers[other]? := by
  rcases lookedAt_glanceAt hs index with heq | ⟨s, -, -, hlooked⟩
  · rw [heq]
  · exact hlooked.workers_ne other hne

/-- It leaves the delayed tasks alone. -/
theorem deferred_glanceAt (hs : p.queue.Sound p.clock) (index : Nat) :
    (p.glanceAt index).queue.strategy.deferred = p.queue.strategy.deferred := by
  rcases lookedAt_glanceAt hs index with heq | ⟨s, -, hbare, hlooked⟩
  · rw [heq]
  · rw [← Strategy.deferred_bare, hlooked.bare_eq, Strategy.deferred_bare, Strategy.deferred_glance,
      ← Strategy.deferred_bare, hbare, Strategy.deferred_bare]

end Pool

end Dispatch
