import Dispatch.Proofs.Queue.Single
/-!
# Queues that cannot be told apart

Two queues are alike if they hold the same tasks in one backlog each, wherever the tasks are in it: one
of them may have moved a task to the ready ones that the other one still has among the delayed ones. Any
operation gives the same answer at both and leaves them alike, and what changes the strategy of one of
them only does so too.
-/

namespace Dispatch

variable {β : Type} {now later : Instant}

/-- The earlier of two instants is one of them. -/
theorem Instant.earliest?_eq_some {a b : Option Instant} {t : Instant}
    (h : Instant.earliest? a b = some t) : a = some t ∨ b = some t := by
  cases a with
  | none => exact .inr h
  | some a =>
      cases b with
      | none => exact .inl h
      | some b =>
          obtain rfl := Option.some.inj h
          rcases Int.le_total a b with hle | hle
          · exact .inl (congrArg some (Int.min_eq_left hle).symm)
          · exact .inr (congrArg some (Int.min_eq_right hle).symm)

namespace Strategy

variable {s s' : Strategy β}

/-- Whether two strategies hold the same tasks in one backlog each. -/
structure Alike (now : Instant) (s s' : Strategy β) : Prop where
  sound : s.Sound now
  sound' : s'.Sound now
  undivided : s.Undivided
  undivided' : s'.Undivided
  tasks_perm : s.tasks.Perm s'.tasks
  ids_nodup : (s.tasks.map Task.id).Nodup

theorem Alike.mono (h : Alike now s s') (hle : now ≤ later) : Alike later s s' :=
  { h with sound := h.sound.mono hle, sound' := h.sound'.mono hle }

/-- What is held is all that counts. -/
theorem Alike.sameTasks (h : Alike now s s') {r r' : Strategy β} (hr : SameTasks s r)
    (hr' : SameTasks s' r') : Alike now r r' where
  sound := hr.sound now h.sound
  sound' := hr'.sound now h.sound'
  undivided := h.undivided.of_shape_eq hr.shape_eq
  undivided' := h.undivided'.of_shape_eq hr'.shape_eq
  tasks_perm := by rw [hr.tasks_eq, hr'.tasks_eq]; exact h.tasks_perm
  ids_nodup := by rw [hr.tasks_eq]; exact h.ids_nodup

/-- Looks at both find the same task. -/
theorem Alike.attempt_snd (h : Alike now s s') (worker : Nat) :
    (s'.attempt worker now).2 = (s.attempt worker now).2 :=
  Task.IsNext.unique h.ids_nodup
    ((h.sound'.isNext_attempt h.undivided' worker).perm h.tasks_perm.symm)
    (h.sound.isNext_attempt h.undivided worker)

/-- Looks that find nothing leave both alike. -/
theorem Alike.misses (h : Alike now s s') {r r' : Strategy β} (hr : Yields now s (r, none))
    (hr' : Yields now s' (r', none)) : Alike now r r' where
  sound := hr.sound
  sound' := hr'.sound
  undivided := h.undivided.of_shape_eq hr.shape_eq
  undivided' := h.undivided'.of_shape_eq hr'.shape_eq
  tasks_perm := hr.tasks_perm.symm.trans (h.tasks_perm.trans hr'.tasks_perm)
  ids_nodup := (hr.tasks_perm.map Task.id).nodup_iff.1 h.ids_nodup

/-- While no task is ready, both have something to do again at the same instant. -/
theorem Alike.nextReadyAt_eq (h : Alike now s s') (hlate : ∀ t ∈ s.tasks, t.isReady now = false) :
    s'.nextReadyAt = s.nextReadyAt := by
  have hlate' : ∀ t ∈ s'.tasks, t.isReady now = false := fun t ht =>
    hlate t (h.tasks_perm.mem_iff.2 ht)
  exact ((h.sound'.isSoonest_nextReadyAt hlate').perm h.tasks_perm.symm).unique
    (h.sound.isSoonest_nextReadyAt hlate)

/-! ## Waits -/

end Strategy

/-- How a wait ends whose last look is due. -/
def Wait.ofFound : Option (Task β) → Wait β
  | some t => .task t
  | none => .timedOut

namespace Strategy

variable {s s' : Strategy β} {worker : Nat} {deadline : Option Instant}

/-- Where a task is ready or the deadline has come, one look is enough. -/
theorem Sound.waitLooks_of_due (hs : s.Sound now) (hone : s.Undivided)
    (hcalm : s.isInterrupted = false)
    (hdue : deadline = some later ∧ later ≤ now ∨ ∃ t ∈ s.tasks, t.isReady now = true) (looks : Nat) :
    (s.waitLooks worker deadline (looks + 1) now).2 = (now, .ofFound (s.attempt worker now).2) := by
  have hnext := hs.isNext_attempt hone worker
  have hyields := hs.attempt worker
  unfold Strategy.waitLooks
  cases hlook : s.attempt worker now with
  | mk r found =>
      rw [hlook] at hnext hyields
      cases found with
      | some t => rfl
      | none =>
          have hr : r.isInterrupted = false := hyields.isInterrupted_eq.trans hcalm
          rcases hdue with ⟨rfl, hle⟩ | ⟨t, ht, hready⟩
          · simp [hr, hle, Wait.ofFound]
          · rw [hnext t ht] at hready
            contradiction

/-- Of waits that sleep because no task is ready, the next look is the last one: by then the deadline
has come or a task is ready. -/
theorem Alike.waitLooks_asleep (h : Alike now s s') (hcalm : s.isInterrupted = false)
    (hcalm' : s'.isInterrupted = false) (hlate : ∀ t ∈ s.tasks, t.isReady now = false)
    {wakeAt : Instant} (hwake : Instant.earliest? deadline s.nextReadyAt = some wakeAt)
    (looks looks' : Nat) :
    (s'.sleep.rouse.waitLooks worker deadline (looks' + 1) (max now wakeAt)).2 =
      (s.sleep.rouse.waitLooks worker deadline (looks + 1) (max now wakeAt)).2 := by
  have hrouse : ∀ s : Strategy β, SameTasks s s.sleep.rouse := fun s =>
    (sameTasks_sleep s).trans (sameTasks_rouse s.sleep)
  have hlater := (h.sameTasks (hrouse s) (hrouse s')).mono (Int.le_max_left now wakeAt)
  -- the instant of waking is the deadline, or that at which the soonest task gets ready
  have hdue : deadline = some wakeAt ∧ wakeAt ≤ max now wakeAt ∨
      ∃ t ∈ s.sleep.rouse.tasks, t.isReady (max now wakeAt) = true := by
    rcases Instant.earliest?_eq_some hwake with heq | heq
    · exact .inl ⟨heq, Int.le_max_right now wakeAt⟩
    · have hsoonest := h.sound.isSoonest_nextReadyAt hlate
      rw [heq] at hsoonest
      obtain ⟨⟨t, ht, hready⟩, -⟩ := hsoonest
      rw [(hrouse s).tasks_eq]
      exact .inr ⟨t, ht, Task.isReady_iff.2 (hready ▸ Int.le_max_right now _)⟩
  have hdue' := hdue.imp_right fun ⟨t, ht, hready⟩ =>
    (⟨t, hlater.tasks_perm.mem_iff.1 ht, hready⟩ :
      ∃ t ∈ s'.sleep.rouse.tasks, t.isReady (max now wakeAt) = true)
  rw [hlater.sound.waitLooks_of_due hlater.undivided (by simpa using hcalm) hdue,
    hlater.sound'.waitLooks_of_due hlater.undivided' (by simpa using hcalm') hdue',
    hlater.attempt_snd]

/-- Waits at both end at the same instant and in the same way, however many looks they may take beyond
the second one. -/
theorem Alike.waitLooks_snd (h : Alike now s s') (hint : s'.isInterrupted = s.isInterrupted)
    (looks looks' : Nat) :
    (s'.waitLooks worker deadline (looks' + 2) now).2 =
      (s.waitLooks worker deadline (looks + 2) now).2 := by
  have hfound := h.attempt_snd worker
  have hnext := h.sound.isNext_attempt h.undivided worker
  have hyields := h.sound.attempt worker
  have hyields' := h.sound'.attempt worker
  unfold Strategy.waitLooks
  cases hlook : s.attempt worker now with
  | mk r found =>
      cases hlook' : s'.attempt worker now with
      | mk r' found' =>
          rw [hlook] at hnext hyields hfound
          rw [hlook'] at hyields' hfound
          obtain rfl : found' = found := hfound
          cases found' with
          | some t => rfl
          | none =>
              -- both give up, stop at the deadline or sleep until the same instant
              have hr := h.misses hyields hyields'
              have hflag : r'.isInterrupted = r.isInterrupted :=
                hyields'.isInterrupted_eq.trans (hint.trans hyields.isInterrupted_eq.symm)
              have hlate : ∀ t ∈ r.tasks, t.isReady now = false := fun t ht =>
                hnext t (hyields.tasks_perm.mem_iff.2 ht)
              simp only [hflag, hr.nextReadyAt_eq hlate]
              split
              · rfl
              split
              · rfl
              split
              · rfl
              · rename_i hcalm _ _ wakeAt hwake
                have hcalm : r.isInterrupted = false := Bool.eq_false_iff.2 hcalm
                exact hr.waitLooks_asleep hcalm (hflag.trans hcalm) hlate hwake looks looks'

theorem Alike.popWait_snd (h : Alike now s s') (hint : s'.isInterrupted = s.isInterrupted) :
    (s'.popWait worker deadline now).2 = (s.popWait worker deadline now).2 :=
  (h.sameTasks (sameTasks_enter s) (sameTasks_enter s')).waitLooks_snd
    (by rw [isInterrupted_enter, isInterrupted_enter, hint]) _ _

end Strategy

/-! ## Queues -/

namespace TaskQueue

variable {q q' r r' : TaskQueue β} {t : Task β}

/-- Whether two queues hold the same tasks in one backlog each, and are as open and as large. -/
structure Alike (now : Instant) (q q' : TaskQueue β) : Prop where
  sound : q.Sound now
  sound' : q'.Sound now
  undivided : q.Undivided
  undivided' : q'.Undivided
  tasks_perm : q.tasks.Perm q'.tasks
  ids_nodup : (q.tasks.map Task.id).Nodup
  capacity_eq : q'.capacity = q.capacity
  closed_eq : q'.closed = q.closed

/-- New queues are alike, whatever their strategies are. -/
theorem alike_ofKind (kind kind' : StrategyKind) (capacity : Nat) (stealing stealing' : Bool) :
    Alike now (ofKind kind capacity 1 stealing : TaskQueue β) (ofKind kind' capacity 1 stealing') where
  sound := sound_ofKind kind capacity 1 stealing
  sound' := sound_ofKind kind' capacity 1 stealing'
  undivided := undivided_ofKind kind capacity stealing
  undivided' := undivided_ofKind kind' capacity stealing'
  tasks_perm := by simp
  ids_nodup := by simp
  capacity_eq := rfl
  closed_eq := rfl

theorem Alike.symm (h : Alike now q q') : Alike now q' q where
  sound := h.sound'
  sound' := h.sound
  undivided := h.undivided'
  undivided' := h.undivided
  tasks_perm := h.tasks_perm.symm
  ids_nodup := (h.tasks_perm.map Task.id).nodup_iff.1 h.ids_nodup
  capacity_eq := h.capacity_eq.symm
  closed_eq := h.closed_eq.symm

theorem Alike.trans {q'' : TaskQueue β} (h : Alike now q q') (h' : Alike now q' q'') :
    Alike now q q'' :=
  { h with
    sound' := h'.sound'
    undivided' := h'.undivided'
    tasks_perm := h.tasks_perm.trans h'.tasks_perm
    capacity_eq := h'.capacity_eq.trans h.capacity_eq
    closed_eq := h'.closed_eq.trans h.closed_eq }

theorem Alike.mono (h : Alike now q q') (hle : now ≤ later) : Alike later q q' :=
  { h with sound := h.sound.mono hle, sound' := h.sound'.mono hle }

theorem Alike.depth_eq (h : Alike now q q') : q'.depth = q.depth := by
  rw [h.sound.depth_eq, h.sound'.depth_eq, h.tasks_perm.length_eq]

theorem Alike.strategy (h : Alike now q q') : Strategy.Alike now q.strategy q'.strategy where
  sound := h.sound.strategy
  sound' := h.sound'.strategy
  undivided := h.undivided.strategy
  undivided' := h.undivided'.strategy
  tasks_perm := h.tasks_perm
  ids_nodup := h.ids_nodup

/-- Queues stay alike when both hand out the same tasks. -/
theorem Alike.handsOut (h : Alike now q q') {ts ts' : List (Task β)} (hr : HandsOut later ts q r)
    (hr' : HandsOut later ts' q' r') (hts : ts.Perm ts') (hclosed : r'.closed = r.closed) :
    Alike later r r' where
  sound := hr.sound
  sound' := hr'.sound
  undivided := h.undivided.of_sameSettings hr.toSameSettings
  undivided' := h.undivided'.of_sameSettings hr'.toSameSettings
  tasks_perm := by
    -- what has left is the same, so that it cancels out
    have hperm := hr.tasks_perm.symm.trans (h.tasks_perm.trans hr'.tasks_perm)
    exact (List.perm_append_left_iff ts).1 (hperm.trans (hts.symm.append_right _))
  ids_nodup := by
    have hall := (hr.tasks_perm.map Task.id).nodup_iff.1 h.ids_nodup
    rw [List.map_append] at hall
    exact (List.nodup_append.1 hall).2.1
  capacity_eq := hr'.capacity_eq.trans (h.capacity_eq.trans hr.capacity_eq.symm)
  closed_eq := hclosed

/-- What hands nothing out can be done to one of them only. -/
theorem Alike.handsOut_nil (h : Alike now q q') (hr : HandsOut now [] q' r)
    (hclosed : r.closed = q'.closed) : Alike now q r :=
  h.handsOut h.sound.handsOut_nil hr (List.Perm.refl _) (hclosed.trans h.closed_eq)

/-- What is found by looks that take the next task is the same. -/
theorem Alike.found_eq (h : Alike now q q') {found found' : Option (Task β)}
    (hnext : Task.IsNext now q.tasks found) (hnext' : Task.IsNext now q'.tasks found') :
    found' = found :=
  (hnext'.perm h.tasks_perm.symm).unique h.ids_nodup hnext

/-- Looks at both find the same task. -/
theorem Alike.looks (h : Alike now q q') {r r' : TaskQueue β × Option (Task β)}
    (hr : Looks now q r) (hr' : Looks now q' r') (hnext : Task.IsNext now q.tasks r.2)
    (hnext' : Task.IsNext now q'.tasks r'.2) : r'.2 = r.2 ∧ Alike now r.1 r'.1 := by
  have hfound := h.found_eq hnext hnext'
  refine ⟨hfound, h.handsOut hr.handsOut hr'.handsOut (by rw [hfound]) ?_⟩
  rw [hr.closed_eq, hr'.closed_eq, h.closed_eq]

theorem Alike.enter (h : Alike now q q') (worker : Nat) :
    (q'.enter worker now).2 = (q.enter worker now).2 ∧
      Alike now (q.enter worker now).1 (q'.enter worker now).1 :=
  h.looks (h.sound.enter worker) (h.sound'.enter worker) (h.sound.isNext_enter h.undivided worker)
    (h.sound'.isNext_enter h.undivided' worker)

theorem Alike.look (h : Alike now q q') (worker : Nat) :
    (q'.look worker now).2 = (q.look worker now).2 ∧
      Alike now (q.look worker now).1 (q'.look worker now).1 :=
  h.looks (h.sound.look worker) (h.sound'.look worker) (h.sound.isNext_look h.undivided worker)
    (h.sound'.isNext_look h.undivided' worker)

theorem Alike.tryPop (h : Alike now q q') (worker : Nat) :
    (q'.tryPop worker now).2 = (q.tryPop worker now).2 ∧
      Alike now (q.tryPop worker now).1 (q'.tryPop worker now).1 := by
  have hfound : (q'.tryPop worker now).2 = (q.tryPop worker now).2 := by
    unfold TaskQueue.tryPop
    rw [took_snd, took_snd]
    exact h.found_eq (h.sound.strategy.isNext_tryPop h.undivided.strategy worker)
      (h.sound'.strategy.isNext_tryPop h.undivided'.strategy worker)
  refine ⟨hfound, h.handsOut (h.sound.tryPop worker) (h.sound'.tryPop worker) (by rw [hfound]) ?_⟩
  unfold TaskQueue.tryPop
  rw [took_closed, took_closed, h.closed_eq]

theorem Alike.push (h : Alike now q q') (hfresh : t.id ∉ q.tasks.map Task.id) :
    (q'.push now t).2 = (q.push now t).2 ∧ Alike now (q.push now t).1 (q'.push now t).1 := by
  have hanswer : (q'.push now t).2 = (q.push now t).2 := by
    unfold TaskQueue.push
    rw [h.closed_eq, h.capacity_eq, h.depth_eq]
    split
    · rfl
    · split <;> rfl
  refine ⟨hanswer, ?_⟩
  cases hpush : (q.push now t).2 with
  | error fault =>
      rw [push_of_error hpush, push_of_error (hanswer.trans hpush)]
      exact h
  | ok =>
      obtain ⟨hsound, hperm⟩ := h.sound.push_of_ok hpush
      obtain ⟨hsound', hperm'⟩ := h.sound'.push_of_ok (hanswer.trans hpush)
      have hsame := h.sound.sameSettings_push t
      have hsame' := h.sound'.sameSettings_push t
      refine
        { sound := hsound
          sound' := hsound'
          undivided := h.undivided.of_sameSettings hsame
          undivided' := h.undivided'.of_sameSettings hsame'
          tasks_perm := hperm.trans ((h.tasks_perm.cons t).trans hperm'.symm)
          ids_nodup := (hperm.map Task.id).nodup_iff.2 (List.nodup_cons.2 ⟨hfresh, h.ids_nodup⟩)
          capacity_eq := hsame'.capacity_eq.trans (h.capacity_eq.trans hsame.capacity_eq.symm)
          closed_eq := ?_ }
      rw [push_closed, push_closed, h.closed_eq]

/-! ## Waits and removals -/

/-- Whether waits are given up just if the queue is closed. -/
def Calm (q : TaskQueue β) : Prop := q.strategy.isInterrupted = q.closed

@[simp] theorem popBlocking_closed (worker : Nat) (deadline : Option Instant) :
    (q.popBlocking worker deadline now).1.closed = q.closed := by
  unfold TaskQueue.popBlocking
  split <;> rfl

/-- Waits at both end at the same instant and in the same way. -/
theorem Alike.popBlocking (h : Alike now q q') (hcalm : q.Calm) (hcalm' : q'.Calm) (worker : Nat)
    (deadline : Option Instant) :
    (q'.popBlocking worker deadline now).2 = (q.popBlocking worker deadline now).2 ∧
      Alike (q.popBlocking worker deadline now).2.1 (q.popBlocking worker deadline now).1
        (q'.popBlocking worker deadline now).1 := by
  have hint : q'.strategy.isInterrupted = q.strategy.isInterrupted :=
    hcalm'.trans (h.closed_eq.trans hcalm.symm)
  have hwait : (q'.strategy.popWait worker deadline now).2 =
      (q.strategy.popWait worker deadline now).2 := h.strategy.popWait_snd hint
  have hend : (q'.popBlocking worker deadline now).2 = (q.popBlocking worker deadline now).2 := by
    unfold TaskQueue.popBlocking
    generalize q.strategy.popWait worker deadline now = r at hwait
    generalize q'.strategy.popWait worker deadline now = r' at hwait
    obtain ⟨s, ended⟩ := r
    obtain ⟨s', ended'⟩ := r'
    obtain rfl : ended' = ended := hwait
    obtain ⟨later, w⟩ := ended'
    rw [h.closed_eq]
    cases w <;> rfl
  obtain ⟨-, hout⟩ := h.sound.popBlocking worker deadline
  obtain ⟨-, hout'⟩ := h.sound'.popBlocking worker deadline
  rw [hend] at hout'
  refine ⟨hend, h.handsOut hout hout' (List.Perm.refl _) ?_⟩
  rw [popBlocking_closed, popBlocking_closed, h.closed_eq]

/-- Both are cleared of the same tasks. -/
theorem Alike.clear (h : Alike now q q') (graceful : Bool) :
    (q.clear graceful now).2.Perm (q'.clear graceful now).2 ∧
      Alike now (q.clear graceful now).1 (q'.clear graceful now).1 := by
  have hremoved : (q.clear graceful now).2.Perm (q'.clear graceful now).2 := by
    cases graceful with
    | true =>
        obtain ⟨-, htaken, -⟩ := h.sound.drainDelayed
        obtain ⟨-, htaken', -⟩ := h.sound'.drainDelayed
        exact htaken.trans ((h.tasks_perm.filter _).trans htaken'.symm)
    | false =>
        obtain ⟨-, -, htasks⟩ := h.sound.drain
        obtain ⟨-, -, htasks'⟩ := h.sound'.drain
        show q.drain.2.Perm q'.drain.2
        rw [htasks, htasks']
        exact h.tasks_perm
  refine ⟨hremoved, h.handsOut (h.sound.clear graceful) (h.sound'.clear graceful) hremoved ?_⟩
  rw [clear_closed, clear_closed, h.closed_eq]

theorem Alike.drain (h : Alike now q q') :
    q.drain.2.Perm q'.drain.2 ∧ Alike now q.drain.1 q'.drain.1 :=
  h.clear false

theorem Alike.shut (h : Alike now q q') : Alike now q.shut q'.shut :=
  h.handsOut h.sound.shut h.sound'.shut (List.Perm.refl _) rfl

theorem Alike.close (h : Alike now q q') (graceful : Bool) :
    (q.close graceful now).2.Perm (q'.close graceful now).2 ∧
      Alike now (q.close graceful now).1 (q'.close graceful now).1 := by
  unfold TaskQueue.close
  rw [h.closed_eq]
  split
  · exact ⟨List.Perm.refl _, h⟩
  · exact h.shut.clear graceful

/-! ## What is done to one of them only -/

theorem Alike.interrupt_right (h : Alike now q q') : Alike now q q'.interrupt :=
  h.handsOut_nil h.sound'.interrupt rfl

theorem Alike.refill_right (h : Alike now q q') (kind : StrategyKind) :
    Alike now q (q'.refill kind now).1 :=
  h.handsOut_nil (h.sound'.refill kind).1 rfl

@[simp] theorem switch_closed (kind : StrategyKind) :
    (q.switch kind now).1.closed = q.closed := by
  unfold TaskQueue.switch
  split <;> rfl

/-- An exchange of the strategy shows nothing. -/
theorem Alike.switch_right (h : Alike now q q') (kind : StrategyKind) :
    Alike now q (q'.switch kind now).1 :=
  h.handsOut_nil (h.sound'.switch kind).1 (switch_closed kind)

theorem Alike.withContention_right (h : Alike now q q') (c : Contention) :
    Alike now q (q'.withContention c) :=
  h.handsOut_nil (h.sound'.withContention c) rfl

theorem Alike.sleep_right (h : Alike now q q') : Alike now q q'.sleep :=
  h.handsOut_nil h.sound'.sleep rfl

end TaskQueue

end Dispatch
