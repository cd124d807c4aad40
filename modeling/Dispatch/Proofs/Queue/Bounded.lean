import Dispatch.Proofs.Queue.AtHand
import Dispatch.Queue
/-!
# What a bounded queue holds

In a sound queue the depth is the number of tasks that the strategy holds, and not more than the
capacity. Every operation keeps it sound and says which tasks it hands out; all others stay.
-/

namespace Dispatch

variable {β : Type} {now : Instant}

namespace TaskQueue

variable {q : TaskQueue β}

/-- Whether a queue counts its tasks and keeps them in order at an instant. -/
structure Sound (now : Instant) (q : TaskQueue β) : Prop where
  strategy : q.strategy.Sound now
  depth_eq : q.depth = q.tasks.length
  depth_le : q.depth ≤ q.capacity

theorem Sound.mono {later : Instant} (hs : q.Sound now) (hle : now ≤ later) : q.Sound later :=
  ⟨hs.strategy.mono hle, hs.depth_eq, hs.depth_le⟩

theorem sound_ofKind (kind : StrategyKind) (capacity shards : Nat) (stealing : Bool) :
    (ofKind kind capacity shards stealing : TaskQueue β).Sound now :=
  ⟨Strategy.sound_ofKind kind _ stealing {}, by simp [ofKind, tasks], Nat.zero_le _⟩

@[simp] theorem tasks_ofKind (kind : StrategyKind) (capacity shards : Nat) (stealing : Bool) :
    (ofKind kind capacity shards stealing : TaskQueue β).tasks = [] := by
  simp [ofKind, tasks]

/-- Whether the strategy of a queue has the shards that the queue is to have. -/
structure Shaped (q : TaskQueue β) : Prop where
  shards_pos : 0 < q.shards
  shape_eq : ∀ shape ∈ q.strategy.shape, shape = (q.shards, q.stealing)

theorem shaped_ofKind (kind : StrategyKind) (capacity shards : Nat) (stealing : Bool) :
    (ofKind kind capacity shards stealing : TaskQueue β).Shaped :=
  have hpos : 0 < max shards 1 := Nat.le_max_right _ _
  ⟨hpos, Strategy.shape_ofKind hpos⟩

/-- Whether a queue has the settings of another one. -/
structure SameSettings (q q' : TaskQueue β) : Prop where
  capacity_eq : q'.capacity = q.capacity
  shards_eq : q'.shards = q.shards
  stealing_eq : q'.stealing = q.stealing
  shaped : q.Shaped → q'.Shaped

theorem SameSettings.refl (q : TaskQueue β) : SameSettings q q := ⟨rfl, rfl, rfl, id⟩

theorem SameSettings.trans {a b c : TaskQueue β} (hab : SameSettings a b)
    (hbc : SameSettings b c) : SameSettings a c :=
  ⟨hbc.capacity_eq.trans hab.capacity_eq, hbc.shards_eq.trans hab.shards_eq,
    hbc.stealing_eq.trans hab.stealing_eq, hbc.shaped ∘ hab.shaped⟩

/-- Whether a queue is another one after some tasks were handed out. -/
structure HandsOut (now : Instant) (ts : List (Task β)) (q q' : TaskQueue β) : Prop extends
    SameSettings q q' where
  sound : q'.Sound now
  tasks_perm : q.tasks.Perm (ts ++ q'.tasks)

theorem Sound.handsOut_nil (hs : q.Sound now) : HandsOut now [] q q :=
  ⟨SameSettings.refl q, hs, List.Perm.refl _⟩

theorem HandsOut.trans {ts us : List (Task β)} {a b c : TaskQueue β} (hab : HandsOut now ts a b)
    (hbc : HandsOut now us b c) : HandsOut now (ts ++ us) a c := by
  refine ⟨hab.toSameSettings.trans hbc.toSameSettings, hbc.sound, ?_⟩
  rw [List.append_assoc]
  exact hab.tasks_perm.trans (hbc.tasks_perm.append_left ts)

/-- The size goes down by the number of tasks that are handed out. -/
theorem HandsOut.size_eq {ts : List (Task β)} {q' : TaskQueue β} (h : HandsOut now ts q q')
    (hs : q.Sound now) : q.size = ts.length + q'.size := by
  rw [size, size, hs.depth_eq, h.sound.depth_eq, h.tasks_perm.length_eq, List.length_append]

/-- A strategy that holds fewer tasks fits a queue whose depth was taken down by their number. -/
theorem Sound.handsOut (hs : q.Sound now) {s : Strategy β} {ts : List (Task β)}
    (hsound : s.Sound now) (hperm : q.tasks.Perm (ts ++ s.tasks))
    (hshape : s.shape = q.strategy.shape) :
    HandsOut now ts q { q with strategy := s, depth := q.depth - ts.length } := by
  have hlength : q.depth = ts.length + s.tasks.length := by
    rw [hs.depth_eq, hperm.length_eq, List.length_append]
  refine ⟨⟨rfl, rfl, rfl, fun h => ⟨h.shards_pos, fun shape hmem => h.shape_eq shape ?_⟩⟩,
    ⟨hsound, ?_, ?_⟩, hperm⟩
  · exact hshape ▸ hmem
  · show q.depth - ts.length = s.tasks.length
    omega
  · exact Nat.le_trans (Nat.sub_le _ _) hs.depth_le

/-- A strategy with the same tasks fits the queue as it is. -/
theorem Sound.handsOut_sameTasks (hs : q.Sound now) {s : Strategy β}
    (h : Strategy.SameTasks q.strategy s) : HandsOut now [] q { q with strategy := s } :=
  hs.handsOut (h.sound now hs.strategy) (by rw [h.tasks_eq]; exact List.Perm.refl _) h.shape_eq

/-! ## Adding a task -/

/-- A refused task leaves the queue as it is. -/
theorem push_of_error {t : Task β} {fault : Fault} (h : (q.push now t).2 = .error fault) :
    (q.push now t).1 = q := by
  unfold push at h ⊢
  split
  · rfl
  · split
    · rfl
    · simp_all

/-- An accepted task is held besides those that were held before. -/
theorem Sound.push_of_ok (hs : q.Sound now) {t : Task β} (h : (q.push now t).2 = .ok ()) :
    (q.push now t).1.Sound now ∧ (q.push now t).1.tasks.Perm (t :: q.tasks) := by
  unfold TaskQueue.push at h ⊢
  split at h
  · contradiction
  · split at h
    · contradiction
    · rename_i hopen hroom
      obtain ⟨hsound, hperm⟩ := hs.strategy.push t
      rw [if_neg hopen, if_neg hroom]
      refine ⟨⟨hsound, ?_, ?_⟩, hperm⟩
      · show q.depth + 1 = (q.strategy.push now t).tasks.length
        rw [hperm.length_eq, List.length_cons, hs.depth_eq]
        rfl
      · show q.depth + 1 ≤ q.capacity
        omega

theorem Sound.sameSettings_push (hs : q.Sound now) (t : Task β) :
    SameSettings q (q.push now t).1 := by
  unfold push
  split
  · exact SameSettings.refl q
  · split
    · exact SameSettings.refl q
    · refine ⟨rfl, rfl, rfl, fun h => ⟨h.shards_pos, fun shape hmem => h.shape_eq shape ?_⟩⟩
      exact hs.strategy.shape_push t ▸ hmem

@[simp] theorem push_closed (t : Task β) : (q.push now t).1.closed = q.closed := by
  unfold push
  split
  · rfl
  · split <;> rfl

@[simp] theorem push_isInterrupted (t : Task β) :
    (q.push now t).1.strategy.isInterrupted = q.strategy.isInterrupted := by
  unfold push
  split
  · rfl
  · split
    · rfl
    · exact Strategy.isInterrupted_push t

/-! ## Taking a task -/

theorem Sound.took (hs : q.Sound now) {r : Strategy β × Option (Task β)}
    (h : Strategy.Yields now q.strategy r) : HandsOut now r.2.toList q (q.took r).1 := by
  obtain ⟨s, found⟩ := r
  cases found with
  | none => exact hs.handsOut h.sound h.tasks_perm h.shape_eq
  | some t => exact hs.handsOut h.sound h.tasks_perm h.shape_eq

@[simp] theorem took_snd (r : Strategy β × Option (Task β)) : (q.took r).2 = r.2 := by
  obtain ⟨s, found⟩ := r
  cases found <;> rfl

@[simp] theorem took_strategy (r : Strategy β × Option (Task β)) :
    (q.took r).1.strategy = r.1 := by
  obtain ⟨s, found⟩ := r
  cases found <;> rfl

@[simp] theorem took_closed (r : Strategy β × Option (Task β)) :
    (q.took r).1.closed = q.closed := by
  obtain ⟨s, found⟩ := r
  cases found <;> rfl

theorem Sound.tryPop (hs : q.Sound now) (worker : Nat) :
    HandsOut now (q.tryPop worker now).2.toList q (q.tryPop worker now).1 := by
  have h := hs.took (hs.strategy.tryPop worker)
  rwa [← took_snd (q := q)] at h

/-- Whether a look at a queue hands out at most one task, which is ready, and changes nothing but
what the queue holds. -/
structure Looks (now : Instant) (q : TaskQueue β) (r : TaskQueue β × Option (Task β)) : Prop where
  handsOut : HandsOut now r.2.toList q r.1
  isReady : ∀ t ∈ r.2, t.isReady now = true
  closed_eq : r.1.closed = q.closed
  isInterrupted_eq : r.1.strategy.isInterrupted = q.strategy.isInterrupted
  delayedCount_le : r.1.strategy.delayedCount ≤ q.strategy.delayedCount
  not_isReady : q.strategy.isInterrupted = true → r.2 = none →
    ∀ t ∈ q.tasks, t.isReady now = false

/-- A look hands out what an attempt of a strategy with the same tasks yields. -/
theorem Sound.looks (hs : q.Sound now) {s : Strategy β} (hsame : Strategy.SameTasks q.strategy s)
    (hflag : s.isInterrupted = q.strategy.isInterrupted) (worker : Nat) :
    Looks now q (q.took (s.attempt worker now)) := by
  have hsound := hsame.sound now hs.strategy
  have h := (hsound.attempt worker).of_sameTasks hsame hflag
  have htook := hs.took h
  refine ⟨by rwa [took_snd], by rw [took_snd]; exact h.isReady, took_closed _, ?_, ?_, ?_⟩
  · rw [took_strategy, h.isInterrupted_eq]
  · rw [took_strategy]
    exact h.delayedCount_le
  · intro hint hnone t ht
    rw [took_snd] at hnone
    have hmem : t ∈ s.tasks := by
      rw [hsame.tasks_eq]
      exact ht
    exact hsound.not_isReady_of_attempt (hflag.trans hint) hnone t hmem

theorem Sound.enter (hs : q.Sound now) (worker : Nat) : Looks now q (q.enter worker now) :=
  hs.looks (Strategy.sameTasks_enter _) (Strategy.isInterrupted_enter _) worker

theorem Sound.look (hs : q.Sound now) (worker : Nat) : Looks now q (q.look worker now) :=
  hs.looks (Strategy.sameTasks_rouse _) (Strategy.isInterrupted_rouse _) worker

theorem Sound.sleep (hs : q.Sound now) : HandsOut now [] q q.sleep :=
  hs.handsOut_sameTasks (Strategy.sameTasks_sleep _)

/-- A worker that found nothing may go to sleep. -/
theorem Looks.sleep {q' : TaskQueue β} (h : Looks now q (q', none)) :
    Looks now q (q'.sleep, none) where
  handsOut := h.handsOut.trans h.handsOut.sound.sleep
  isReady := h.isReady
  closed_eq := h.closed_eq
  isInterrupted_eq := (Strategy.isInterrupted_sleep _).trans h.isInterrupted_eq
  delayedCount_le := by
    rw [show q'.sleep.strategy.delayedCount = _ from
      (Strategy.sameTasks_sleep q'.strategy).delayedCount_eq]
    exact h.delayedCount_le
  not_isReady := h.not_isReady

end TaskQueue

/-- The task that a wait at a queue took, if it took one. -/
def Pop.task? : Pop β → Option (Task β)
  | .task t => some t
  | _ => none

namespace TaskQueue

variable {q : TaskQueue β}

/-- A wait ends at the instant it began or later, and hands out at most one task. -/
theorem Sound.popBlocking (hs : q.Sound now) (worker : Nat) (deadline : Option Instant) :
    now ≤ (q.popBlocking worker deadline now).2.1 ∧
      HandsOut (q.popBlocking worker deadline now).2.1
        (q.popBlocking worker deadline now).2.2.task?.toList q
        (q.popBlocking worker deadline now).1 := by
  have hwait := hs.strategy.popWait worker deadline
  unfold TaskQueue.popBlocking
  cases hpop : q.strategy.popWait worker deadline now with
  | mk s rest =>
      obtain ⟨later, w⟩ := rest
      rw [hpop] at hwait
      obtain ⟨hle, hyields⟩ := hwait
      -- the clock has moved on, but nothing has come to the queue meanwhile
      have hs' := hs.mono hle
      cases w with
      | task t => exact ⟨hle, hs'.handsOut hyields.sound hyields.tasks_perm hyields.shape_eq⟩
      | timedOut => exact ⟨hle, hs'.handsOut hyields.sound hyields.tasks_perm hyields.shape_eq⟩
      | endless => exact ⟨hle, hs'.handsOut hyields.sound hyields.tasks_perm hyields.shape_eq⟩
      | interrupted =>
          refine ⟨hle, ?_⟩
          simp only
          split <;> exact hs'.handsOut hyields.sound hyields.tasks_perm hyields.shape_eq

theorem Sound.withContention (hs : q.Sound now) (c : Contention) :
    HandsOut now [] q (q.withContention c) :=
  hs.handsOut_sameTasks (Strategy.sameTasks_withContention c _)

/-! ## Exchanging the strategy -/

theorem Sound.interrupt (hs : q.Sound now) : HandsOut now [] q q.interrupt :=
  hs.handsOut_sameTasks (Strategy.sameTasks_interrupt _)

/-- All tasks are moved into the new strategy, and counted there as before. -/
theorem Sound.refill (hs : q.Sound now) (kind : StrategyKind) :
    HandsOut now [] q (q.refill kind now).1 ∧ (q.refill kind now).1.kind = kind ∧
      (q.refill kind now).1.strategy.isInterrupted = false ∧
      q.refillCounts kind now = (q.depth, q.depth) := by
  obtain ⟨-, -, hdrain⟩ := hs.strategy.drain
  let empty : Strategy β := .ofKind kind q.shards q.stealing q.strategy.drain.1.contention
  -- the new strategy is filled from nothing, so it counts just what was taken out
  have hempty : empty.Sound now := Strategy.sound_ofKind _ _ _ _
  have hfilled := hempty.foldl_push q.strategy.drain.2
  have htasks : (q.refill kind now).1.tasks.Perm q.tasks := by
    refine hfilled.2.trans ?_
    rw [hdrain, show empty.tasks = [] from Strategy.tasks_ofKind _ _ _ _, List.append_nil]
    exact List.Perm.refl _
  have hsound : (q.refill kind now).1.strategy.Sound now := hfilled.1
  have hlength : (q.refill kind now).1.tasks.length = q.depth := by
    rw [htasks.length_eq, hs.depth_eq]
  have hshaped : q.Shaped → (q.refill kind now).1.Shaped := fun h =>
    ⟨h.shards_pos, fun shape hmem =>
      Strategy.shape_ofKind h.shards_pos shape (hempty.shape_foldl_push _ ▸ hmem)⟩
  refine ⟨⟨⟨rfl, rfl, rfl, hshaped⟩, ⟨hsound, hlength.symm, hs.depth_le⟩, htasks.symm⟩, ?_, ?_, ?_⟩
  · exact (Strategy.kind_foldl_push _ _).trans (Strategy.kind_ofKind _ _ _ _)
  · exact (Strategy.isInterrupted_foldl_push _ _).trans (Strategy.isInterrupted_ofKind _ _ _ _)
  · refine Prod.ext ?_ ?_
    · show q.strategy.drain.2.length = q.depth
      rw [hdrain, hs.depth_eq]
      rfl
    · exact hsound.size_eq.trans hlength

theorem canSwitch_iff {kind : StrategyKind} :
    q.canSwitch kind = true ↔ q.closed = false ∧ q.kind ≠ kind := by
  simp [canSwitch, and_comm]

theorem Sound.switch (hs : q.Sound now) (kind : StrategyKind) :
    HandsOut now [] q (q.switch kind now).1 ∧ (q.switch kind now).1.depth = q.depth ∧
      (q.switch kind now).2 = if q.canSwitch kind then some q.depth else none := by
  unfold TaskQueue.switch
  split
  · exact ⟨hs.interrupt.trans (hs.interrupt.sound.refill kind).1, rfl, rfl⟩
  · exact ⟨hs.handsOut_nil, rfl, rfl⟩

/-! ## Closing -/

theorem Sound.removed (hs : q.Sound now) {r : Strategy β × List (Task β)}
    (hsound : r.1.Sound now) (hperm : q.tasks.Perm (r.2 ++ r.1.tasks))
    (hshape : r.1.shape = q.strategy.shape) : HandsOut now r.2 q (q.removed r).1 :=
  hs.handsOut hsound hperm hshape

theorem Sound.drain (hs : q.Sound now) :
    HandsOut now q.drain.2 q q.drain.1 ∧ q.drain.1.tasks = [] ∧ q.drain.2 = q.tasks := by
  obtain ⟨hsound, hnil, htasks⟩ := hs.strategy.drain
  have hperm : q.tasks.Perm (q.strategy.drain.2 ++ q.strategy.drain.1.tasks) := by
    rw [hnil, List.append_nil, htasks]
    exact List.Perm.refl _
  exact ⟨hs.removed hsound hperm (Strategy.shape_drain _), hnil, htasks⟩

/-- A graceful close takes out the tasks that are not ready and leaves those that are. -/
theorem Sound.drainDelayed (hs : q.Sound now) :
    HandsOut now (q.drainDelayed now).2 q (q.drainDelayed now).1 ∧
      (q.drainDelayed now).2.Perm (q.tasks.filter (!·.isReady now)) ∧
      (q.drainDelayed now).1.tasks.Perm (q.tasks.filter (·.isReady now)) := by
  obtain ⟨hsound, htaken, hleft⟩ := hs.strategy.drainDelayed
  refine ⟨hs.removed hsound ?_ (Strategy.shape_drainDelayed _), htaken, hleft⟩
  refine List.Perm.trans ?_ ((htaken.append hleft).symm)
  refine (List.filter_append_perm (·.isReady now) q.tasks).symm.trans List.perm_append_comm

theorem Sound.shut (hs : q.Sound now) : HandsOut now [] q q.shut :=
  have hout := hs.interrupt
  ⟨⟨rfl, rfl, rfl, fun h => ⟨h.shards_pos, (hout.shaped h).shape_eq⟩⟩,
    ⟨hout.sound.strategy, hout.sound.depth_eq, hs.depth_le⟩, hout.tasks_perm⟩

theorem Sound.clear (hs : q.Sound now) (graceful : Bool) :
    HandsOut now (q.clear graceful now).2 q (q.clear graceful now).1 := by
  cases graceful with
  | true => exact hs.drainDelayed.1
  | false => exact hs.drain.1

@[simp] theorem clear_closed (graceful : Bool) : (q.clear graceful now).1.closed = q.closed := by
  cases graceful <;> rfl

@[simp] theorem clear_isInterrupted (graceful : Bool) :
    (q.clear graceful now).1.strategy.isInterrupted = q.strategy.isInterrupted := by
  cases graceful with
  | true => exact Strategy.isInterrupted_drainDelayed _
  | false => exact Strategy.isInterrupted_drain _

theorem Sound.close (hs : q.Sound now) (graceful : Bool) :
    HandsOut now (q.close graceful now).2 q (q.close graceful now).1 := by
  unfold TaskQueue.close
  split
  · exact hs.handsOut_nil
  · exact hs.shut.trans (hs.shut.sound.clear graceful)

end TaskQueue

end Dispatch
