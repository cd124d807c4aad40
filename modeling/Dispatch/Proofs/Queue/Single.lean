import Dispatch.Proofs.Queue.Bounded
import Dispatch.Proofs.Queue.Dealing
/-!
# Backlogs that are not divided

Where all workers share one backlog of ready tasks, be it the single one or the only shard, a look
takes the next task whoever takes the look. While no task is ready, the instant at which a strategy
has something to do again is the earliest ready instant of its tasks.
-/

namespace Dispatch

variable {β : Type} {now later : Instant}

theorem Locked.Sound.isNext_attempt {q : Locked β} (hs : q.Sound now) :
    Task.IsNext now q.tasks (q.attempt now).2 := by
  have hfirst := hs.isFirst_attempt (Int.le_refl now)
  have hready : q.ready ++ q.delayed.filter (·.isReady now) = q.tasks.filter (·.isReady now) :=
    Strategy.Sound.atHand_eq (s := .locked q) hs
  rw [hready] at hfirst
  exact hfirst.isNext

theorem Sharded.Sound.isNext_tryPop {q : Sharded β} (hs : q.Sound now) (hone : q.shards.length = 1)
    (worker : Nat) : Task.IsNext now q.tasks (q.tryPop worker now).2 := by
  have hfirst := hs.isFirst_tryPop (Int.le_refl now) hone worker
  rw [Strategy.Sound.atHand_eq (s := .sharded q) hs] at hfirst
  exact hfirst.isNext

namespace Strategy

variable {s : Strategy β}

/-- Whether all workers share one backlog of ready tasks. -/
def Undivided (s : Strategy β) : Prop := ∀ shape ∈ s.shape, shape.1 = 1

theorem Undivided.of_shape_eq {s' : Strategy β} (h : s.Undivided) (heq : s'.shape = s.shape) :
    s'.Undivided :=
  fun shape hmem => h shape (heq ▸ hmem)

theorem Sound.isNext_tryPop (hs : s.Sound now) (hone : s.Undivided) (worker : Nat) :
    Task.IsNext now s.tasks (s.tryPop worker now).2 := by
  cases s with
  | locked q => exact (Locked.Sound.record hs 1).isNext_attempt
  | sharded q => exact Sharded.Sound.isNext_tryPop hs (hone _ rfl) worker

/-- A look takes the next task, whoever takes the look. -/
theorem Sound.isNext_attempt (hs : s.Sound now) (hone : s.Undivided) (worker : Nat) :
    Task.IsNext now s.tasks (s.attempt worker now).2 := by
  cases s with
  | locked q => exact Locked.Sound.isNext_attempt hs
  | sharded q =>
      rcases attempt_sharded_cases q worker now with heq | ⟨q', hfirst, -, heq⟩
      · rw [heq]
        exact Sharded.Sound.isNext_tryPop hs (hone _ rfl) worker
      · -- the second look comes upon the same tasks, since all are still there
        have hyields := Sharded.Sound.tryPop hs worker
        rw [hfirst] at hyields
        have hlength := hyields.frame.length_eq.trans (hone _ rfl)
        rw [heq]
        exact (hyields.sound.isNext_tryPop hlength worker).perm hyields.tasks_perm.symm

/-! ## The next ready instant -/

/-- Whether an instant is the earliest ready instant of some tasks; without tasks there is none. -/
def IsSoonest (ts : List (Task β)) : Option Instant → Prop
  | some r => (∃ t ∈ ts, t.readyAt = r) ∧ ∀ t ∈ ts, r ≤ t.readyAt
  | none => ts = []

theorem IsSoonest.perm {ts us : List (Task β)} {r : Option Instant} (h : IsSoonest ts r)
    (hperm : ts.Perm us) : IsSoonest us r := by
  cases r with
  | none => exact List.nil_perm.1 (h ▸ hperm)
  | some r =>
      obtain ⟨⟨t, ht, heq⟩, hle⟩ := h
      exact ⟨⟨t, hperm.mem_iff.1 ht, heq⟩, fun u hu => hle u (hperm.mem_iff.2 hu)⟩

theorem IsSoonest.unique {ts : List (Task β)} {r r' : Option Instant} (h : IsSoonest ts r)
    (h' : IsSoonest ts r') : r = r' := by
  cases r with
  | none =>
      cases r' with
      | none => rfl
      | some r' =>
          obtain ⟨⟨t, ht, -⟩, -⟩ := h'
          simp [show ts = [] from h] at ht
  | some r =>
      obtain ⟨⟨t, ht, hr⟩, hle⟩ := h
      cases r' with
      | none => simp [show ts = [] from h'] at ht
      | some r' =>
          obtain ⟨⟨u, hu, hr'⟩, hle'⟩ := h'
          have hrr' : r ≤ r' := hr' ▸ hle u hu
          have hr'r : r' ≤ r := hr ▸ hle' t ht
          rw [Int.le_antisymm hrr' hr'r]

/-- The first of the delayed tasks is the one that gets ready first. -/
theorem isSoonest_head? {ts : List (Task β)} (h : Task.Ordered Task.isDueBefore ts) :
    IsSoonest ts (ts.head?.map Task.readyAt) := by
  cases ts with
  | nil => rfl
  | cons t rest =>
      refine ⟨⟨t, List.mem_cons_self, rfl⟩, fun u hu => ?_⟩
      rcases List.mem_cons.1 hu with rfl | hu
      · exact Int.le_refl _
      · exact Task.isReady_iff.1 (Task.isReady_of_not_isDueBefore
          ((List.pairwise_cons.1 h).1 u hu) (Task.isReady_iff.2 (Int.le_refl _)))

theorem isSoonest_locked {q : Locked β} (hs : q.Sound now) : IsSoonest q.delayed q.nextReadyAt :=
  isSoonest_head? hs.delayed_ordered

theorem isSoonest_sharded {q : Sharded β} (hs : q.Sound now) : IsSoonest q.delayed q.nextReadyAt := by
  unfold Sharded.nextReadyAt
  split
  · rename_i hzero
    rw [hs.delayedCount_eq] at hzero
    exact List.length_eq_zero_iff.1 hzero
  · exact isSoonest_head? hs.delayed_ordered

/-- While nothing is at hand, all tasks are delayed. -/
theorem Sound.isSoonest_of_atHand (hs : s.Sound later) (hnil : s.atHand now = []) :
    IsSoonest s.tasks s.nextReadyAt := by
  cases s with
  | locked q =>
      have hready : q.ready = [] := (List.append_eq_nil_iff.1 hnil).1
      rw [show (locked q).tasks = q.delayed by simp [tasks, Locked.tasks, hready]]
      exact isSoonest_locked hs
  | sharded q =>
      have hready : q.readyTasks = [] := (List.append_eq_nil_iff.1 hnil).1
      rw [show (sharded q).tasks = q.delayed by simp [tasks, Sharded.tasks_eq, hready]]
      exact isSoonest_sharded hs

theorem Sound.isSoonest_nextReadyAt (hs : s.Sound now)
    (hlate : ∀ t ∈ s.tasks, t.isReady now = false) : IsSoonest s.tasks s.nextReadyAt := by
  apply hs.isSoonest_of_atHand
  rw [hs.atHand_eq]
  exact List.filter_eq_nil_iff.2 fun t ht => by simp [hlate t ht]

end Strategy

/-! ## Queues -/

namespace TaskQueue

variable {q q' : TaskQueue β}

/-- Whether all workers share one backlog of ready tasks, also after any exchange of the strategy. -/
structure Undivided (q : TaskQueue β) : Prop where
  shaped : q.Shaped
  shards_eq : q.shards = 1

theorem undivided_ofKind (kind : StrategyKind) (capacity : Nat) (stealing : Bool) :
    (ofKind kind capacity 1 stealing : TaskQueue β).Undivided :=
  ⟨shaped_ofKind kind capacity 1 stealing, rfl⟩

theorem Undivided.of_sameSettings (h : q.Undivided) (hsame : SameSettings q q') : q'.Undivided :=
  ⟨hsame.shaped h.shaped, hsame.shards_eq.trans h.shards_eq⟩

theorem Undivided.strategy (h : q.Undivided) : q.strategy.Undivided := by
  intro shape hmem
  rw [h.shaped.shape_eq shape hmem]
  exact h.shards_eq

/-- What an attempt of a strategy with the same tasks finds is the next task of the queue. -/
theorem Sound.isNext_took (hs : q.Sound now) (hone : q.Undivided) {s : Strategy β}
    (hsame : Strategy.SameTasks q.strategy s) (worker : Nat) :
    Task.IsNext now q.tasks (q.took (s.attempt worker now)).2 := by
  rw [took_snd]
  have hnext := (hsame.sound now hs.strategy).isNext_attempt
    (hone.strategy.of_shape_eq hsame.shape_eq) worker
  rwa [hsame.tasks_eq] at hnext

theorem Sound.isNext_enter (hs : q.Sound now) (hone : q.Undivided) (worker : Nat) :
    Task.IsNext now q.tasks (q.enter worker now).2 :=
  hs.isNext_took hone (Strategy.sameTasks_enter _) worker

theorem Sound.isNext_look (hs : q.Sound now) (hone : q.Undivided) (worker : Nat) :
    Task.IsNext now q.tasks (q.look worker now).2 :=
  hs.isNext_took hone (Strategy.sameTasks_rouse _) worker

end TaskQueue

end Dispatch
