import Dispatch.Proofs.Queue.Strategy
import Dispatch.Proofs.Task.Next
/-!
# What is at hand

A look can be made at any instant, also at one before that of an earlier look. What it may take then is
what was moved to the ready tasks before, whenever that was, and what is due at its instant: these tasks
are at hand. A look takes at most one of them and leaves the others at hand. At an instant that is not
before any look, the tasks at hand are those that are ready.
-/

namespace Dispatch

variable {β : Type} {now later : Instant}

/-- A look at a single backlog takes the first of the tasks at hand. -/
theorem Locked.Sound.isFirst_attempt {q : Locked β} (hs : q.Sound later) (hle : now ≤ later) :
    Task.IsFirst (q.ready ++ q.delayed.filter (·.isReady now)) (q.attempt now).2 := by
  have hfound : (q.attempt now).2 = (q.promote now).ready.head? := by
    unfold Locked.attempt takeReady
    split <;> simp [*]
  have hperm := promote_ready_perm q now
  rw [(Task.takeWhile_isReady hs.delayed_ordered now).1] at hperm
  rw [hfound]
  exact (Task.isFirst_head? (hs.promote_of_le hle).ready_ordered).perm
    (hperm.trans List.perm_append_comm)

namespace Strategy

variable {s : Strategy β}

/-- The tasks that a look at an instant may come upon: those that were moved to the ready ones before,
and those that are due. -/
def atHand (now : Instant) : Strategy β → List (Task β)
  | locked q => q.ready ++ q.delayed.filter (·.isReady now)
  | sharded q => q.readyTasks ++ q.delayed.filter (·.isReady now)

/-- The tasks that no look at an instant comes upon. -/
def late (now : Instant) : Strategy β → List (Task β)
  | locked q => q.delayed.filter (!·.isReady now)
  | sharded q => q.delayed.filter (!·.isReady now)

/-- Each task is at hand or late. -/
theorem tasks_perm_atHand (now : Instant) (s : Strategy β) :
    s.tasks.Perm (s.atHand now ++ s.late now) := by
  cases s with
  | locked q =>
      have hsplit := List.filter_append_perm (·.isReady now) q.delayed
      simpa [tasks, Locked.tasks, atHand, late] using (hsplit.symm.append_left q.ready)
  | sharded q =>
      have hsplit := List.filter_append_perm (·.isReady now) q.delayed
      simpa [tasks, Sharded.tasks_eq, atHand, late] using (hsplit.symm.append_left q.readyTasks)

/-- As long as no look was made at a later instant, the tasks at hand are those that are ready. -/
theorem Sound.atHand_eq (hs : s.Sound now) : s.atHand now = s.tasks.filter (·.isReady now) := by
  cases s with
  | locked q =>
      have hready := List.filter_eq_self.2 (Locked.Sound.ready_isReady hs)
      simp [atHand, tasks, Locked.tasks, hready]
  | sharded q =>
      have hready := List.filter_eq_self.2 (Sharded.Sound.isReady hs)
      simp [atHand, tasks, Sharded.tasks_eq, hready]

/-- Those that are late are then those that are not ready. -/
theorem Sound.late_eq (hs : s.Sound now) : s.late now = s.tasks.filter (!·.isReady now) := by
  cases s with
  | locked q =>
      have hready := Locked.Sound.ready_isReady hs
      simpa [late, tasks, Locked.tasks] using hready
  | sharded q =>
      have hready := Sharded.Sound.isReady hs
      simpa [late, tasks, Sharded.tasks_eq] using hready

/-- What is late stays so at a look. -/
theorem Sound.late_tryPop (hs : s.Sound later) (hle : now ≤ later) (worker : Nat) :
    (s.tryPop worker now).1.late now = s.late now := by
  cases s with
  | locked q =>
      have hdelayed := (Locked.attempt_delayed (q.record 1) now).trans
        (Task.takeWhile_isReady hs.delayed_ordered now).2
      show List.filter _ ((q.record 1).attempt now).1.delayed = _
      rw [hdelayed, List.filter_filter]
      simp [late]
  | sharded q =>
      obtain ⟨-, -, hpromoted, -⟩ := Sharded.Sound.promote_of_le hs hle worker
      have hdelayed := (Sharded.popFirst_delayed _ ((q.promote worker now).route worker)).trans hpromoted
      show List.filter _ (q.tryPop worker now).1.delayed = _
      rw [Sharded.tryPop, hdelayed, List.filter_filter]
      simp [late]

/-- A look takes at most one of the tasks at hand and leaves the others there. -/
theorem Sound.atHand_tryPop (hs : s.Sound later) (hle : now ≤ later) (worker : Nat) :
    (s.atHand now).Perm
      ((s.tryPop worker now).2.toList ++ (s.tryPop worker now).1.atHand now) := by
  have hyields := (hs.tryPop_of_le hle worker).tasks_perm
  have hbefore := (tasks_perm_atHand now s).symm.trans hyields
  have hafter := (tasks_perm_atHand now (s.tryPop worker now).1).append_left
    (s.tryPop worker now).2.toList
  have hperm := hbefore.trans hafter
  rw [hs.late_tryPop hle worker, ← List.append_assoc] at hperm
  exact (List.perm_append_right_iff (s.late now)).1 hperm

/-- The tasks that workers take at an instant, one look after the other. -/
def pops (now : Instant) : List Nat → Strategy β → List (Task β)
  | [], _ => []
  | worker :: rest, s => (s.tryPop worker now).2.toList ++ pops now rest (s.tryPop worker now).1

/-! ## Promotions and removals -/

/-- Moves the delayed tasks that are due to the ready ones, as each look does first. -/
def promote (worker : Nat) (now : Instant) : Strategy β → Strategy β
  | locked q => locked (q.promote now)
  | sharded q => sharded (q.promote worker now)

theorem Sound.promote_of_le (hs : s.Sound later) (hle : now ≤ later) (worker : Nat) :
    (s.promote worker now).Sound later ∧ (s.promote worker now).tasks.Perm s.tasks ∧
      (s.promote worker now).shape = s.shape := by
  cases s with
  | locked q => exact ⟨Locked.Sound.promote_of_le hs hle, Locked.promote_tasks q now, rfl⟩
  | sharded q =>
      obtain ⟨hsound, htasks, -, hframe⟩ := Sharded.Sound.promote_of_le hs hle worker
      exact ⟨hsound, htasks, congrArg some (Prod.ext hframe.length_eq hframe.stealing_eq)⟩

/-- Taking the delayed tasks away takes those that are late, and leaves those at hand. -/
theorem Sound.drainDelayed_of_le (hs : s.Sound later) (hle : now ≤ later) :
    (s.drainDelayed now).1.Sound later ∧ (s.drainDelayed now).2 = s.late now ∧
      (s.drainDelayed now).1.tasks.Perm (s.atHand now) := by
  cases s with
  | locked q =>
      have hp := Locked.Sound.promote_of_le hs hle
      have hready := Locked.promote_ready_perm q now
      rw [(Task.takeWhile_isReady hs.delayed_ordered now).1] at hready
      refine ⟨⟨hp.ready_ordered, hp.ready_isReady, List.Pairwise.nil⟩,
        Locked.Sound.promote_delayed hs, ?_⟩
      show ((q.promote now).ready ++ []).Perm _
      rw [List.append_nil]
      exact hready.trans List.perm_append_comm
  | sharded q =>
      have hsplit := List.length_eq_length_filter_add (l := q.delayed) (·.isReady now)
      have hcount := Sharded.Sound.delayedCount_eq hs
      refine ⟨⟨hs.shards_ne, hs.shard, hs.readyCount_eq, ?_, hs.delayed_ordered.filter _⟩, rfl,
        List.Perm.refl _⟩
      show q.delayedCount - (q.delayed.filter (!·.isReady now)).length =
        (q.delayed.filter (·.isReady now)).length
      omega

/-- At an instant that is not before any look, it takes the tasks that are not ready. -/
theorem Sound.drainDelayed (hs : s.Sound now) :
    (s.drainDelayed now).1.Sound now ∧
      (s.drainDelayed now).2.Perm (s.tasks.filter (!·.isReady now)) ∧
      (s.drainDelayed now).1.tasks.Perm (s.tasks.filter (·.isReady now)) := by
  obtain ⟨hsound, hlate, hleft⟩ := hs.drainDelayed_of_le (Int.le_refl now)
  rw [hs.late_eq] at hlate
  rw [hs.atHand_eq] at hleft
  exact ⟨hsound, List.Perm.of_eq hlate, hleft⟩

end Strategy

end Dispatch
