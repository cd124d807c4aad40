import Dispatch.Proofs.Task.Order
import Dispatch.Queue.Locked
/-!
# What a single backlog holds

In a sound backlog the ready tasks are ready and in the order of urgency, and the delayed ones are
in the order of their ready instants. Each operation keeps it sound and adds, takes or keeps the
tasks that it is meant to.
-/

namespace Dispatch.Locked

open Dispatch.Task (Ordered isMoreUrgent isDueBefore)

variable {β : Type} {now later : Instant} {q : Locked β}

/-- Whether a backlog is in order at an instant. -/
structure Sound (now : Instant) (q : Locked β) : Prop where
  ready_ordered : Ordered isMoreUrgent q.ready
  ready_isReady : ∀ t ∈ q.ready, t.isReady now = true
  delayed_ordered : Ordered isDueBefore q.delayed

/-- An empty backlog is in order. -/
theorem sound_of_tasks_eq_nil (hready : q.ready = []) (hdelayed : q.delayed = []) :
    q.Sound now where
  ready_ordered := hready ▸ List.Pairwise.nil
  ready_isReady := by simp [hready]
  delayed_ordered := hdelayed ▸ List.Pairwise.nil

theorem Sound.mono (hs : q.Sound now) (hle : now ≤ later) : q.Sound later where
  ready_ordered := hs.ready_ordered
  ready_isReady t ht := Task.isReady_mono hle (hs.ready_isReady t ht)
  delayed_ordered := hs.delayed_ordered

theorem Sound.record (hs : q.Sound now) (n : Nat) : (q.record n).Sound now :=
  ⟨hs.ready_ordered, hs.ready_isReady, hs.delayed_ordered⟩

theorem size_eq : q.size = q.tasks.length := List.length_append.symm

theorem push_tasks (t : Task β) : (q.push now t).tasks.Perm (t :: q.tasks) := by
  unfold push tasks
  simp only
  split
  · exact (Task.insertBy_perm _ t q.ready).append_right q.delayed
  · have hperm := (Task.insertBy_perm isDueBefore t q.delayed).append_left q.ready
    exact hperm.trans List.perm_middle

theorem Sound.push (hs : q.Sound later) (hle : now ≤ later) (t : Task β) :
    (q.push now t).Sound later := by
  unfold Locked.push
  simp only
  split
  · rename_i hready
    refine ⟨Task.ordered_insertBy Task.isMoreUrgent_isOrder t hs.ready_ordered, fun u hu => ?_,
      hs.delayed_ordered⟩
    rcases Task.mem_insertBy.1 hu with rfl | hu
    · exact Task.isReady_mono hle hready
    · exact hs.ready_isReady u hu
  · exact ⟨hs.ready_ordered, hs.ready_isReady,
      Task.ordered_insertBy Task.isDueBefore_isOrder t hs.delayed_ordered⟩

/-! ## Promotion -/

theorem foldl_insertReady_perm (due ready : List (Task β)) :
    (due.foldl (fun ready t => t.insertReady ready) ready).Perm (due ++ ready) := by
  induction due generalizing ready with
  | nil => exact List.Perm.refl _
  | cons t due ih =>
      have hinsert := (Task.insertBy_perm isMoreUrgent t ready).append_left due
      exact (ih (t.insertReady ready)).trans (hinsert.trans List.perm_middle)

theorem ordered_foldl_insertReady (due : List (Task β)) {ready : List (Task β)}
    (h : Ordered isMoreUrgent ready) :
    Ordered isMoreUrgent (due.foldl (fun ready t => t.insertReady ready) ready) := by
  induction due generalizing ready with
  | nil => exact h
  | cons t due ih => exact ih (Task.ordered_insertBy Task.isMoreUrgent_isOrder t h)

theorem promote_ready_perm (q : Locked β) (now : Instant) :
    (q.promote now).ready.Perm (q.delayed.takeWhile (·.isReady now) ++ q.ready) :=
  foldl_insertReady_perm _ _

theorem promote_tasks (q : Locked β) (now : Instant) : (q.promote now).tasks.Perm q.tasks := by
  have hready := (promote_ready_perm q now).append_right (q.delayed.dropWhile (·.isReady now))
  refine hready.trans ?_
  rw [List.append_assoc]
  refine List.perm_append_comm.trans ?_
  rw [List.append_assoc]
  refine List.Perm.append_left q.ready (List.perm_append_comm.trans ?_)
  rw [List.takeWhile_append_dropWhile]

/-- A promotion may be made at an earlier instant than one at which the backlog is in order. -/
theorem Sound.promote_of_le (hs : q.Sound later) (hle : now ≤ later) :
    (q.promote now).Sound later where
  ready_ordered := ordered_foldl_insertReady _ hs.ready_ordered
  ready_isReady t ht := by
    rcases List.mem_append.1 ((promote_ready_perm q now).mem_iff.1 ht) with hdue | hready
    · rw [(Task.takeWhile_isReady hs.delayed_ordered now).1] at hdue
      exact Task.isReady_mono hle (List.mem_filter.1 hdue).2
    · exact hs.ready_isReady t hready
  delayed_ordered := List.Pairwise.sublist (List.dropWhile_sublist _) hs.delayed_ordered

theorem Sound.promote (hs : q.Sound now) : (q.promote now).Sound now :=
  hs.promote_of_le (Int.le_refl now)

/-- After a promotion no delayed task is ready. -/
theorem Sound.promote_delayed (hs : q.Sound later) :
    (q.promote now).delayed = q.delayed.filter (!·.isReady now) :=
  (Task.takeWhile_isReady hs.delayed_ordered now).2

/-! ## Taking tasks -/

theorem attempt_interrupted (q : Locked β) (now : Instant) :
    (q.attempt now).1.interrupted = q.interrupted := by
  unfold attempt takeReady
  split <;> rfl

theorem attempt_tasks (q : Locked β) (now : Instant) :
    q.tasks.Perm ((q.attempt now).2.toList ++ (q.attempt now).1.tasks) := by
  refine (promote_tasks q now).symm.trans ?_
  unfold attempt takeReady
  split
  · exact List.Perm.refl _
  · rename_i t rest heq
    simp [tasks, heq]

theorem attempt_delayed (q : Locked β) (now : Instant) :
    (q.attempt now).1.delayed = q.delayed.dropWhile (·.isReady now) := by
  unfold attempt takeReady
  split <;> rfl

theorem Sound.attempt (hs : q.Sound later) (hle : now ≤ later) :
    (q.attempt now).1.Sound later := by
  have hp := hs.promote_of_le hle
  unfold Locked.attempt takeReady
  split
  · exact hp
  · rename_i t rest heq
    have hsub : rest.Sublist (q.promote now).ready := heq ▸ List.sublist_cons_self t rest
    exact ⟨hp.ready_ordered.sublist hsub, fun u hu => hp.ready_isReady u (hsub.mem hu),
      hp.delayed_ordered⟩

theorem Sound.attempt_isReady (hs : q.Sound later) (hle : now ≤ later) :
    ∀ t ∈ (q.attempt now).2, t.isReady later = true := by
  intro t ht
  unfold Locked.attempt takeReady at ht
  split at ht
  · contradiction
  · rename_i u rest heq
    cases ht
    exact (hs.promote_of_le hle).ready_isReady t (heq ▸ List.mem_cons_self)

/-- A look that finds nothing means that no task is ready. -/
theorem Sound.not_isReady_of_attempt (hs : q.Sound now) (hnone : (q.attempt now).2 = none) :
    ∀ t ∈ q.tasks, t.isReady now = false := by
  intro t ht
  have hready : (q.promote now).ready = [] := by
    unfold Locked.attempt takeReady at hnone
    split at hnone
    · assumption
    · contradiction
  have hmem : t ∈ (q.promote now).tasks := (promote_tasks q now).mem_iff.2 ht
  simp only [tasks, hready, List.nil_append, hs.promote_delayed] at hmem
  simpa using (List.mem_filter.1 hmem).2

end Dispatch.Locked
