import Dispatch.Proofs.Queue.Calls
/-!
# The parts of a look

Between the parts of a look no task is away: those that are in hand are the first ones of the delayed
tasks, since whatever is added to these gets ready later. Putting one of them into a shard leaves the
others as they are, and so does a look at the shards only.
-/

namespace Dispatch

variable {β : Type} {now : Instant} {t : Task β}

namespace Sharded

variable {q q' : Sharded β} {place : Nat}

/-- It does not matter which shard is to get the next task. -/
theorem Sound.passTo (hs : q.Sound now) (cursor : Nat) : (q.passTo cursor).Sound now :=
  ⟨hs.shards_ne, hs.shard, hs.readyCount_eq, hs.delayedCount_eq, hs.delayed_ordered⟩

theorem Sound.without (hs : q.Sound now) (inHand : Nat) : (q.without inHand).Sound now where
  shards_ne := hs.shards_ne
  shard := hs.shard
  readyCount_eq := hs.readyCount_eq
  delayedCount_eq := by
    show q.delayedCount - inHand = (q.delayed.drop inHand).length
    rw [List.length_drop, hs.delayedCount_eq]
  delayed_ordered := hs.delayed_ordered.sublist (List.drop_sublist _ _)

/-- The delayed tasks that are due stand before the others. -/
theorem Sound.isReady_of_lt (hs : q.Sound now) (hplace : q.delayed[place]? = some t)
    (hlt : place < q.delayed.countP (·.isReady now)) : t.isReady now = true := by
  have hdue : q.delayed.takeWhile (·.isReady now) = q.delayed.filter (·.isReady now) :=
    (Task.takeWhile_isReady hs.delayed_ordered now).1
  rw [List.countP_eq_length_filter, ← hdue] at hlt
  rw [← List.takeWhile_append_dropWhile (p := (·.isReady now)) (l := q.delayed),
    List.getElem?_append_left hlt, hdue] at hplace
  exact (List.mem_filter.1 (List.mem_of_getElem? hplace)).2

/-- Whether a backlog is another one with the delayed task at a place put into a shard. -/
structure DealsOne (now : Instant) (place : Nat) (t : Task β) (q q' : Sharded β) : Prop where
  sound : q'.Sound now
  readyTasks_perm : q'.readyTasks.Perm (t :: q.readyTasks)
  delayed_eq : q'.delayed = q.delayed.eraseIdx place
  delayed_perm : q.delayed.Perm (t :: q'.delayed)
  frame : SameFrame q q'

theorem Sound.deal (hs : q.Sound now) (hplace : q.delayed[place]? = some t)
    (ht : t.isReady now = true) : DealsOne now place t q (q.deal place) := by
  obtain ⟨hlt, hget⟩ := List.getElem?_eq_some_iff.1 hplace
  let less : Sharded β :=
    { q with delayed := q.delayed.eraseIdx place, delayedCount := q.delayedCount - 1 }
  have hless : less.Sound now := by
    refine ⟨hs.shards_ne, hs.shard, hs.readyCount_eq, ?_,
      hs.delayed_ordered.sublist (List.eraseIdx_sublist _ _)⟩
    show q.delayedCount - 1 = (q.delayed.eraseIdx place).length
    rw [List.length_eraseIdx_of_lt hlt, hs.delayedCount_eq]
  have hadds := hless.pushReady ht
  have hdeal : q.deal place = less.pushReady t := by
    unfold Sharded.deal
    rw [hplace]
  rw [hdeal]
  refine ⟨hadds.sound, hadds.readyTasks_perm, hadds.delayed_eq, ?_,
    ⟨hadds.frame.length_eq, hadds.frame.stealing_eq, hadds.frame.interrupted_eq⟩⟩
  rw [hadds.delayed_eq, ← hget]
  exact (List.getElem_cons_eraseIdx_perm hlt).symm

/-- The tasks are the same, but for their places. -/
theorem DealsOne.tasks_perm (h : DealsOne now place t q q') : q.tasks.Perm q'.tasks := by
  rw [tasks_eq, tasks_eq]
  calc (q.readyTasks ++ q.delayed).Perm (q.readyTasks ++ t :: q'.delayed) :=
        h.delayed_perm.append_left _
    _ |>.Perm (t :: (q.readyTasks ++ q'.delayed)) := List.perm_middle
    _ |>.Perm (q'.readyTasks ++ q'.delayed) := (h.readyTasks_perm.append_right _).symm

/-- What is behind the first tasks stays behind them if one of these is put into a shard. -/
theorem DealsOne.drop_delayed {inHand : Nat} (h : DealsOne now place t q q') (hlt : place < inHand) :
    q'.delayed.drop (inHand - 1) = q.delayed.drop inHand := by
  rw [h.delayed_eq, List.eraseIdx_eq_take_drop_succ]
  apply List.ext_getElem?
  intro i
  grind

end Sharded

namespace Strategy

variable {s : Strategy β} {worker inHand : Nat}

theorem Sound.without (hs : s.Sound now) (inHand : Nat) : (s.without inHand).Sound now := by
  cases s with
  | locked q => exact hs
  | sharded q => exact Sharded.Sound.without hs inHand

@[simp] theorem isShared_without (s : Strategy β) : (s.without inHand).isShared = s.isShared := by
  cases s <;> rfl

@[simp] theorem isInterrupted_without (s : Strategy β) :
    (s.without inHand).isInterrupted = s.isInterrupted := by
  cases s <;> rfl

theorem kind_without (s : Strategy β) : (s.without inHand).kind = s.kind := by cases s <;> rfl

@[simp] theorem announced_without (s : Strategy β) : (s.without inHand).announced = s.announced := by
  cases s <;> rfl

@[simp] theorem linedUp_without (s : Strategy β) : (s.without inHand).linedUp = s.linedUp := by
  cases s <;> rfl

@[simp] theorem deferred_without (s : Strategy β) :
    (s.without inHand).deferred = s.deferred.drop inHand := by
  cases s with
  | locked q => exact List.drop_nil.symm
  | sharded q => rfl

@[simp] theorem deferred_interrupt (s : Strategy β) : s.interrupt.deferred = s.deferred := by
  cases s <;> rfl

/-- A graceful close leaves the delayed tasks that are ready. -/
theorem deferred_drainDelayed (s : Strategy β) :
    (s.drainDelayed now).1.deferred = s.deferred.filter (·.isReady now) := by
  cases s <;> rfl

theorem homeEmpty_without : (s.without inHand).HomeEmpty worker ↔ s.HomeEmpty worker := by
  cases s <;> exact Iff.rfl

theorem without_zero (s : Strategy β) : s.without 0 = s := by cases s <;> rfl

/-! ## A look at the shards only -/

/-- It takes one ready task, or none. -/
theorem Sound.glance (hs : s.Sound now) (worker : Nat) : Yields now s (s.glance worker) := by
  cases s with
  | locked q =>
      exact ⟨hs, List.Perm.refl _, fun t ht => by contradiction, rfl, rfl, Nat.le_refl _, rfl⟩
  | sharded q =>
      have h := (Sharded.Sound.popFirst hs (q.route worker)).1
      refine ⟨h.sound, h.tasks_perm, h.isReady, rfl, h.frame.interrupted_eq, ?_,
        congrArg some (Prod.ext h.frame.length_eq h.frame.stealing_eq)⟩
      show (q.popFirst (q.route worker)).1.delayedCount ≤ q.delayedCount
      rw [h.sound.delayedCount_eq, Sharded.Sound.delayedCount_eq hs]
      exact h.delayed_sublist.length_le

@[simp] theorem deferred_glance (s : Strategy β) (worker : Nat) :
    (s.glance worker).1.deferred = s.deferred := by
  cases s with
  | locked q => rfl
  | sharded q => exact Sharded.popFirst_delayed q (q.route worker)

theorem Sound.homeEmpty_glance (hs : s.Sound now) {other : Nat} (h : s.HomeEmpty other) :
    (s.glance worker).1.HomeEmpty other := by
  cases s with
  | locked q => trivial
  | sharded q =>
      have hlength := (Sharded.Sound.popFirst hs (q.route worker)).1.frame.length_eq
      show (q.popFirst (q.route worker)).1.EmptyAt ((q.popFirst (q.route worker)).1.home other)
      unfold Sharded.home
      rw [hlength]
      exact Sharded.popFirst_emptyAt h _

end Strategy

end Dispatch
