import Dispatch.Proofs.Queue.Locked
import Dispatch.Proofs.Queue.Sharded
import Dispatch.Queue.Strategy
/-!
# What a strategy holds

Both strategies keep the same laws: a task that is added is held until it is taken or taken away, a
look takes at most one task and only a ready one, and a look that may go everywhere finds a task if
one is ready. What is proved about queues below needs to know no more about the strategies.
-/

namespace Dispatch

variable {β : Type} {now later : Instant}

namespace Strategy

variable {s : Strategy β}

/-- Whether the tasks of a strategy are in order at an instant. -/
def Sound (now : Instant) : Strategy β → Prop
  | locked q => q.Sound now
  | sharded q => q.Sound now

theorem sound_ofKind (kind : StrategyKind) (shards : Nat) (stealing : Bool) (c : Contention) :
    (ofKind kind shards stealing c : Strategy β).Sound now := by
  cases kind with
  | locked => exact Locked.sound_of_tasks_eq_nil rfl rfl
  | sharded => exact Sharded.sound_ofCount shards stealing c

@[simp] theorem tasks_ofKind (kind : StrategyKind) (shards : Nat) (stealing : Bool)
    (c : Contention) : (ofKind kind shards stealing c : Strategy β).tasks = [] := by
  cases kind with
  | locked => rfl
  | sharded => exact Sharded.tasks_ofCount shards stealing c

@[simp] theorem kind_ofKind (kind : StrategyKind) (shards : Nat) (stealing : Bool)
    (c : Contention) : (ofKind kind shards stealing c : Strategy β).kind = kind := by
  cases kind <;> rfl

@[simp] theorem isInterrupted_ofKind (kind : StrategyKind) (shards : Nat) (stealing : Bool)
    (c : Contention) :
    (ofKind kind shards stealing c : Strategy β).isInterrupted = false := by
  cases kind <;> rfl

/-- The number of shards and whether others may take from them, where there are any. -/
def shape : Strategy β → Option (Nat × Bool)
  | locked _ => none
  | sharded q => some (q.shards.length, q.stealing)

/-- A new strategy has no shards, or as many as it is to have. -/
theorem shape_ofKind {kind : StrategyKind} {shards : Nat} {stealing : Bool} {c : Contention}
    (hpos : 0 < shards) : ∀ shape ∈ (ofKind kind shards stealing c : Strategy β).shape,
      shape = (shards, stealing) := by
  cases kind with
  | locked => simp [ofKind, shape]
  | sharded =>
      intro shape h
      obtain rfl := Option.some.inj h
      simp only [Sharded.ofCount, List.length_replicate, Nat.max_eq_left hpos]

theorem Sound.mono (hs : s.Sound now) (hle : now ≤ later) : s.Sound later := by
  cases s with
  | locked q => exact Locked.Sound.mono hs hle
  | sharded q => exact Sharded.Sound.mono hs hle

/-- The size that a strategy tells is the number of its tasks. -/
theorem Sound.size_eq (hs : s.Sound now) : s.size = s.tasks.length := by
  cases s with
  | locked q => exact Locked.size_eq
  | sharded q => exact Sharded.Sound.size_eq hs

/-- Whether one strategy was made of another one without touching what it holds. -/
structure SameTasks (s s' : Strategy β) : Prop where
  sound : ∀ now, s.Sound now → s'.Sound now
  tasks_eq : s'.tasks = s.tasks
  kind_eq : s'.kind = s.kind
  delayedCount_eq : s'.delayedCount = s.delayedCount
  shape_eq : s'.shape = s.shape

theorem sameTasks_withContention (c : Contention) (s : Strategy β) :
    SameTasks s (s.withContention c) := by
  cases s with
  | locked q => exact ⟨fun _ h => ⟨h.1, h.2, h.3⟩, rfl, rfl, rfl, rfl⟩
  | sharded q => exact ⟨fun _ h => ⟨h.1, h.2, h.3, h.4, h.5⟩, rfl, rfl, rfl, rfl⟩

theorem sameTasks_interrupt (s : Strategy β) : SameTasks s s.interrupt := by
  cases s with
  | locked q => exact ⟨fun _ h => ⟨h.1, h.2, h.3⟩, rfl, rfl, rfl, rfl⟩
  | sharded q => exact ⟨fun _ h => ⟨h.1, h.2, h.3, h.4, h.5⟩, rfl, rfl, rfl, rfl⟩

theorem sameTasks_enter (s : Strategy β) : SameTasks s s.enter := by
  cases s with
  | locked q => exact ⟨fun _ h => ⟨h.1, h.2, h.3⟩, rfl, rfl, rfl, rfl⟩
  | sharded q => exact ⟨fun _ h => h, rfl, rfl, rfl, rfl⟩

theorem sameTasks_sleep (s : Strategy β) : SameTasks s s.sleep := by
  cases s with
  | locked q => exact ⟨fun _ h => h, rfl, rfl, rfl, rfl⟩
  | sharded q => exact ⟨fun _ h => ⟨h.1, h.2, h.3, h.4, h.5⟩, rfl, rfl, rfl, rfl⟩

theorem sameTasks_rouse (s : Strategy β) : SameTasks s s.rouse := by
  cases s with
  | locked q => exact ⟨fun _ h => h, rfl, rfl, rfl, rfl⟩
  | sharded q => exact ⟨fun _ h => ⟨h.1, h.2, h.3, h.4, h.5⟩, rfl, rfl, rfl, rfl⟩

theorem SameTasks.trans {s'' : Strategy β} {s s' : Strategy β} (h : SameTasks s s')
    (h' : SameTasks s' s'') : SameTasks s s'' :=
  ⟨fun now hs => h'.sound now (h.sound now hs), h'.tasks_eq.trans h.tasks_eq,
    h'.kind_eq.trans h.kind_eq, h'.delayedCount_eq.trans h.delayedCount_eq,
    h'.shape_eq.trans h.shape_eq⟩

@[simp] theorem isInterrupted_interrupt (s : Strategy β) : s.interrupt.isInterrupted = true := by
  cases s <;> rfl

@[simp] theorem isInterrupted_enter (s : Strategy β) :
    s.enter.isInterrupted = s.isInterrupted := by
  cases s <;> rfl

@[simp] theorem isInterrupted_withContention (c : Contention) (s : Strategy β) :
    (s.withContention c).isInterrupted = s.isInterrupted := by
  cases s <;> rfl

@[simp] theorem isInterrupted_sleep (s : Strategy β) :
    s.sleep.isInterrupted = s.isInterrupted := by
  cases s <;> rfl

@[simp] theorem isInterrupted_rouse (s : Strategy β) :
    s.rouse.isInterrupted = s.isInterrupted := by
  cases s <;> rfl

/-! ## Adding a task -/

/-- A task may be added at an earlier instant than one at which the tasks are in order. -/
theorem Sound.push_of_le (hs : s.Sound later) (hle : now ≤ later) (t : Task β) :
    (s.push now t).Sound later ∧ (s.push now t).tasks.Perm (t :: s.tasks) ∧
      (s.push now t).shape = s.shape := by
  cases s with
  | locked q => exact ⟨Locked.Sound.push hs hle t, Locked.push_tasks t, rfl⟩
  | sharded q =>
      obtain ⟨hsound, hperm, hframe⟩ := Sharded.Sound.push hs hle t
      exact ⟨hsound, hperm, congrArg some (Prod.ext hframe.length_eq hframe.stealing_eq)⟩

theorem Sound.push (hs : s.Sound now) (t : Task β) :
    (s.push now t).Sound now ∧ (s.push now t).tasks.Perm (t :: s.tasks) :=
  have h := hs.push_of_le (Int.le_refl now) t
  ⟨h.1, h.2.1⟩

@[simp] theorem kind_push (t : Task β) : (s.push now t).kind = s.kind := by
  cases s <;> rfl

@[simp] theorem isInterrupted_push (t : Task β) :
    (s.push now t).isInterrupted = s.isInterrupted := by
  cases s with
  | locked q =>
      simp only [Strategy.push, isInterrupted, Locked.push]
      split <;> rfl
  | sharded q =>
      simp only [Strategy.push, isInterrupted, Sharded.push]
      split <;> rfl

/-- Adding tasks one by one adds all of them. -/
theorem Sound.foldl_push (hs : s.Sound now) (ts : List (Task β)) :
    (ts.foldl (fun s t => s.push now t) s).Sound now ∧
      (ts.foldl (fun s t => s.push now t) s).tasks.Perm (ts ++ s.tasks) := by
  induction ts generalizing s with
  | nil => exact ⟨hs, List.Perm.refl _⟩
  | cons t ts ih =>
      obtain ⟨hone, hperm⟩ := hs.push t
      obtain ⟨hrest, hrestPerm⟩ := ih hone
      exact ⟨hrest, hrestPerm.trans ((hperm.append_left ts).trans List.perm_middle)⟩

theorem kind_foldl_push (ts : List (Task β)) (s : Strategy β) :
    (ts.foldl (fun s t => s.push now t) s).kind = s.kind := by
  induction ts generalizing s with
  | nil => rfl
  | cons t ts ih => exact (ih (s.push now t)).trans (kind_push t)

theorem Sound.shape_push (hs : s.Sound now) (t : Task β) : (s.push now t).shape = s.shape :=
  (hs.push_of_le (Int.le_refl now) t).2.2

theorem Sound.shape_foldl_push (hs : s.Sound now) (ts : List (Task β)) :
    (ts.foldl (fun s t => s.push now t) s).shape = s.shape := by
  induction ts generalizing s with
  | nil => rfl
  | cons t ts ih => exact (ih (hs.push t).1).trans (hs.shape_push t)

theorem isInterrupted_foldl_push (ts : List (Task β)) (s : Strategy β) :
    (ts.foldl (fun s t => s.push now t) s).isInterrupted = s.isInterrupted := by
  induction ts generalizing s with
  | nil => rfl
  | cons t ts ih => exact (ih (s.push now t)).trans (isInterrupted_push t)

/-! ## Taking a task -/

/-- Whether a look at a strategy takes at most one task, which is ready, and leaves all others. -/
structure Yields (now : Instant) (s : Strategy β) (r : Strategy β × Option (Task β)) : Prop where
  sound : r.1.Sound now
  tasks_perm : s.tasks.Perm (r.2.toList ++ r.1.tasks)
  isReady : ∀ t ∈ r.2, t.isReady now = true
  kind_eq : r.1.kind = s.kind
  isInterrupted_eq : r.1.isInterrupted = s.isInterrupted
  delayedCount_le : r.1.delayedCount ≤ s.delayedCount
  shape_eq : r.1.shape = s.shape

theorem yields_attempt_locked {q : Locked β} (hs : q.Sound later) (hle : now ≤ later) :
    Yields later (locked q) ((q.attempt now).map locked id) := by
  refine ⟨hs.attempt hle, Locked.attempt_tasks q now, hs.attempt_isReady hle, rfl,
    Locked.attempt_interrupted q now, ?_, rfl⟩
  show (q.attempt now).1.delayed.length ≤ q.delayed.length
  rw [Locked.attempt_delayed]
  exact (List.dropWhile_sublist _).length_le

theorem yields_tryPop_sharded {q : Sharded β} (hs : q.Sound later) (hle : now ≤ later)
    (worker : Nat) : Yields later (sharded q) ((q.tryPop worker now).map sharded id) := by
  have h := hs.tryPop_of_le hle worker
  refine ⟨h.sound, h.tasks_perm, h.isReady, rfl, h.frame.interrupted_eq, ?_,
    congrArg some (Prod.ext h.frame.length_eq h.frame.stealing_eq)⟩
  show (q.tryPop worker now).1.delayedCount ≤ q.delayedCount
  rw [h.sound.delayedCount_eq, hs.delayedCount_eq]
  exact h.delayed_sublist.length_le

/-- What is taken at an instant is ready then, and later as well. -/
theorem Sound.tryPop_of_le (hs : s.Sound later) (hle : now ≤ later) (worker : Nat) :
    Yields later s (s.tryPop worker now) := by
  cases s with
  | locked q =>
      have h := yields_attempt_locked (Locked.Sound.record hs 1) hle
      exact ⟨h.sound, h.tasks_perm, h.isReady, rfl, h.isInterrupted_eq, h.delayedCount_le, rfl⟩
  | sharded q => exact yields_tryPop_sharded hs hle worker

theorem Sound.tryPop (hs : s.Sound now) (worker : Nat) : Yields now s (s.tryPop worker now) :=
  hs.tryPop_of_le (Int.le_refl now) worker

/-- What a look yields does not depend on what is not held. -/
theorem Yields.of_sameTasks {s' : Strategy β} {r : Strategy β × Option (Task β)}
    (h : Yields now s' r) (hsame : SameTasks s s')
    (hflag : s'.isInterrupted = s.isInterrupted) : Yields now s r :=
  ⟨h.sound, hsame.tasks_eq ▸ h.tasks_perm, h.isReady, h.kind_eq.trans hsame.kind_eq,
    h.isInterrupted_eq.trans hflag, hsame.delayedCount_eq ▸ h.delayedCount_le,
    h.shape_eq.trans hsame.shape_eq⟩

/-- A second look takes what the first one has left. -/
theorem Yields.trans_none {earlier : Instant} {s' : Strategy β}
    {r : Strategy β × Option (Task β)} (hfirst : Yields earlier s (s', none))
    (hsecond : Yields now s' r) : Yields now s r :=
  ⟨hsecond.sound, hfirst.tasks_perm.trans hsecond.tasks_perm, hsecond.isReady,
    hsecond.kind_eq.trans hfirst.kind_eq,
    hsecond.isInterrupted_eq.trans hfirst.isInterrupted_eq,
    Nat.le_trans hsecond.delayedCount_le hfirst.delayedCount_le,
    hsecond.shape_eq.trans hfirst.shape_eq⟩

/-- A wait looks at shards once, or it is to be given up, has found nothing and looks once more. -/
theorem attempt_sharded_cases (q : Sharded β) (worker : Nat) (now : Instant) :
    (sharded q).attempt worker now = (q.tryPop worker now).map sharded id ∨
      ∃ q', q.tryPop worker now = (q', none) ∧ q'.interrupted = true ∧
        (sharded q).attempt worker now = (q'.tryPop worker now).map sharded id := by
  unfold Strategy.attempt
  cases hfirst : q.tryPop worker now with
  | mk q' found =>
      cases found with
      | some t => simp [hfirst]
      | none =>
          by_cases hint : q'.interrupted = true
          · simp [hfirst, hint]
          · simp [hfirst, hint]

theorem Sound.attempt_of_le (hs : s.Sound later) (hle : now ≤ later) (worker : Nat) :
    Yields later s (s.attempt worker now) := by
  cases s with
  | locked q => exact yields_attempt_locked hs hle
  | sharded q =>
      have h := yields_tryPop_sharded hs hle worker
      rcases attempt_sharded_cases q worker now with heq | ⟨q', hfirst, -, heq⟩
      · rw [heq]
        exact h
      · rw [hfirst] at h
        rw [heq]
        exact h.trans_none (yields_tryPop_sharded h.sound hle worker)

theorem Sound.attempt (hs : s.Sound now) (worker : Nat) : Yields now s (s.attempt worker now) :=
  hs.attempt_of_le (Int.le_refl now) worker

/-- If waits are to be given up and a look finds nothing, no task is ready. -/
theorem Sound.not_isReady_of_attempt (hs : s.Sound now) {worker : Nat}
    (hint : s.isInterrupted = true) (hnone : (s.attempt worker now).2 = none) :
    ∀ t ∈ s.tasks, t.isReady now = false := by
  cases s with
  | locked q => exact Locked.Sound.not_isReady_of_attempt hs hnone
  | sharded q =>
      have hall : (q.stealing || q.interrupted) = true := by
        rw [show q.interrupted = true from hint, Bool.or_true]
      have hmiss : (q.tryPop worker now).2 = none := by
        rcases attempt_sharded_cases q worker now with heq | ⟨q', hfirst, -, -⟩
        · rw [heq] at hnone
          exact hnone
        · rw [hfirst]
      exact Sharded.Sound.not_isReady_of_tryPop hs hall hmiss

/-! ## Taking tasks away -/

theorem Sound.drain (hs : s.Sound now) :
    s.drain.1.Sound now ∧ s.drain.1.tasks = [] ∧ s.drain.2 = s.tasks := by
  cases s with
  | locked q => exact ⟨Locked.sound_of_tasks_eq_nil rfl rfl, rfl, rfl⟩
  | sharded q =>
      obtain ⟨hsound, hnil, htasks, -⟩ := Sharded.Sound.drain hs
      exact ⟨hsound, hnil, htasks⟩

@[simp] theorem shape_drain (s : Strategy β) : s.drain.1.shape = s.shape := by
  cases s with
  | locked q => rfl
  | sharded q => simp [drain, shape, Sharded.drain]

@[simp] theorem shape_drainDelayed (s : Strategy β) :
    (s.drainDelayed now).1.shape = s.shape := by
  cases s <;> rfl

@[simp] theorem isInterrupted_drain (s : Strategy β) :
    s.drain.1.isInterrupted = s.isInterrupted := by
  cases s <;> rfl

@[simp] theorem kind_drain (s : Strategy β) : s.drain.1.kind = s.kind := by cases s <;> rfl

@[simp] theorem isInterrupted_drainDelayed (s : Strategy β) :
    (s.drainDelayed now).1.isInterrupted = s.isInterrupted := by
  cases s <;> rfl

end Strategy

/-! ## Waiting for a task -/

/-- The task that a wait took, if it took one. -/
def Wait.task? : Wait β → Option (Task β)
  | .task t => some t
  | _ => none

namespace Strategy

variable {s : Strategy β}

/-- Whether a wait ends at the instant it began or later, and takes at most one task, which is ready
by then, and leaves all others. -/
structure WaitYields (now : Instant) (s : Strategy β) (r : Strategy β × Instant × Wait β) :
    Prop where
  now_le : now ≤ r.2.1
  yields : Yields r.2.1 s (r.1, r.2.2.task?)

/-- A wait may begin at an earlier instant than one at which the tasks are in order. -/
theorem Sound.waitLooks_of_le (hs : s.Sound later) (hle : now ≤ later) (worker : Nat)
    (deadline : Option Instant) (looks : Nat) :
    now ≤ (s.waitLooks worker deadline looks now).2.1 ∧
      Yields (max later (s.waitLooks worker deadline looks now).2.1) s
        ((s.waitLooks worker deadline looks now).1,
          (s.waitLooks worker deadline looks now).2.2.task?) := by
  induction looks generalizing s now later with
  | zero =>
      have hmax : later ≤ max later now := Int.le_max_left later now
      exact ⟨Int.le_refl now, hs.mono hmax, List.Perm.refl _,
        by simp [Strategy.waitLooks, Wait.task?], rfl, rfl, Nat.le_refl _, rfl⟩
  | succ looks ih =>
      have h := hs.attempt_of_le hle worker
      have hmax : max later now = later := Int.max_eq_left hle
      unfold Strategy.waitLooks
      cases hlook : s.attempt worker now with
      | mk s' found =>
          rw [hlook] at h
          cases found with
          | some t => exact ⟨Int.le_refl now, by rw [hmax]; exact h⟩
          | none =>
              -- the wait ends here with nothing, or goes on from a later instant
              have hend : ∀ w : Wait β, w.task? = none →
                  now ≤ now ∧ Yields (max later now) s (s', w.task?) :=
                fun w hw => ⟨Int.le_refl now, by rw [hw, hmax]; exact h⟩
              simp only
              split
              · exact hend _ rfl
              split
              · exact hend _ rfl
              split
              · exact hend _ rfl
              · rename_i wakeAt _
                have hwake : now ≤ max now wakeAt := Int.le_max_left now wakeAt
                have hsleep := sameTasks_sleep s'
                have hrouse := sameTasks_rouse s'.sleep
                have hsound := h.sound.mono (Int.le_max_left later (max now wakeAt))
                obtain ⟨hnow, hlater⟩ := ih (hrouse.sound _ (hsleep.sound _ hsound))
                  (Int.le_max_right later (max now wakeAt))
                rw [Int.max_assoc, Int.max_eq_right hnow] at hlater
                refine ⟨Int.le_trans hwake hnow, h.trans_none ?_⟩
                exact (hlater.of_sameTasks hrouse (isInterrupted_rouse _)).of_sameTasks
                  hsleep (isInterrupted_sleep _)

theorem Sound.popWait_of_le (hs : s.Sound later) (hle : now ≤ later) (worker : Nat)
    (deadline : Option Instant) :
    now ≤ (s.popWait worker deadline now).2.1 ∧
      Yields (max later (s.popWait worker deadline now).2.1) s
        ((s.popWait worker deadline now).1, (s.popWait worker deadline now).2.2.task?) := by
  have henter := sameTasks_enter s
  obtain ⟨hnow, hyields⟩ := (henter.sound later hs).waitLooks_of_le hle worker deadline
    (s.delayedCount + 2)
  exact ⟨hnow, hyields.of_sameTasks henter (isInterrupted_enter s)⟩

theorem Sound.popWait (hs : s.Sound now) (worker : Nat) (deadline : Option Instant) :
    WaitYields now s (s.popWait worker deadline now) := by
  obtain ⟨hnow, hyields⟩ := hs.popWait_of_le (Int.le_refl now) worker deadline
  rw [Int.max_eq_right hnow] at hyields
  exact ⟨hnow, hyields⟩

end Strategy

end Dispatch
