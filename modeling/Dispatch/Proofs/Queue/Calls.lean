import Dispatch.Proofs.Queue.Idle
import Dispatch.Proofs.Queue.Single
import Dispatch.Queue.Calls
/-!
# Whom the tasks of a queue may pass by

A sleeping worker oversleeps the tasks that get ready before it wakes up by itself. A worker that falls
asleep oversleeps none. Where all workers share the ready tasks, each task that comes later brings a
call along; where they do not, whatever comes into a shard calls all of them. Of delayed tasks beside
shards all sleepers are told.
-/

namespace Dispatch

variable {β : Type} {now : Instant}

/-- A worker that sleeps, and the instant at which it wakes up by itself, if there is one. -/
structure Sleeper where
  index : Nat
  wakeAt : Option Instant
deriving DecidableEq, Repr

namespace Sleeper

variable {x : Sleeper} {t : Task β}

/-- Whether a task gets ready before a sleeper wakes up by itself. -/
def oversleeps (x : Sleeper) (t : Task β) : Bool := x.wakeAt.all (t.readyAt < ·)

/-- Whether a sleeper wakes up by itself after an instant, if it does so at all. -/
def SleepsBeyond (x : Sleeper) (now : Instant) : Prop := ∀ wakeAt ∈ x.wakeAt, now < wakeAt

theorem oversleeps_of_isReady (h : x.SleepsBeyond now) (ht : t.isReady now = true) :
    x.oversleeps t = true := by
  unfold oversleeps
  cases hwake : x.wakeAt with
  | none => rfl
  | some wakeAt => exact decide_eq_true (Int.lt_of_le_of_lt (Task.isReady_iff.1 ht) (h wakeAt hwake))

theorem not_isReady_of_not_oversleeps (h : x.SleepsBeyond now) (ht : x.oversleeps t = false) :
    t.isReady now = false := by
  by_contra hready
  rw [oversleeps_of_isReady h (by simpa using hready)] at ht
  contradiction

/-- A worker that sleeps until the soonest of some tasks oversleeps none of them. -/
theorem not_oversleeps_of_isSoonest {ts : List (Task β)} {wakeAt : Option Instant}
    (h : Strategy.IsSoonest ts wakeAt) (index : Nat) :
    ∀ t ∈ ts, (⟨index, wakeAt⟩ : Sleeper).oversleeps t = false := by
  intro t ht
  cases wakeAt with
  | none => simp [show ts = [] from h] at ht
  | some wakeAt => exact decide_eq_false (Int.not_lt.2 (h.2 t ht))

end Sleeper

theorem Locked.attempt_ready (q : Locked β) (now : Instant) :
    (q.attempt now).1.ready = (q.promote now).ready.tail := by
  unfold attempt takeReady
  split
  · rename_i hnil
    simp [hnil]
  · rename_i hcons
    simp [hcons]

namespace Sharded

variable {q q' : Sharded β} {index : Nat}

theorem popShard_emptyAt (h : q.EmptyAt index) (other : Nat) : (q.popShard other).1.EmptyAt index := by
  unfold popShard
  split
  · exact h
  · rename_i s hs
    split
    · exact h
    · split
      · exact h
      · rename_i t rest htasks
        intro s' hs'
        have hne : other ≠ index := by
          rintro rfl
          rw [h s hs] at htasks
          contradiction
        exact h s' (by rwa [List.getElem?_set_ne hne] at hs')

/-- Taking a task puts none anywhere. -/
theorem popFirst_emptyAt (h : q.EmptyAt index) (route : List Nat) :
    (q.popFirst route).1.EmptyAt index :=
  popFirst_induction (P := fun q => q.EmptyAt index)
    (fun _ other hempty => popShard_emptyAt hempty other) h route

/-- Where nothing is due, nothing is moved into a shard. -/
theorem promote_eq_self (hcalm : q.interrupted = false) (hdue : (q.takeDue now).2 = [])
    (worker : Nat) : q.promote worker now = q := by
  simp [promote, hcalm, takeDue_eq_self hdue]

end Sharded

namespace Strategy

variable {s s' : Strategy β} {x : Sleeper} {worker : Nat}

/-- Whether every worker may take every ready task. -/
def isShared (s : Strategy β) : Bool := s.shape.all Prod.snd

/-- The tasks that one worker each is called for: all of a single backlog, and else those in the shards. -/
def announced : Strategy β → List (Task β)
  | locked q => q.tasks
  | sharded q => q.readyTasks

/-- The delayed tasks that all sleepers are told of: those beside the shards. -/
def deferred : Strategy β → List (Task β)
  | locked _ => []
  | sharded q => q.delayed

/-- The tasks that workers at a single backlog are to take: those that were ready when they were added, and
those that a look has come upon since. -/
def linedUp : Strategy β → List (Task β)
  | locked q => q.ready
  | sharded _ => []

theorem tasks_eq (s : Strategy β) : s.tasks = s.announced ++ s.deferred := by
  cases s with
  | locked q => exact (List.append_nil _).symm
  | sharded q => rfl

/-- Whether there is nothing in the home shard of a worker, where there are shards. -/
def HomeEmpty (worker : Nat) : Strategy β → Prop
  | locked _ => True
  | sharded q => q.EmptyAt (q.home worker)

@[simp] theorem isShared_bare (s : Strategy β) : s.bare.isShared = s.isShared := by cases s <;> rfl

theorem kind_bare (s : Strategy β) : s.bare.kind = s.kind := by cases s <;> rfl

theorem announced_bare (s : Strategy β) : s.bare.announced = s.announced := by cases s <;> rfl

theorem deferred_bare (s : Strategy β) : s.bare.deferred = s.deferred := by cases s <;> rfl

theorem linedUp_bare (s : Strategy β) : s.bare.linedUp = s.linedUp := by cases s <;> rfl

theorem linedUp_of_sharded (h : s.kind = .sharded) : s.linedUp = [] := by
  cases s with
  | locked q => contradiction
  | sharded q => rfl

theorem homeEmpty_bare : s.bare.HomeEmpty worker ↔ s.HomeEmpty worker := by cases s <;> exact Iff.rfl

theorem tasks_eq_nil_iff : s.tasks = [] ↔ s.announced = [] ∧ s.deferred = [] := by
  rw [tasks_eq, List.append_eq_nil_iff]

theorem homeEmpty_of_announced_eq_nil (h : s.announced = []) : s.HomeEmpty worker := by
  cases s with
  | locked q => trivial
  | sharded q => exact Sharded.readyTasks_eq_nil_iff.1 h _

theorem linedUp_of_announced_eq_nil (h : s.announced = []) : s.linedUp = [] := by
  cases s with
  | locked q => exact (List.append_eq_nil_iff.1 h).1
  | sharded q => rfl

theorem callsOfLook_bare (s : Strategy β) : s.bare.callsOfLook now = s.callsOfLook now := by
  cases s with
  | locked q =>
      simp only [bare, callsOfLook, Locked.attempt_ready]
      rfl
  | sharded q => rfl

/-- Whether what a sleeper could miss is not there: no task that it oversleeps, or none of its own. -/
structure Spares (x : Sleeper) (s : Strategy β) : Prop where
  announced : s.isShared = true → ∀ t ∈ s.announced, x.oversleeps t = false
  deferred : ∀ t ∈ s.deferred, x.oversleeps t = false
  homeEmpty : s.isShared = false → s.HomeEmpty x.index

/-- Where no task is ready, no shard holds any. -/
theorem emptyAt_of_late {q : Sharded β} (hs : q.Sound now)
    (hlate : ∀ t ∈ q.tasks, t.isReady now = false) (index : Nat) : q.EmptyAt index := by
  refine Sharded.readyTasks_eq_nil_iff.1 (List.eq_nil_iff_forall_not_mem.2 fun t ht => ?_) index
  have hready := hs.isReady t ht
  rw [hlate t (List.mem_append_left _ ht)] at hready
  contradiction

/-- Without stealing a worker comes by its own shard only, unless waits are to be given up. -/
theorem route_eq_home {q : Sharded β} (hshared : (sharded q).isShared = false)
    (hcalm : q.interrupted = false) (worker : Nat) : q.route worker = [q.home worker] := by
  have hstealing : q.stealing = false := hshared
  simp [Sharded.route, hstealing, hcalm]

/-- Where no task is ready, nobody has anything to take. -/
theorem hasNoneFor_of_late (hs : s.Sound now) (hlate : ∀ t ∈ s.tasks, t.isReady now = false)
    (worker : Nat) : s.HasNoneFor worker now := by
  cases s with
  | locked q => exact hlate
  | sharded q =>
      exact ⟨fun index _ => emptyAt_of_late hs hlate index,
        fun t ht => hlate t (List.mem_append_right _ ht)⟩

/-- A sleeper that is told of all delayed tasks, and misses none of those that are ready, has nothing to
take. -/
theorem Spares.hasNoneFor (hs : s.Sound now) (hcalm : s.isInterrupted = false)
    (hbeyond : x.SleepsBeyond now) (h : s.Spares x) : s.HasNoneFor x.index now := by
  have hlate : ∀ t : Task β, x.oversleeps t = false → t.isReady now = false := fun t ht =>
    Sleeper.not_isReady_of_not_oversleeps hbeyond ht
  cases hshared : s.isShared with
  | true =>
      refine hasNoneFor_of_late hs (fun t ht => hlate t ?_) x.index
      rw [tasks_eq] at ht
      rcases List.mem_append.1 ht with ht | ht
      · exact h.announced hshared t ht
      · exact h.deferred t ht
  | false =>
      cases s with
      | locked q => contradiction
      | sharded q =>
          refine ⟨fun index hmem => ?_, fun t ht => hlate t (h.deferred t ht)⟩
          rw [route_eq_home hshared hcalm, List.mem_singleton] at hmem
          exact hmem ▸ h.homeEmpty hshared

/-- Where a worker that may take from all shards has nothing to take, there is nothing in any of them. -/
theorem HasNoneFor.announced_eq_nil (hkind : s.kind = .sharded) (hshared : s.isShared = true)
    (h : s.HasNoneFor worker now) : s.announced = [] := by
  cases s with
  | locked q => contradiction
  | sharded q =>
      have hall : (q.stealing || q.interrupted) = true := by
        rw [show q.stealing = true from hshared, Bool.true_or]
      exact Sharded.readyTasks_eq_nil_of_route hall h.1

/-- A worker that has nothing to take spares what it could miss, if it sleeps until the next delayed
task gets ready. -/
theorem HasNoneFor.spares (hs : s.Sound now) (h : s.HasNoneFor worker now) :
    s.Spares ⟨worker, s.nextReadyAt⟩ := by
  cases s with
  | locked q =>
      have hlate : ∀ t ∈ (locked q).tasks, t.isReady now = false := h
      have hspares := Sleeper.not_oversleeps_of_isSoonest (hs.isSoonest_nextReadyAt hlate) worker
      exact ⟨fun _ => hspares, fun t ht => absurd ht List.not_mem_nil, fun _ => trivial⟩
  | sharded q =>
      have hspares := Sleeper.not_oversleeps_of_isSoonest (isSoonest_sharded hs) worker
      refine ⟨fun hshared t ht => ?_, hspares, fun _ => h.1 _ List.mem_cons_self⟩
      rw [h.announced_eq_nil rfl hshared] at ht
      contradiction

/-- A worker that falls asleep at a single backlog has seen that no task is to be taken. -/
theorem linedUp_of_hasWorkFor (h : s.hasWorkFor worker now = false) : s.linedUp = [] := by
  cases s with
  | locked q =>
      show q.ready = []
      simpa using (Bool.or_eq_false_iff.1 h).1
  | sharded q => rfl

theorem any_nextReadyAt_iff {ts : List (Task β)} {next : Option Instant} (h : IsSoonest ts next) :
    next.any (· ≤ now) = false ↔ ∀ t ∈ ts, t.isReady now = false := by
  cases next with
  | none => simp [show ts = [] from h]
  | some r =>
      obtain ⟨⟨t, ht, rfl⟩, hle⟩ := h
      refine ⟨fun hlate u hu => ?_, fun hall => hall t ht⟩
      exact Task.not_isReady_iff.2 (Int.lt_of_lt_of_le (Task.not_isReady_iff.1 hlate) (hle u hu))

/-- A worker that falls asleep does so for some time. -/
theorem sleepsBeyond_of_hasWorkFor (h : s.hasWorkFor worker now = false) :
    (⟨worker, s.nextReadyAt⟩ : Sleeper).SleepsBeyond now := by
  intro wakeAt hwake
  have hnext : s.nextReadyAt.any (· ≤ now) = false := by
    cases s with
    | locked q => exact (Bool.or_eq_false_iff.1 h).2
    | sharded q => exact (Bool.or_eq_false_iff.1 h).2
  rw [show s.nextReadyAt = some wakeAt from hwake] at hnext
  exact Int.not_le.1 (of_decide_eq_false hnext)

/-- A worker finds a reason to stay up if and only if there is something that it may take. -/
theorem Sound.hasWorkFor_eq_false_iff (hs : s.Sound now) (hcalm : s.isInterrupted = false) :
    s.hasWorkFor worker now = false ↔ s.HasNoneFor worker now := by
  cases s with
  | locked q =>
      have hdelayed : q.nextReadyAt.any (· ≤ now) = false ↔
          ∀ t ∈ q.delayed, t.isReady now = false := any_nextReadyAt_iff (isSoonest_locked hs)
      have hready : (!q.ready.isEmpty) = false ↔ ∀ t ∈ q.ready, t.isReady now = false := by
        refine ⟨fun h => ?_, fun h => ?_⟩
        · simp [show q.ready = [] by simpa using h]
        · cases hq : q.ready with
          | nil => rfl
          | cons t rest =>
              have hmem : t ∈ q.ready := hq ▸ List.mem_cons_self
              exact absurd (Locked.Sound.ready_isReady hs t hmem) (by simp [h t hmem])
      show (!q.ready.isEmpty || q.nextReadyAt.any (· ≤ now)) = false ↔
        ∀ t ∈ q.ready ++ q.delayed, t.isReady now = false
      rw [Bool.or_eq_false_iff, hready, hdelayed, List.forall_mem_append]
  | sharded q =>
      have hopen : q.interrupted = false := hcalm
      refine Bool.or_eq_false_iff.trans (and_congr ?_ (any_nextReadyAt_iff (isSoonest_sharded hs)))
      rw [hopen, Bool.or_false]
      cases hstealing : q.stealing with
      | true =>
          have hall : (q.stealing || q.interrupted) = true := by rw [hstealing, Bool.true_or]
          have hcount : decide (0 < q.readyCount) = false ↔ q.readyTasks = [] := by
            rw [Sharded.Sound.readyCount_eq hs]
            simp [List.length_pos_iff]
          rw [if_pos rfl, hcount]
          exact ⟨fun h index _ => Sharded.readyTasks_eq_nil_iff.1 h index,
            Sharded.readyTasks_eq_nil_of_route hall⟩
      | false =>
          rw [if_neg (by simp), route_eq_home hstealing hopen]
          simp only [List.mem_singleton, forall_eq]
          refine ⟨fun h s hget => ?_, fun h => ?_⟩
          · rw [hget] at h
            have hsound := Sharded.Sound.shard hs s (List.mem_of_getElem? hget)
            rw [← List.length_eq_zero_iff, ← hsound.size_eq]
            simpa using h
          · cases hget : q.shards[q.home worker]? with
            | none => rfl
            | some s =>
                have hsound := Sharded.Sound.shard hs s (List.mem_of_getElem? hget)
                simp [hsound.size_eq, h s hget]

/-! ## Calls -/

/-- An added task is one more to be announced, and is announced, unless all workers are called. -/
theorem Sound.push_announced (hs : s.Sound now) (t : Task β) :
    .all ∈ s.callsOfPush now t ∨
      (s.isShared = true ∧ s.callsOfPush now t = [.one]) ∧
        (s.push now t).announced.Perm (t :: s.announced) ∧ (s.push now t).deferred = s.deferred := by
  cases s with
  | locked q => exact .inr ⟨⟨rfl, rfl⟩, Locked.push_tasks t, rfl⟩
  | sharded q =>
      unfold callsOfPush
      by_cases ht : t.isReady now = true
      · have hadds := Sharded.Sound.pushReady hs ht
        have hpush : q.push now t = q.pushReady t := if_pos ht
        cases hstealing : q.stealing with
        | false =>
            left
            simp only [if_pos ht, show q.call = .all from if_neg (by simp [hstealing])]
            exact List.mem_cons_self
        | true =>
            right
            have hcall : q.call = .one := if_pos hstealing
            refine ⟨⟨hstealing, by simp only [if_pos ht, hcall]⟩, ?_, ?_⟩
            · show (q.push now t).readyTasks.Perm (t :: q.readyTasks)
              rw [hpush]
              exact hadds.readyTasks_perm
            · show (q.push now t).delayed = q.delayed
              rw [hpush]
              exact hadds.delayed_eq
      · left
        simp only [if_neg ht]
        exact List.mem_cons_self

/-- Whoever adds a task to a single backlog calls one worker, and so does a look that leaves one there. -/
theorem callsOfPush_of_linedUp {t : Task β} (h : (s.push now t).linedUp ≠ []) :
    s.callsOfPush now t = [.one] := by
  cases s with
  | locked q => rfl
  | sharded q => exact absurd rfl h

theorem Sound.callsOfLook_of_linedUp (hs : s.Sound now) (h : (s.attempt worker now).1.linedUp ≠ []) :
    s.callsOfLook now = [.one] := by
  have hkind := (hs.attempt worker).kind_eq
  cases s with
  | locked q =>
      have hready : (q.attempt now).1.ready ≠ [] := h
      exact if_neg (by simpa using hready)
  | sharded q => exact absurd (linedUp_of_sharded hkind) h

/-- An added task may be one more of those that all sleepers are told of. -/
theorem Sound.countP_deferred_push (hs : s.Sound now) (t : Task β) (f : Task β → Bool) :
    s.deferred.countP f ≤ (s.push now t).deferred.countP f := by
  cases s with
  | locked q => exact Nat.le_refl _
  | sharded q =>
      show q.delayed.countP f ≤ (q.push now t).delayed.countP f
      unfold Sharded.push
      split
      · rename_i ht
        rw [(Sharded.Sound.pushReady hs ht).delayed_eq]
      · have hinsert := (Task.insertBy_perm Task.isDueBefore t q.delayed).countP_eq f
        rw [List.countP_cons] at hinsert
        show q.delayed.countP f ≤ (t.insertDelayed q.delayed).countP f
        rw [Task.insertDelayed, hinsert]
        exact Nat.le_add_right _ _

/-- As long as waits are not to be given up, an attempt is one look. -/
theorem attempt_sharded_of_calm {q : Sharded β} (hs : q.Sound now) (hcalm : q.interrupted = false) :
    (sharded q).attempt worker now = (q.tryPop worker now).map sharded id := by
  rcases attempt_sharded_cases q worker now with heq | ⟨q', hfirst, hint, -⟩
  · exact heq
  · have hframe := (hs.tryPop worker).frame.interrupted_eq.trans hcalm
    rw [hfirst, hint] at hframe
    contradiction

/-- A look moves just the delayed tasks that are due away from those that all sleepers are told of. -/
theorem Sound.deferred_attempt (hs : s.Sound now) (hcalm : s.isInterrupted = false) :
    (s.attempt worker now).1.deferred = s.deferred.filter (!·.isReady now) := by
  cases s with
  | locked q => rfl
  | sharded q =>
      obtain ⟨-, -, hdelayed, -⟩ := Sharded.Sound.promote hs worker
      rw [attempt_sharded_of_calm hs hcalm]
      show (q.tryPop worker now).1.delayed = q.delayed.filter (!·.isReady now)
      exact (Sharded.popFirst_delayed _ _).trans hdelayed

/-- It announces each of these tasks. -/
theorem Sound.countP_deferred_le (hs : s.Sound now) (hshared : s.isShared = true)
    (hcalm : s.isInterrupted = false) :
    s.deferred.countP (·.isReady now) ≤ (s.callsOfLook now).count .one := by
  cases s with
  | locked q => exact Nat.zero_le _
  | sharded q =>
      have hopen : q.interrupted = false := hcalm
      have hcall : q.call = .one := if_pos hshared
      have hdue : (q.takeDue now).2 = q.delayed.filter (·.isReady now) :=
        (Task.takeWhile_isReady (Sharded.Sound.delayed_ordered hs) now).1
      show q.delayed.countP (·.isReady now) ≤ _
      unfold callsOfLook
      simp only [hopen, hcall, hdue]
      rw [if_neg (by simp), List.map_const', List.count_replicate_self, List.countP_eq_length_filter]

/-- A look leaves a home shard empty, unless it calls all workers. -/
theorem Sound.homeEmpty_attempt (hs : s.Sound now) (hshared : s.isShared = false)
    (hcalm : s.isInterrupted = false) {other : Nat} (h : s.HomeEmpty other) :
    .all ∈ s.callsOfLook now ∨ (s.attempt worker now).1.HomeEmpty other := by
  cases s with
  | locked q => contradiction
  | sharded q =>
      have hopen : q.interrupted = false := hcalm
      by_cases hdue : (q.takeDue now).2 = []
      · right
        have hempty := Sharded.popFirst_emptyAt h (q.route worker)
        have hlength := (Sharded.Sound.tryPop hs worker).frame.length_eq
        have hpop : q.tryPop worker now = q.popFirst (q.route worker) := by
          simp only [Sharded.tryPop, Sharded.promote_eq_self hopen hdue]
        rw [attempt_sharded_of_calm hs hopen]
        rw [hpop] at hlength ⊢
        show (q.popFirst (q.route worker)).1.EmptyAt ((q.popFirst (q.route worker)).1.home other)
        unfold Sharded.home
        rw [hlength]
        exact hempty
      · left
        have hcall : q.call = .all := if_neg (by simpa [isShared, shape] using hshared)
        obtain ⟨t, ht⟩ := List.exists_mem_of_ne_nil _ hdue
        simp only [callsOfLook, hopen, hcall]
        exact List.mem_map_of_mem ht

end Strategy

/-- An accepted task is added to the strategy. -/
theorem TaskQueue.push_strategy {q : TaskQueue β} {t : Task β} (h : (q.push now t).2 = .ok ()) :
    (q.push now t).1.strategy = q.strategy.push now t := by
  unfold TaskQueue.push at h ⊢
  split at h
  · contradiction
  · split at h
    · contradiction
    · rename_i hopen hroom
      rw [if_neg hopen, if_neg hroom]

/-- Adding a task does not change who may take ready tasks. -/
theorem TaskQueue.isShared_push {q : TaskQueue β} (hs : q.Sound now) (t : Task β) :
    (q.push now t).1.strategy.isShared = q.strategy.isShared := by
  unfold TaskQueue.push
  split
  · rfl
  · split
    · rfl
    · exact congrArg (Option.all Prod.snd) (hs.strategy.shape_push t)

end Dispatch
