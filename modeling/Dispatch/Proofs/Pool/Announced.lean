import Dispatch.Proofs.Pool.Idlers
/-!
# What is announced to sleepers

Whatever is done to the tasks of a pool, each task more that a sleeper could miss is announced by a call:
to one worker if all of them share the ready tasks, and else to all. A task in hand is announced when it is
put into a shard, and a task that an idle worker takes leaves one of both less.
-/

namespace Dispatch

variable {α : Type}

namespace Pool

variable {p q : Pool α} {index inHand : Nat}

/-! ## Whoever may use the queue -/

/-- Whether the queue of a pool is in order at the same instant as that of another one, and as open and of
the same kind. -/
structure Rearranges (p q : Pool α) : Prop where
  sound : q.queue.Sound q.clock
  manned : p.Manned → q.Manned
  clock_eq : q.clock = p.clock
  closed_eq : q.queue.closed = p.queue.closed
  isInterrupted_eq : q.queue.strategy.isInterrupted = p.queue.strategy.isInterrupted
  kind_eq : q.queue.kind = p.queue.kind

theorem Rearranges.refl (hs : p.queue.Sound p.clock) : p.Rearranges p :=
  ⟨hs, id, rfl, rfl, rfl, rfl⟩

/-- Changes that do not touch the tasks. -/
theorem Grows.rearranges (h : p.Grows q) (hsame : Undisturbed p q) : p.Rearranges q := by
  have hbare : q.queue.strategy.bare = p.queue.strategy.bare :=
    congrArg TaskQueue.strategy hsame.bare_eq
  have hclosed : q.queue.bare.closed = p.queue.bare.closed :=
    congrArg TaskQueue.closed hsame.bare_eq
  refine ⟨h.sound, fun hmanned => hmanned.grows h, hsame.clock_eq, hclosed, ?_, ?_⟩
  · rw [← Strategy.isInterrupted_bare, hbare, Strategy.isInterrupted_bare]
  · show q.queue.strategy.kind = p.queue.strategy.kind
    rw [← Strategy.kind_bare, hbare, Strategy.kind_bare]

theorem LookedAt.rearranges {s : Strategy (Job α)} (h : p.LookedAt index s q)
    (hint : s.isInterrupted = p.queue.strategy.isInterrupted) (hkind : s.kind = p.queue.kind) :
    p.Rearranges q := by
  obtain ⟨ts, hout⟩ := h.handsOut
  refine ⟨h.clock_eq ▸ hout.sound, fun hmanned => ?_, h.clock_eq, h.closed_eq, ?_, ?_⟩
  · exact ⟨hout.shaped hmanned.shaped,
      hout.shards_eq.trans (hmanned.shards_eq.trans h.length_eq.symm)⟩
  · rw [← Strategy.isInterrupted_bare, h.bare_eq, Strategy.isInterrupted_bare, hint]
  · show q.queue.strategy.kind = p.queue.kind
    rw [← Strategy.kind_bare, h.bare_eq, Strategy.kind_bare, hkind]

theorem rearranges_turnAt (hs : p.queue.Sound p.clock) (index : Nat) :
    p.Rearranges (p.turnAt index) := by
  cases hidle : (p.workers[index]?).any Worker.isIdle with
  | false =>
      obtain ⟨hqueue, -⟩ := turnAt_of_not_isIdle hs hidle
      have hundisturbed : Undisturbed p (p.turnAt index) :=
        ⟨clock_turnAt hs index, congrArg TaskQueue.bare hqueue⟩
      exact (carries_turnAt hs index).toGrows.rearranges hundisturbed
  | true =>
      obtain ⟨w, hw, hwidle⟩ := (Option.any_eq_true _ _).1 hidle
      obtain ⟨s, hsame, hbare, hlooked⟩ := lookedAt_turnAt hs hw hwidle
      have hyields := (hsame.sound _ hs.strategy).attempt index
      refine hlooked.rearranges (hyields.isInterrupted_eq.trans ?_) (hyields.kind_eq.trans hsame.kind_eq)
      rw [← Strategy.isInterrupted_bare, hbare, Strategy.isInterrupted_bare]

theorem rearranges_glanceAt (hs : p.queue.Sound p.clock) (index : Nat) :
    p.Rearranges (p.glanceAt index) := by
  rcases lookedAt_glanceAt hs index with heq | ⟨s, hsame, hbare, hlooked⟩
  · rw [heq]
    exact .refl hs
  · have hyields := (hsame.sound _ hs.strategy).glance index
    refine hlooked.rearranges (hyields.isInterrupted_eq.trans ?_) (hyields.kind_eq.trans hsame.kind_eq)
    rw [← Strategy.isInterrupted_bare, hbare, Strategy.isInterrupted_bare]

/-- The same tasks in other places. -/
theorem rearranges_withStrategy (hs : p.queue.Sound p.clock) {s s' : Sharded (Job α)}
    (hsharded : p.queue.strategy = .sharded s) (hsound : s'.Sound p.clock)
    (hperm : s.tasks.Perm s'.tasks) (hframe : Sharded.SameFrame s s') :
    p.Rearranges (p.withStrategy (.sharded s')) := by
  have hshape : (Strategy.sharded s').shape = p.queue.strategy.shape := by
    rw [hsharded]
    exact congrArg some (Prod.ext hframe.length_eq hframe.stealing_eq)
  have htasks : p.queue.tasks.Perm ([] ++ (Strategy.sharded s').tasks) := by
    rw [TaskQueue.tasks, hsharded]
    exact hperm
  have hout := hs.handsOut (s := .sharded s') hsound htasks hshape
  refine ⟨hout.sound, fun hmanned => ⟨hout.shaped hmanned.shaped, hmanned.shards_eq⟩, rfl, rfl, ?_, ?_⟩
  · rw [hsharded]
    exact hframe.interrupted_eq
  · show StrategyKind.sharded = p.queue.strategy.kind
    rw [hsharded]
    rfl

/-- A submission that is refused leaves the queue as it is. -/
theorem queue_submitAt_cases (p : Pool α) (readyAt : Instant) (s : Submission α) :
    (p.submitAt readyAt s).1.queue = p.queue ∨
      (∃ handle, (p.submitAt readyAt s).2 = .ok handle) ∧
        (p.queue.push p.clock (p.newTask readyAt s)).2 = .ok () ∧
        (p.submitAt readyAt s).1.queue = (p.queue.push p.clock (p.newTask readyAt s)).1 := by
  have hsubmits := submits_submitAt p readyAt s
  have hanswer : ∃ answer, (p.submitAt readyAt s).1.answers.head? = some (p.newTask readyAt s, answer) ∧
      (p.submitAt readyAt s).2 = answer.map fun _ => ⟨p.nextId, s.token, false⟩ :=
    ⟨_, rfl, rfl⟩
  obtain ⟨answer, hhead, heq⟩ := hanswer
  rw [heq]
  generalize (p.submitAt readyAt s).1 = q at hsubmits hhead
  cases hsubmits with
  | refused fault breaker log => exact .inl rfl
  | accepted breaker log hpush =>
      obtain rfl : Except.ok () = answer := congrArg Prod.snd (Option.some.inj hhead)
      exact .inr ⟨⟨_, rfl⟩, hpush, rfl⟩

theorem rearranges_submitAt (hs : p.queue.Sound p.clock) (readyAt : Instant) (s : Submission α) :
    p.Rearranges (p.submitAt readyAt s).1 := by
  have hsubmits := submits_submitAt p readyAt s
  have hgrows := hsubmits.grows hs
  obtain ⟨hint, hclosed⟩ := hsubmits.isInterrupted_eq
  refine ⟨hgrows.sound, fun hmanned => hmanned.grows hgrows, hsubmits.clock_eq, hclosed, hint, ?_⟩
  rcases queue_submitAt_cases p readyAt s with hqueue | ⟨-, hpush, hqueue⟩
  · rw [hqueue]
  · show (p.submitAt readyAt s).1.queue.strategy.kind = p.queue.strategy.kind
    rw [hqueue, TaskQueue.push_strategy hpush, Strategy.kind_push]

/-! ## Announcements -/

/-- Whether a change of a pool is announced: what a sleeper could miss after it, it could miss before, or
there is a call or one more idle worker for it. Before and after the change some of the delayed tasks are in
hand, which no sleeper needs to know of. -/
structure Announces (p : Pool α) (inHand : Nat) (calls : List Call) (q : Pool α) (inHand' : Nat) :
    Prop where
  isShared_eq : q.queue.strategy.isShared = p.queue.strategy.isShared
  countP_le : p.queue.strategy.isShared = true → ∀ f : Task (Job α) → Bool,
    (∀ t, t.isReady p.clock = true → f t = true) →
      q.queue.strategy.announced.countP f + p.idle ≤
        p.queue.strategy.announced.countP f + q.idle + calls.count .one
  deferred_subset : q.queue.strategy.deferred.drop inHand' ⊆ p.queue.strategy.deferred.drop inHand
  homeEmpty : p.queue.strategy.isShared = false → ∀ worker, p.queue.strategy.HomeEmpty worker →
    q.queue.strategy.HomeEmpty worker

/-- Where the queue stays the same, there is nothing to be announced. -/
theorem announces_of_queue_eq {inHand' : Nat} (hle : inHand ≤ inHand')
    (hqueue : q.queue.strategy.bare = p.queue.strategy.bare) (hidle : p.idle ≤ q.idle) :
    Announces p inHand [] q inHand' where
  isShared_eq := by rw [← Strategy.isShared_bare, hqueue, Strategy.isShared_bare]
  countP_le := fun _ f _ => by
    rw [← Strategy.announced_bare, hqueue, Strategy.announced_bare]
    omega
  deferred_subset := by
    rw [← Strategy.deferred_bare, hqueue, Strategy.deferred_bare]
    exact (List.drop_sublist_drop_left _ hle).subset
  homeEmpty := fun _ worker h => by
    rwa [← Strategy.homeEmpty_bare, hqueue, Strategy.homeEmpty_bare]

/-- A look announces each delayed task that it moves into a shard. -/
theorem LookedAt.announces {s : Strategy (Job α)} {calls : List Call} (h : p.LookedAt index s q)
    (hopen : p.queue.closed = false) (hshared : s.isShared = p.queue.strategy.isShared)
    (hcount : p.queue.strategy.isShared = true → ∀ f : Task (Job α) → Bool,
      p.queue.strategy.deferred.countP f ≤ s.deferred.countP f + calls.count .one)
    (hdeferred : s.deferred.drop inHand ⊆ p.queue.strategy.deferred.drop inHand)
    (hhome : p.queue.strategy.isShared = false → ∀ worker, p.queue.strategy.HomeEmpty worker →
      s.HomeEmpty worker) : Announces p inHand calls q inHand := by
  have hbare := h.bare_eq
  refine ⟨?_, fun hyes f hf => ?_, ?_, fun hno worker hempty => ?_⟩
  · rw [← hshared, ← Strategy.isShared_bare, hbare, Strategy.isShared_bare]
  · have htasks := h.countP_le hopen f hf
    have hmoved := hcount hyes f
    have heq : q.queue.strategy.deferred = s.deferred := by
      rw [← Strategy.deferred_bare, hbare, Strategy.deferred_bare]
    rw [TaskQueue.tasks, TaskQueue.tasks, Strategy.tasks_eq, Strategy.tasks_eq, List.countP_append,
      List.countP_append, heq] at htasks
    omega
  · rw [← Strategy.deferred_bare, hbare, Strategy.deferred_bare]
    exact hdeferred
  · rw [← Strategy.homeEmpty_bare, hbare, Strategy.homeEmpty_bare]
    exact hhome hno worker hempty

theorem announces_turnAt (hs : p.queue.Sound p.clock) (hopen : p.queue.closed = false)
    (hcalm : p.queue.strategy.isInterrupted = false)
    (hfree : (p.workers[index]?).any Worker.isIdle = true → inHand = 0) :
    .all ∈ p.callsOfTurn index ∨
      Announces p inHand (p.callsOfTurn index) (p.turnAt index) inHand := by
  unfold callsOfTurn
  cases hidle : (p.workers[index]?).any Worker.isIdle with
  | false =>
      obtain ⟨hqueue, hle⟩ := turnAt_of_not_isIdle hs hidle
      right
      rw [if_neg (by simp)]
      exact announces_of_queue_eq (Nat.le_refl _) (by rw [hqueue]) hle
  | true =>
      obtain rfl := hfree hidle
      obtain ⟨w, hw, hwidle⟩ := (Option.any_eq_true _ _).1 hidle
      obtain ⟨s, hsame, hbare, hlooked⟩ := lookedAt_turnAt hs hw hwidle
      have hsound := hsame.sound _ hs.strategy
      have hcalm' : s.isInterrupted = false := by
        rw [← Strategy.isInterrupted_bare, hbare, Strategy.isInterrupted_bare, hcalm]
      have hshared : s.isShared = p.queue.strategy.isShared := by
        rw [← Strategy.isShared_bare, hbare, Strategy.isShared_bare]
      have hcalls : s.callsOfLook p.clock = p.queue.strategy.callsOfLook p.clock := by
        rw [← Strategy.callsOfLook_bare, hbare, Strategy.callsOfLook_bare]
      have hdeferred : (s.attempt index p.clock).1.deferred =
          p.queue.strategy.deferred.filter (!·.isReady p.clock) := by
        rw [hsound.deferred_attempt hcalm', ← Strategy.deferred_bare, hbare, Strategy.deferred_bare]
      rw [if_pos rfl]
      by_cases hall : .all ∈ p.queue.strategy.callsOfLook p.clock
      · exact .inl hall
      · right
        refine hlooked.announces hopen ?_ (fun hyes f => ?_) ?_ fun hno worker hempty => ?_
        · rw [Strategy.isShared, (hsound.attempt index).shape_eq, ← Strategy.isShared, hshared]
        · have hone := hs.strategy.countP_deferred_le hyes hcalm
          have hsplit := List.countP_eq_countP_filter_add p.queue.strategy.deferred f
            (·.isReady p.clock)
          have hready : (p.queue.strategy.deferred.filter (·.isReady p.clock)).countP f ≤
              (p.queue.strategy.deferred.filter (·.isReady p.clock)).length := List.countP_le_length
          rw [← List.countP_eq_length_filter] at hready
          rw [hdeferred]
          omega
        · rw [hdeferred, List.drop_zero, List.drop_zero]
          exact List.filter_sublist.subset
        · rw [← hcalls] at hall
          refine (hsound.homeEmpty_attempt (hshared.trans hno) hcalm' ?_).resolve_left hall
          rwa [← Strategy.homeEmpty_bare, hbare, Strategy.homeEmpty_bare]

/-- Tasks are lined up at a single backlog after a turn if they were before it, or if a look has announced
them. -/
theorem linedUp_turnAt (hs : p.queue.Sound p.clock) (index : Nat)
    (hlined : (p.turnAt index).queue.strategy.linedUp ≠ []) :
    p.queue.strategy.linedUp ≠ [] ∧ p.idle ≤ (p.turnAt index).idle ∨
      (p.workers[index]?).any Worker.isIdle = true ∧
        p.idle ≤ (p.turnAt index).idle + (p.callsOfTurn index).count .one := by
  cases hidle : (p.workers[index]?).any Worker.isIdle with
  | false =>
      obtain ⟨hqueue, hle⟩ := turnAt_of_not_isIdle hs hidle
      rw [hqueue] at hlined
      exact .inl ⟨hlined, hle⟩
  | true =>
      right
      obtain ⟨w, hw, hwidle⟩ := (Option.any_eq_true _ _).1 hidle
      obtain ⟨s, hsame, hbare, hlooked⟩ := lookedAt_turnAt hs hw hwidle
      rw [← Strategy.linedUp_bare, hlooked.bare_eq, Strategy.linedUp_bare] at hlined
      have hcalls : p.callsOfTurn index = [.one] := by
        unfold callsOfTurn
        rw [if_pos hidle, ← Strategy.callsOfLook_bare, ← hbare, Strategy.callsOfLook_bare]
        exact (hsame.sound _ hs.strategy).callsOfLook_of_linedUp hlined
      rw [hcalls, List.count_singleton_self]
      exact ⟨rfl, hlooked.idle_le⟩

theorem announces_glanceAt (hs : p.queue.Sound p.clock) (hopen : p.queue.closed = false)
    (index : Nat) : Announces p inHand [] (p.glanceAt index) inHand := by
  rcases lookedAt_glanceAt hs index with heq | ⟨s, hsame, hbare, hlooked⟩
  · rw [heq]
    exact announces_of_queue_eq (Nat.le_refl _) rfl (Nat.le_refl _)
  · have hsound := hsame.sound _ hs.strategy
    have hdeferred : (s.glance index).1.deferred = p.queue.strategy.deferred := by
      rw [Strategy.deferred_glance, ← Strategy.deferred_bare, hbare, Strategy.deferred_bare]
    refine hlooked.announces hopen ?_ (fun _ f => ?_) ?_ fun _ worker hempty => ?_
    · rw [Strategy.isShared, (hsound.glance index).shape_eq, ← Strategy.isShared,
        ← Strategy.isShared_bare, hbare, Strategy.isShared_bare]
    · rw [hdeferred]
      exact Nat.le_add_right _ _
    · rw [hdeferred]
      exact List.Subset.refl _
    · apply hsound.homeEmpty_glance
      rwa [← Strategy.homeEmpty_bare, hbare, Strategy.homeEmpty_bare]

/-- A task in hand that is put into a shard is announced. -/
theorem announces_deal {s : Sharded (Job α)} {place : Nat} {t : Task (Job α)}
    (hsharded : p.queue.strategy = .sharded s) (hplace : place < inHand)
    (hdeals : Sharded.DealsOne p.clock place t s (s.deal place)) :
    .all = s.call ∨
      Announces p inHand [s.call] (p.withStrategy (.sharded (s.deal place))) (inHand - 1) := by
  cases hstealing : s.stealing with
  | false => exact .inl (if_neg (by simp [hstealing])).symm
  | true =>
      right
      have hcall : s.call = .one := if_pos hstealing
      refine ⟨?_, fun _ f _ => ?_, ?_, fun hno => ?_⟩
      · rw [hsharded]
        exact hdeals.frame.stealing_eq
      · have hperm := hdeals.readyTasks_perm.countP_eq f
        have hsingle : (if f t then 1 else 0) ≤ 1 := by split <;> omega
        rw [List.countP_cons] at hperm
        rw [hsharded, hcall]
        show (s.deal place).readyTasks.countP f + p.idle ≤ s.readyTasks.countP f + p.idle + 1
        omega
      · rw [hsharded]
        show (s.deal place).delayed.drop (inHand - 1) ⊆ s.delayed.drop inHand
        rw [hdeals.drop_delayed hplace]
        exact List.Subset.refl _
      · rw [hsharded, Strategy.isShared, Strategy.shape, hstealing] at hno
        contradiction

theorem linedUp_submitAt (p : Pool α) (readyAt : Instant) (s : Submission α)
    (hlined : (p.submitAt readyAt s).1.queue.strategy.linedUp ≠ []) :
    p.queue.strategy.linedUp ≠ [] ∨ p.callsOfSubmit readyAt s = [.one] := by
  rcases queue_submitAt_cases p readyAt s with hqueue | ⟨⟨handle, hok⟩, hpush, hqueue⟩
  · rw [hqueue] at hlined
    exact .inl hlined
  · right
    rw [hqueue, TaskQueue.push_strategy hpush] at hlined
    unfold callsOfSubmit
    rw [hok]
    exact Strategy.callsOfPush_of_linedUp hlined

theorem idle_submitAt (p : Pool α) (readyAt : Instant) (s : Submission α) :
    (p.submitAt readyAt s).1.idle = p.idle :=
  congrArg (List.countP Worker.isIdle) (submits_submitAt p readyAt s).workers_eq

/-- It is of no account which shard the next task is to go to. -/
theorem announces_passTo {s : Sharded (Job α)} (hsharded : p.queue.strategy = .sharded s)
    (cursor : Nat) : Announces p inHand [] (p.withStrategy (.sharded (s.passTo cursor))) inHand := by
  refine ⟨?_, fun _ f _ => ?_, ?_, fun _ worker hempty => ?_⟩
  · rw [hsharded]
    rfl
  · rw [hsharded]
    exact Nat.le_refl _
  · rw [hsharded]
    exact List.Subset.refl _
  · rw [hsharded] at hempty
    exact hempty

theorem announces_submitAt (hs : p.queue.Sound p.clock) (readyAt : Instant) (s : Submission α) :
    .all ∈ p.callsOfSubmit readyAt s ∨
      Announces p inHand (p.callsOfSubmit readyAt s) (p.submitAt readyAt s).1 inHand := by
  have hidle := idle_submitAt p readyAt s
  rcases queue_submitAt_cases p readyAt s with hqueue | ⟨⟨handle, hok⟩, hpush, hqueue⟩
  · right
    have hnone := announces_of_queue_eq (Nat.le_refl inHand)
      (congrArg (fun q => q.strategy.bare) hqueue) (Nat.le_of_eq hidle.symm)
    refine { hnone with countP_le := fun hyes f hf => ?_ }
    exact Nat.le_trans (hnone.countP_le hyes f hf) (Nat.le_add_right _ _)
  · have hcalls : p.callsOfSubmit readyAt s =
        p.queue.strategy.callsOfPush p.clock (p.newTask readyAt s) := by
      unfold callsOfSubmit
      rw [hok]
    rw [hcalls]
    generalize p.newTask readyAt s = t at hpush hqueue
    have hstrategy : (p.submitAt readyAt s).1.queue.strategy = p.queue.strategy.push p.clock t := by
      rw [hqueue, TaskQueue.push_strategy hpush]
    refine (hs.strategy.push_announced t).imp_right fun ⟨⟨hyes, hone⟩, hperm, hdeferred⟩ => ?_
    refine ⟨?_, fun _ f _ => ?_, ?_, fun hno => ?_⟩
    · rw [hqueue]
      exact TaskQueue.isShared_push hs t
    · have hcount := hperm.countP_eq f
      have hsingle : (if f t then 1 else 0) ≤ 1 := by split <;> omega
      rw [List.countP_cons] at hcount
      rw [hstrategy, hidle, hone, List.count_singleton_self]
      omega
    · rw [hstrategy, hdeferred]
      exact List.Subset.refl _
    · rw [hyes] at hno
      contradiction

end Pool

end Dispatch
