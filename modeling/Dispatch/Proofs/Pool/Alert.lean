import Dispatch.Proofs.Pool.Announced
/-!
# No task is overslept

Whatever the order of pushes, looks, calls and exchanges of the strategy, somebody sees to each task that
a sleeper would miss. Beside shards all sleepers know of all delayed tasks, and for each ready task there is
a worker that is up or a call on its way, whomever the call reaches; where workers take from their own shards
only, all of them are called instead. In a single backlog, where one worker is told of a delayed task, a
sleeper that fell asleep later can see to it as well. Those that are called first must know least then, so
that this remains so when a call arrives.
-/

namespace Dispatch

variable {α : Type}

namespace Crew

open Pool

variable {lock : List Sleeper → Nat → Prop} {c c' : Crew α} {x : Sleeper} {place : Nat}

/-- How many of some sleepers may be called before the one at a place: those in front of it at a single
backlog, whose lock is to keep them in a queue, and all others beside shards. -/
def before (kind : StrategyKind) (count place : Nat) : Nat :=
  match kind with
  | .locked => place
  | .sharded => count - 1

/-- All others may be called before the one that fell asleep last. -/
theorem before_last (kind : StrategyKind) (count : Nat) : before kind (count + 1) count = count := by
  cases kind <;> rfl

/-- Whether a sleeper at a place can rely on others. Where the ready tasks are shared, the workers that
are up, the calls on their way and the sleepers that are called later outnumber the tasks that it
oversleeps. -/
structure Covers (c : Crew α) (place : Nat) (x : Sleeper) : Prop where
  countP_lt : c.pool.queue.strategy.isShared = true →
    c.pool.queue.strategy.announced.countP x.oversleeps +
        before c.pool.queue.kind c.sleepers.length place <
      c.pool.idle + c.calls.count .one
  homeEmpty : c.pool.queue.strategy.isShared = false → c.pool.queue.strategy.HomeEmpty x.index

/-- Whether no task can be overslept for good. -/
structure Alert (lock : List Sleeper → Nat → Prop) (c : Crew α) : Prop where
  sound : c.pool.queue.Sound c.pool.clock
  manned : c.pool.Manned
  interrupted_of_closed : c.pool.queue.closed = true → c.pool.queue.strategy.isInterrupted = true
  indices_nodup : (c.sleepers.map Sleeper.index).Nodup
  waiting : ∀ x ∈ c.sleepers, c.pool.workers[x.index]? = some .waiting
  /-- When waits are to be given up, all sleepers are called. -/
  called : c.pool.queue.strategy.isInterrupted = true → c.sleepers = [] ∨ .all ∈ c.calls
  /-- The tasks in hand are due. -/
  inHand_le : c.inHand ≤ c.pool.queue.strategy.deferred.countP (·.isReady c.pool.clock)
  /-- All sleepers know of the delayed tasks that they are told of. -/
  told : .all ∉ c.calls → ∀ x ∈ c.sleepers, ∀ t ∈ c.pool.queue.strategy.deferred.drop c.inHand,
    x.oversleeps t = false
  /-- For tasks that are lined up at a single backlog there is a worker that is up, or a call. -/
  attended : c.pool.queue.strategy.linedUp ≠ [] → .all ∉ c.calls → c.sleepers ≠ [] →
    c.sleepers.length < c.pool.idle + c.calls.count .one
  covers : (c.pool.queue.kind = .locked → KeepsQueue lock) → .all ∉ c.calls →
    ∀ (place : Nat) (x : Sleeper), c.sleepers[place]? = some x → x.SleepsBeyond c.pool.clock →
      c.Covers place x

/-- Nobody sleeps for good when all are called. -/
theorem Alert.of_all_mem (hsound : c.pool.queue.Sound c.pool.clock) (hmanned : c.pool.Manned)
    (hclosed : c.pool.queue.closed = true → c.pool.queue.strategy.isInterrupted = true)
    (hnodup : (c.sleepers.map Sleeper.index).Nodup)
    (hwaiting : ∀ x ∈ c.sleepers, c.pool.workers[x.index]? = some .waiting)
    (hinHand : c.inHand ≤ c.pool.queue.strategy.deferred.countP (·.isReady c.pool.clock))
    (hall : c.sleepers = [] ∨ .all ∈ c.calls) : c.Alert lock where
  sound := hsound
  manned := hmanned
  interrupted_of_closed := hclosed
  indices_nodup := hnodup
  waiting := hwaiting
  called := fun _ => hall
  inHand_le := hinHand
  told := fun hnot x hx => by
    rcases hall with hnil | hall
    · rw [hnil] at hx
      contradiction
    · exact absurd hall hnot
  attended := fun _ hnot hne => by
    rcases hall with hnil | hall
    · exact absurd hnil hne
    · exact absurd hall hnot
  covers := fun _ hnot place x hx _ => by
    rcases hall with hnil | hall
    · simp [hnil] at hx
    · exact absurd hall hnot

theorem alert_of_up {p : Pool α} (hsound : p.queue.Sound p.clock) (hmanned : p.Manned)
    (hclosed : p.queue.closed = true → p.queue.strategy.isInterrupted = true) :
    (up p).Alert lock :=
  .of_all_mem hsound hmanned hclosed List.nodup_nil (fun _ hx => absurd hx List.not_mem_nil)
    (Nat.zero_le _) (.inl rfl)

/-- A sleeper of an alert crew that nobody is called on behalf of is not to give up its wait. -/
theorem Alert.calm (h : c.Alert lock) (hne : c.sleepers ≠ []) (hnot : .all ∉ c.calls) :
    c.pool.queue.strategy.isInterrupted = false := by
  by_contra hint
  rcases h.called (by simpa using hint) with hnil | hall
  · exact hne hnil
  · exact hnot hall

theorem Alert.open_of_calm (h : c.Alert lock)
    (hcalm : c.pool.queue.strategy.isInterrupted = false) : c.pool.queue.closed = false := by
  by_contra hclosed
  rw [h.interrupted_of_closed (by simpa using hclosed)] at hcalm
  contradiction

/-! ## Changes of the pool -/

/-- A change leaves a crew alert if it touches no sleeper and is announced, as long as waits are not to be
given up. -/
theorem Alert.of_announces (h : c.Alert lock) {q : Pool α} {calls : List Call} {inHand : Nat}
    (hsame : c.pool.Rearranges q)
    (hworkers : ∀ index, ¬c.IsUp index → q.workers[index]? = c.pool.workers[index]?)
    (hinHand : inHand ≤ q.queue.strategy.deferred.countP (·.isReady q.clock))
    (hattended : q.queue.strategy.linedUp ≠ [] →
      c.pool.queue.strategy.linedUp ≠ [] ∧ c.pool.idle ≤ q.idle + calls.count .one ∨
        c.sleepers.length < q.idle + calls.count .one)
    (hannounces : c.pool.queue.strategy.isInterrupted = false → .all ∈ calls ∨
      Announces c.pool c.inHand calls q inHand) :
    Alert lock { c with pool := q, calls := c.calls ++ calls, inHand := inHand } := by
  have hmissed : .all ∉ c.calls ++ calls → ∀ x ∈ c.sleepers,
      .all ∉ c.calls ∧ Announces c.pool c.inHand calls q inHand := fun hnot x hx => by
    obtain ⟨hnot, hnone⟩ := not_or.1 (List.mem_append.not.1 hnot)
    exact ⟨hnot, (hannounces (h.calm (List.ne_nil_of_mem hx) hnot)).resolve_left hnone⟩
  refine ⟨hsame.sound, hsame.manned h.manned, fun hclosed => ?_, h.indices_nodup, fun x hx => ?_,
    fun hint => ?_, hinHand, fun hnot x hx t ht => ?_, fun hlined hnot hne => ?_,
    fun hkind hnot place x hx hbeyond => ?_⟩
  · exact hsame.isInterrupted_eq.trans (h.interrupted_of_closed (hsame.closed_eq.symm.trans hclosed))
  · exact (hworkers x.index fun hup => hup (List.mem_map_of_mem hx)).trans (h.waiting x hx)
  · exact (h.called (hsame.isInterrupted_eq.symm.trans hint)).imp_right (List.mem_append_left _)
  · obtain ⟨hnot, hannounced⟩ := hmissed hnot x hx
    exact h.told hnot x hx t (hannounced.deferred_subset ht)
  · show c.sleepers.length < q.idle + (c.calls ++ calls).count .one
    rw [List.count_append]
    rcases hattended hlined with ⟨hbefore, hle⟩ | hlt
    · have hlt := h.attended hbefore (fun hall => hnot (List.mem_append_left _ hall)) hne
      omega
    · omega
  · obtain ⟨hnot, hannounced⟩ := hmissed hnot x (List.mem_of_getElem? hx)
    rw [hsame.kind_eq] at hkind
    rw [hsame.clock_eq] at hbeyond
    have hcovers := h.covers hkind hnot place x hx hbeyond
    refine ⟨fun hshared => ?_, fun hshared => ?_⟩
    · rw [hannounced.isShared_eq] at hshared
      have hlt := hcovers.countP_lt hshared
      have hcount := hannounced.countP_le hshared x.oversleeps fun _ =>
        Sleeper.oversleeps_of_isReady hbeyond
      show q.queue.strategy.announced.countP x.oversleeps + before q.queue.kind c.sleepers.length place <
        q.idle + (c.calls ++ calls).count .one
      rw [hsame.kind_eq, List.count_append]
      omega
    · rw [hannounced.isShared_eq] at hshared
      exact hannounced.homeEmpty hshared x.index (hcovers.homeEmpty hshared)

/-- The same for changes that nobody is called for. -/
theorem Alert.of_announces_nil (h : c.Alert lock) {q : Pool α} {inHand : Nat}
    (hsame : c.pool.Rearranges q)
    (hworkers : ∀ index, ¬c.IsUp index → q.workers[index]? = c.pool.workers[index]?)
    (hinHand : inHand ≤ q.queue.strategy.deferred.countP (·.isReady q.clock))
    (hattended : q.queue.strategy.linedUp ≠ [] →
      c.pool.queue.strategy.linedUp ≠ [] ∧ c.pool.idle ≤ q.idle)
    (hannounces : c.pool.queue.strategy.isInterrupted = false →
      Announces c.pool c.inHand [] q inHand) :
    Alert lock { c with pool := q, inHand := inHand } := by
  have hafter := h.of_announces hsame hworkers hinHand
    (fun hlined => .inl ((hattended hlined).imp_right Nat.le_add_right_of_le))
    fun hcalm => .inr (hannounces hcalm)
  rwa [List.append_nil] at hafter

/-- Sleepers are idle. -/
theorem Alert.length_le_idle (h : c.Alert lock) : c.sleepers.length ≤ c.pool.idle := by
  rw [← List.length_map Sleeper.index]
  refine length_le_countP h.indices_nodup fun index hindex => ?_
  obtain ⟨x, hx, rfl⟩ := List.mem_map.1 hindex
  exact ⟨_, h.waiting x hx, rfl⟩

/-- There are fewer sleepers than idle workers if one of these is up. -/
theorem Alert.length_lt_idle (h : c.Alert lock) {index : Nat} (hup : c.IsUp index)
    (hidle : (c.pool.workers[index]?).any Worker.isIdle = true) : c.sleepers.length < c.pool.idle := by
  have hnodup : (index :: c.sleepers.map Sleeper.index).Nodup :=
    List.nodup_cons.2 ⟨hup, h.indices_nodup⟩
  have hle : (index :: c.sleepers.map Sleeper.index).length ≤ c.pool.workers.countP Worker.isIdle := by
    refine length_le_countP hnodup fun other hother => ?_
    rcases List.mem_cons.1 hother with rfl | hother
    · exact (Option.any_eq_true _ _).1 hidle
    · obtain ⟨x, hx, rfl⟩ := List.mem_map.1 hother
      exact ⟨_, h.waiting x hx, rfl⟩
  rw [List.length_cons, List.length_map] at hle
  exact hle

/-! ## Steps -/

theorem Alert.turn (h : c.Alert lock) {index : Nat} (hup : c.IsUp index)
    (hfree : (c.pool.workers[index]?).any Worker.isIdle = true → c.inHand = 0) :
    Alert lock
      { c with pool := c.pool.turnAt index, calls := c.calls ++ c.pool.callsOfTurn index } := by
  refine h.of_announces (rearranges_turnAt h.sound index) (fun other hasleep => ?_) ?_ (fun hlined => ?_)
    fun hcalm => announces_turnAt h.sound (h.open_of_calm hcalm) hcalm hfree
  · exact workers_turnAt_ne h.sound fun heq => hasleep (heq ▸ hup)
  · cases hidle : (c.pool.workers[index]?).any Worker.isIdle with
    | false =>
        rw [clock_turnAt h.sound, (turnAt_of_not_isIdle h.sound hidle).1]
        exact h.inHand_le
    | true =>
        rw [hfree hidle]
        exact Nat.zero_le _
  · rcases linedUp_turnAt h.sound index hlined with ⟨hbefore, hle⟩ | ⟨hidle, hle⟩
    · exact .inl ⟨hbefore, Nat.le_add_right_of_le hle⟩
    · exact .inr (Nat.lt_of_lt_of_le (h.length_lt_idle hup hidle) hle)

/-- What holds of shards, with some of the delayed tasks in hand. -/
theorem Alert.of_sharded (h : c.Alert lock) {q : Sharded (Job α)}
    (hsharded : c.pool.queue.strategy = .sharded q) :
    q.Sound c.pool.clock ∧ c.inHand ≤ q.delayed.countP (·.isReady c.pool.clock) := by
  have hs := h.sound.strategy
  have hle := h.inHand_le
  rw [hsharded] at hs hle
  exact ⟨hs, hle⟩

/-- The tasks that are taken in hand stay among the delayed ones. -/
theorem Alert.takeDue (h : c.Alert lock) {q : Sharded (Job α)}
    (hsharded : c.pool.queue.strategy = .sharded q) :
    Alert lock { c with inHand := (q.takeDue c.pool.clock).2.length } := by
  obtain ⟨hs, hle⟩ := h.of_sharded hsharded
  have hlength : (q.takeDue c.pool.clock).2.length = q.delayed.countP (·.isReady c.pool.clock) := by
    rw [List.countP_eq_length_filter]
    exact congrArg List.length (Task.takeWhile_isReady hs.delayed_ordered c.pool.clock).1
  refine h.of_announces_nil (.refl h.sound) (fun _ _ => rfl) ?_ (fun hlined => ⟨hlined, Nat.le_refl _⟩)
    fun _ => announces_of_queue_eq (hlength ▸ hle) rfl (Nat.le_refl _)
  rw [hsharded]
  exact Nat.le_of_eq hlength

theorem Alert.deal (h : c.Alert lock) {q : Sharded (Job α)} {calls : List Call}
    (hsharded : c.pool.queue.strategy = .sharded q) (hplace : place < c.inHand)
    (hcalls : calls = [q.call] ∨ q.interrupted = true ∧ calls = []) :
    Alert lock { c with
      pool := c.pool.withStrategy (.sharded (q.deal place))
      calls := c.calls ++ calls
      inHand := c.inHand - 1 } := by
  obtain ⟨hs, hle⟩ := h.of_sharded hsharded
  have hlt : place < q.delayed.length :=
    Nat.lt_of_lt_of_le hplace (Nat.le_trans hle List.countP_le_length)
  have hget : q.delayed[place]? = some q.delayed[place] := List.getElem?_eq_getElem hlt
  have hready := hs.isReady_of_lt hget (Nat.lt_of_lt_of_le hplace hle)
  have hdeals := hs.deal hget hready
  refine h.of_announces (rearranges_withStrategy h.sound hsharded hdeals.sound hdeals.tasks_perm
    hdeals.frame) (fun _ _ => rfl) ?_ (fun hlined => absurd rfl hlined) fun hcalm => ?_
  · have hcount := hdeals.delayed_perm.countP_eq (·.isReady c.pool.clock)
    rw [List.countP_cons, if_pos hready] at hcount
    show c.inHand - 1 ≤ (q.deal place).delayed.countP (·.isReady c.pool.clock)
    omega
  · rcases hcalls with rfl | ⟨hint, -⟩
    · exact (announces_deal hsharded hplace hdeals).imp_left List.mem_singleton.2
    · rw [hsharded] at hcalm
      exact absurd (hint.symm.trans hcalm) (by simp)

theorem Alert.glance (h : c.Alert lock) {index : Nat} (hup : c.IsUp index)
    (hkind : c.pool.queue.kind = .sharded) :
    Alert lock { c with pool := c.pool.glanceAt index } := by
  have hsame := rearranges_glanceAt h.sound index
  refine h.of_announces_nil hsame (fun other hasleep => ?_) ?_ (fun hlined => ?_) fun hcalm =>
    announces_glanceAt h.sound (h.open_of_calm hcalm) index
  · exact workers_glanceAt_ne h.sound fun heq => hasleep (heq ▸ hup)
  · rw [hsame.clock_eq, deferred_glanceAt h.sound]
    exact h.inHand_le
  · exact absurd (Strategy.linedUp_of_sharded (hsame.kind_eq.trans hkind)) hlined

theorem Alert.passTo (h : c.Alert lock) {q : Sharded (Job α)} (cursor : Nat)
    (hsharded : c.pool.queue.strategy = .sharded q) :
    Alert lock { c with pool := c.pool.withStrategy (.sharded (q.passTo cursor)) } := by
  obtain ⟨hs, hle⟩ := h.of_sharded hsharded
  exact h.of_announces_nil (rearranges_withStrategy h.sound hsharded (hs.passTo cursor)
    (List.Perm.refl _) ⟨rfl, rfl, rfl⟩) (fun _ _ => rfl) hle (fun hlined => absurd rfl hlined)
    fun _ => announces_passTo hsharded cursor

theorem Alert.submitAt (h : c.Alert lock) (readyAt : Instant) (s : Submission α) :
    Alert lock { c with
      pool := (c.pool.submitAt readyAt s).1
      calls := c.calls ++ c.pool.callsOfSubmit readyAt s } := by
  have hsame := rearranges_submitAt h.sound readyAt s
  refine h.of_announces hsame (fun index _ => ?_) ?_ (fun hlined => ?_)
    fun _ => announces_submitAt h.sound readyAt s
  · rw [(submits_submitAt c.pool readyAt s).workers_eq]
  · rw [hsame.clock_eq]
    rcases queue_submitAt_cases c.pool readyAt s with hqueue | ⟨-, hpush, hqueue⟩
    · rw [hqueue]
      exact h.inHand_le
    · rw [hqueue, TaskQueue.push_strategy hpush]
      exact Nat.le_trans h.inHand_le (h.sound.strategy.countP_deferred_push _ _)
  · rw [idle_submitAt]
    rcases linedUp_submitAt c.pool readyAt s hlined with hbefore | hcalls
    · exact .inl ⟨hbefore, Nat.le_add_right _ _⟩
    · rw [hcalls, List.count_singleton_self]
      exact .inr (Nat.lt_succ_of_le h.length_le_idle)

theorem Alert.aside (h : c.Alert lock) {q : Pool α} (hstep : Pool.Step c.pool q)
    (hworkers : q.workers = c.pool.workers) (hundisturbed : Undisturbed c.pool q) :
    Alert lock { c with pool := q } := by
  have hbare : q.queue.strategy.bare = c.pool.queue.strategy.bare :=
    congrArg TaskQueue.strategy hundisturbed.bare_eq
  have hidle : c.pool.idle ≤ q.idle := by
    rw [Pool.idle, Pool.idle, hworkers]
  refine h.of_announces_nil ((hstep.grows h.sound).rearranges hundisturbed) (fun _ _ => by rw [hworkers])
    ?_ (fun hlined => ⟨?_, hidle⟩) fun _ => announces_of_queue_eq (Nat.le_refl _) hbare hidle
  · rw [← Strategy.deferred_bare, hbare, Strategy.deferred_bare, hundisturbed.clock_eq]
    exact h.inHand_le
  · rwa [← Strategy.linedUp_bare, hbare, Strategy.linedUp_bare] at hlined

/-- Where the queue is drained, nothing is left to be overslept. -/
theorem Alert.strand (h : c.Alert lock) (hfree : c.inHand = 0) :
    Alert lock { c with
      pool := { c.pool with queue := c.pool.queue.drain.1, joined := true }.cancelRemoved
        c.pool.queue.drain.2 } := by
  have hgrows := (Pool.Step.strand c.pool).grows h.sound
  obtain ⟨-, hnil, -⟩ := h.sound.drain
  obtain ⟨hannounced, hdeferred⟩ := Strategy.tasks_eq_nil_iff.1 hnil
  refine h.of_announces_nil ⟨hgrows.sound, fun hmanned => hmanned.grows hgrows, ?_, ?_, ?_, ?_⟩
    (fun _ _ => ?_) ?_ (fun hlined => absurd ?_ hlined)
    fun _ => ⟨?_, fun _ f _ => ?_, ?_, fun _ worker _ => ?_⟩
  · rw [cancelRemoved_clock]
  · rw [cancelRemoved_queue]
    rfl
  · rw [cancelRemoved_queue]
    exact Strategy.isInterrupted_drain _
  · rw [cancelRemoved_queue]
    exact Strategy.kind_drain _
  · rw [cancelRemoved_workers]
  · rw [hfree]
    exact Nat.zero_le _
  · rw [cancelRemoved_queue]
    exact Strategy.linedUp_of_announced_eq_nil hannounced
  · rw [cancelRemoved_queue]
    exact congrArg (Option.all Prod.snd) (Strategy.shape_drain _)
  · rw [cancelRemoved_queue, hannounced, Pool.idle, Pool.idle, cancelRemoved_workers, List.countP_nil,
      Nat.zero_add]
    exact Nat.le_add_left _ _
  · rw [cancelRemoved_queue, hdeferred, List.drop_nil]
    exact List.nil_subset _
  · rw [cancelRemoved_queue]
    exact Strategy.homeEmpty_of_announced_eq_nil hannounced

/-- A sleeper can rely on others as before when one more worker falls asleep, since nothing is left in any
shard then. -/
theorem Covers.concat (h : c.Covers place x) (y : Sleeper) (hlt : c.sleepers.length < c.pool.idle)
    (hempty : c.pool.queue.kind = .sharded → c.pool.queue.strategy.isShared = true →
      c.pool.queue.strategy.announced = []) :
    Covers { c with sleepers := c.sleepers ++ [y] } place x := by
  refine ⟨fun hshared => ?_, h.homeEmpty⟩
  have hold := h.countP_lt hshared
  show c.pool.queue.strategy.announced.countP x.oversleeps +
    before c.pool.queue.kind (c.sleepers ++ [y]).length place < c.pool.idle + c.calls.count .one
  rw [List.length_append, List.length_singleton]
  cases hkind : c.pool.queue.kind with
  | locked =>
      rw [hkind] at hold
      exact hold
  | sharded =>
      rw [hempty hkind hshared, List.countP_nil]
      show 0 + (c.sleepers.length + 1 - 1) < c.pool.idle + c.calls.count .one
      omega

/-- The worker that has fallen asleep last can rely on the others, if it misses nothing. -/
theorem covers_last (hspares : c.seen.Spares x) (hlt : c.sleepers.length < c.pool.idle) :
    Covers { c with sleepers := c.sleepers ++ [x] } c.sleepers.length x := by
  have hisShared : c.seen.isShared = c.pool.queue.strategy.isShared := Strategy.isShared_without _
  refine ⟨fun hshared => ?_, fun hshared => ?_⟩
  · have hannounced := hspares.announced (hisShared.trans hshared)
    rw [seen, Strategy.announced_without] at hannounced
    have hzero : c.pool.queue.strategy.announced.countP x.oversleeps = 0 :=
      List.countP_eq_zero.2 fun t ht => by simp [hannounced t ht]
    show c.pool.queue.strategy.announced.countP x.oversleeps +
      before c.pool.queue.kind (c.sleepers ++ [x]).length c.sleepers.length <
        c.pool.idle + c.calls.count .one
    rw [hzero, List.length_append, List.length_singleton, before_last]
    omega
  · exact Strategy.homeEmpty_without.1 (hspares.homeEmpty (hisShared.trans hshared))

theorem Alert.fallAsleep (h : c.Alert lock) {index : Nat} (hup : c.IsUp index)
    (hwaiting : c.pool.workers[index]? = some .waiting)
    (hcalm : c.pool.queue.strategy.isInterrupted = false)
    (hwork : c.seen.hasWorkFor index c.pool.clock = false) :
    Alert lock { c with sleepers := c.sleepers ++ [⟨index, c.seen.nextReadyAt⟩] } := by
  have hseen : c.seen.Sound c.pool.clock := h.sound.strategy.without c.inHand
  have hnone := (hseen.hasWorkFor_eq_false_iff ((Strategy.isInterrupted_without _).trans hcalm)).1 hwork
  have hspares := hnone.spares hseen
  have hlt := h.length_lt_idle hup (by rw [hwaiting]; rfl)
  refine ⟨h.sound, h.manned, h.interrupted_of_closed, ?_, fun x hx => ?_, fun hint => ?_, h.inHand_le,
    fun hnot x hx t ht => ?_, fun hlined => absurd ?_ hlined, fun hcase hnot place x hx hbeyond => ?_⟩
  · rw [List.map_append]
    exact h.indices_nodup.append (List.nodup_singleton _) (List.disjoint_singleton.2 hup)
  · rcases List.mem_append.1 hx with hx | hx
    · exact h.waiting x hx
    · rw [List.mem_singleton.1 hx]
      exact hwaiting
  · rw [hcalm] at hint
    contradiction
  · rcases List.mem_append.1 hx with hx | hx
    · exact h.told hnot x hx t ht
    · rw [List.mem_singleton.1 hx]
      apply hspares.deferred
      rwa [seen, Strategy.deferred_without]
  · rw [← Strategy.linedUp_without (c.pool.queue.strategy)]
    exact Strategy.linedUp_of_hasWorkFor hwork
  · by_cases hplace : place < c.sleepers.length
    · rw [List.getElem?_append_left hplace] at hx
      refine (h.covers hcase hnot place x hx hbeyond).concat _ hlt fun hkind hshared => ?_
      have hempty : c.seen.announced = [] := hnone.announced_eq_nil
        ((Strategy.kind_without _).trans hkind) ((Strategy.isShared_without _).trans hshared)
      rwa [seen, Strategy.announced_without] at hempty
    · -- the new sleeper stands behind all others
      have hle := (List.getElem?_eq_some_iff.1 hx).1
      rw [List.length_append, List.length_singleton] at hle
      obtain rfl : place = c.sleepers.length := by omega
      rw [List.getElem?_concat_length] at hx
      obtain rfl := Option.some.inj hx
      exact covers_last hspares hlt

/-- Where a sleeper is gone, those behind it move up, and fewer may be called before the others. -/
theorem before_eraseIdx (kind : StrategyKind) {sleepers : List Sleeper} {other : Nat}
    (hx : (sleepers.eraseIdx place)[other]? = some x) :
    ∃ old, sleepers[old]? = some x ∧
      before kind (sleepers.eraseIdx place).length other ≤ before kind sleepers.length old ∧
      (place < sleepers.length → (kind = .locked → place = 0) →
        before kind (sleepers.eraseIdx place).length other < before kind sleepers.length old) := by
  rw [List.getElem?_eraseIdx] at hx
  rw [List.length_eraseIdx]
  split at hx
  · have hlt := (List.getElem?_eq_some_iff.1 hx).1
    refine ⟨other, hx, ?_, fun hplace hcase => ?_⟩
    · cases kind with
      | locked => exact Nat.le_refl _
      | sharded =>
          show (if _ then _ else _) - 1 ≤ sleepers.length - 1
          split <;> omega
    · rw [if_pos hplace]
      cases kind with
      | locked =>
          have hzero : place = 0 := hcase rfl
          omega
      | sharded =>
          show sleepers.length - 1 - 1 < sleepers.length - 1
          omega
  · have hlt := (List.getElem?_eq_some_iff.1 hx).1
    rw [if_pos (by omega)]
    refine ⟨other + 1, hx, ?_, fun _ _ => ?_⟩
    · cases kind with
      | locked => exact Nat.le_add_right _ _
      | sharded => exact Nat.sub_le _ _
    · cases kind with
      | locked => exact Nat.lt_add_one _
      | sharded =>
          show sleepers.length - 1 - 1 < sleepers.length - 1
          omega

/-- A sleeper less leaves a crew alert, also if a call is used up for it. -/
theorem Alert.of_eraseIdx (h : c.Alert lock) (place : Nat) {calls : List Call}
    (hall : .all ∈ calls ↔ .all ∈ c.calls)
    (hone : c.calls.count .one ≤ calls.count .one ∨
      place < c.sleepers.length ∧ lock c.sleepers place ∧
        c.calls.count .one ≤ calls.count .one + 1) :
    Alert lock { c with sleepers := c.sleepers.eraseIdx place, calls := calls } := by
  have hsub : (c.sleepers.eraseIdx place).Sublist c.sleepers := List.eraseIdx_sublist _ _
  refine ⟨h.sound, h.manned, h.interrupted_of_closed, h.indices_nodup.sublist (hsub.map _),
    fun x hx => h.waiting x (hsub.mem hx), fun hint => ?_, h.inHand_le,
    fun hnot x hx => h.told (hall.not.1 hnot) x (hsub.mem hx), fun hlined hnot hne => ?_,
    fun hcase hnot other x hx hbeyond => ?_⟩
  · exact (h.called hint).imp (fun hnil => by simp [hnil]) hall.2
  · have hlt := h.attended hlined (hall.not.1 hnot) fun hnil => hne (by simp [hnil])
    show (c.sleepers.eraseIdx place).length < c.pool.idle + calls.count .one
    rw [List.length_eraseIdx]
    rcases hone with hone | ⟨hplace, -, hone⟩
    · split <;> omega
    · rw [if_pos hplace]
      omega
  · obtain ⟨old, hold, hle, hlt⟩ := before_eraseIdx c.pool.queue.kind hx
    have hcovers := h.covers hcase (hall.not.1 hnot) old x hold hbeyond
    refine ⟨fun hshared => ?_, hcovers.homeEmpty⟩
    have hcount := hcovers.countP_lt hshared
    show c.pool.queue.strategy.announced.countP x.oversleeps +
      before c.pool.queue.kind (c.sleepers.eraseIdx place).length other < c.pool.idle + calls.count .one
    rcases hone with hone | ⟨hplace, hlock, hone⟩
    · omega
    · -- the call reaches one of those that may be called before
      have hless := hlt hplace fun hlocked => hcase hlocked _ _ hlock
      omega

theorem Alert.wake (h : c.Alert lock) (place : Nat) :
    Alert lock { c with sleepers := c.sleepers.eraseIdx place } :=
  h.of_eraseIdx place Iff.rfl (.inl (Nat.le_refl _))

theorem Alert.of_nobody (h : c.Alert lock) {sleepers : List Sleeper} {calls : List Call}
    (hnobody : sleepers = []) :
    Alert lock { c with sleepers := sleepers, calls := calls } := by
  subst hnobody
  exact .of_all_mem h.sound h.manned h.interrupted_of_closed List.nodup_nil
    (fun _ hx => absurd hx List.not_mem_nil) h.inHand_le (.inl rfl)

theorem Alert.call (h : c.Alert lock) {k : Call} {sleepers : List Sleeper} (hcall : k ∈ c.calls)
    (hleaves : k.Leaves lock c.sleepers sleepers) :
    Alert lock { c with sleepers := sleepers, calls := c.calls.erase k } := by
  generalize hbefore : c.sleepers = asleep at hleaves
  cases hleaves with
  | nobody => exact h.of_nobody rfl
  | all => exact h.of_nobody rfl
  | one hplace hlock =>
      subst hbefore
      refine h.of_eraseIdx _ (List.mem_erase_of_ne (by simp)) (.inr ⟨hplace, hlock, ?_⟩)
      rw [List.count_erase_self]
      omega

theorem Alert.tick (h : c.Alert lock) {now : Instant} (hle : c.pool.clock ≤ now) :
    Alert lock { c with pool := { c.pool with clock := now } } where
  sound := h.sound.mono hle
  manned := { h.manned with }
  interrupted_of_closed := h.interrupted_of_closed
  indices_nodup := h.indices_nodup
  waiting := h.waiting
  called := h.called
  inHand_le := Nat.le_trans h.inHand_le (List.countP_mono_left fun _ _ => Task.isReady_mono hle)
  told := h.told
  attended := h.attended
  covers := fun hcase hnot place x hx hbeyond =>
    have hearlier : x.SleepsBeyond c.pool.clock := fun wakeAt hwake =>
      Int.lt_of_le_of_lt hle (hbeyond wakeAt hwake)
    ⟨(h.covers hcase hnot place x hx hearlier).countP_lt,
      (h.covers hcase hnot place x hx hearlier).homeEmpty⟩

theorem Alert.interrupt (h : c.Alert lock) :
    Alert lock { c with
      pool := { c.pool with queue := c.pool.queue.interrupt }
      calls := c.calls ++ [.all] } := by
  have hout := h.sound.interrupt
  refine .of_all_mem hout.sound ⟨hout.shaped h.manned.shaped, h.manned.shards_eq⟩
    (fun _ => Strategy.isInterrupted_interrupt _) h.indices_nodup h.waiting ?_
    (.inr (List.mem_append_right _ List.mem_cons_self))
  exact (Strategy.deferred_interrupt _).symm ▸ h.inHand_le

theorem Alert.shut (h : c.Alert lock) :
    Alert lock { c with
      pool := { c.pool with queue := c.pool.queue.shut }
      calls := c.calls ++ [.all] } := by
  have hout := h.sound.shut
  refine .of_all_mem hout.sound ⟨hout.shaped h.manned.shaped, h.manned.shards_eq⟩
    (fun _ => Strategy.isInterrupted_interrupt _) h.indices_nodup h.waiting ?_
    (.inr (List.mem_append_right _ List.mem_cons_self))
  exact (Strategy.deferred_interrupt _).symm ▸ h.inHand_le

theorem Alert.refill (h : c.Alert lock) (kind : StrategyKind) (hopen : c.pool.queue.closed = false)
    (hnobody : c.sleepers = []) (hfree : c.inHand = 0) :
    Alert lock { c with
      pool := { c.pool with queue := (c.pool.queue.refill kind c.pool.clock).1 } } := by
  have hgrows := (Pool.Step.refill c.pool kind hopen).grows h.sound
  exact .of_all_mem hgrows.sound (h.manned.grows hgrows)
    (fun hclosed => absurd (hclosed.symm.trans hopen) (by simp)) h.indices_nodup h.waiting
    (hfree ▸ Nat.zero_le _) (.inl hnobody)

/-- A close calls all sleepers before it removes any task. -/
theorem Alert.clear (h : c.Alert lock) (graceful : Bool) (hclosed : c.pool.queue.closed = true)
    (hfree : graceful = false → c.inHand = 0) :
    Alert lock { c with
      pool := { c.pool with
        queue := (c.pool.queue.clear graceful c.pool.clock).1 }.cancelRemoved
          (c.pool.queue.clear graceful c.pool.clock).2 } := by
  have hgrows := (Pool.Step.clear c.pool graceful hclosed).grows h.sound
  have hint := h.interrupted_of_closed hclosed
  refine .of_all_mem hgrows.sound (h.manned.grows hgrows) (fun _ => ?_) h.indices_nodup (fun x hx => ?_) ?_
    (h.called hint)
  · simp only [cancelRemoved_queue]
    exact (TaskQueue.clear_isInterrupted graceful).trans hint
  · simp only [cancelRemoved_workers]
    exact h.waiting x hx
  · simp only [cancelRemoved_queue, cancelRemoved_clock]
    cases graceful with
    | false =>
        rw [hfree rfl]
        exact Nat.zero_le _
    | true =>
        show c.inHand ≤ (c.pool.queue.strategy.drainDelayed c.pool.clock).1.deferred.countP _
        rw [Strategy.deferred_drainDelayed, List.countP_filter]
        simpa using h.inHand_le

/-- Every step leaves a crew alert. -/
theorem Step.alert (hstep : Step lock c c') (h : c.Alert lock) : c'.Alert lock := by
  cases hstep with
  | turn index hup hfree => exact h.turn hup hfree
  | takeDue index hup hidle hsharded => exact h.takeDue hsharded
  | deal hsharded hplace hcalls => exact h.deal hsharded hplace hcalls
  | glance index hup hkind => exact h.glance hup hkind
  | passTo cursor hsharded => exact h.passTo cursor hsharded
  | fallAsleep index hup hwaiting hcalm hwork => exact h.fallAsleep hup hwaiting hcalm hwork
  | wake place => exact h.wake place
  | call hcall hleaves => exact h.call hcall hleaves
  | tick now hle => exact h.tick hle
  | submitAt readyAt s => exact h.submitAt readyAt s
  | aside hstep hworkers hsame => exact h.aside hstep hworkers hsame
  | interrupt _ => exact h.interrupt
  | refill kind hopen hnobody hfree => exact h.refill kind hopen hnobody hfree
  | shut _ => exact h.shut
  | clear graceful hclosed hfree => exact h.clear graceful hclosed hfree
  | strand hfree => exact h.strand hfree

theorem Reaches.alert (hreaches : c.Reaches lock c') (h : c.Alert lock) : c'.Alert lock :=
  hreaches.keeps (fun hstep h => hstep.alert h) h

end Crew

end Dispatch
