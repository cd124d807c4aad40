import Dispatch.Proofs.Pool.Idle
import Dispatch.Proofs.Pool.Trace
import Dispatch.Proofs.Queue.Alike
/-!
# Pools that cannot be told apart

Two pools of one worker are alike if their queues are alike and nothing else about them differs but
their logs and whether an idle worker sleeps or is about to look for a task. What is done to both leaves
them alike. An exchange of the strategy gives an idle worker one look more; when the workers have come
to rest again, no trace of it is left.
-/

namespace Dispatch

variable {α : Type}

/-- Whether two workers are at the same thing. An idle worker looks for a task in its next turn, whether
it sleeps or not. -/
def Worker.Alike (w w' : Worker α) : Prop := w' = w ∨ w.isIdle = true ∧ w'.isIdle = true

theorem Worker.Alike.symm {w w' : Worker α} (h : w.Alike w') : w'.Alike w :=
  h.imp Eq.symm And.symm

theorem Worker.Alike.trans {w w' w'' : Worker α} (h : w.Alike w') (h' : w'.Alike w'') :
    w.Alike w'' := by
  rcases h with rfl | ⟨hw, hw'⟩
  · exact h'
  · rcases h' with rfl | ⟨-, hw''⟩
    · exact .inr ⟨hw, hw'⟩
    · exact .inr ⟨hw, hw''⟩

namespace Pool

variable {p p' p'' q q' : Pool α} {t : Task (Job α)} {index : Nat}

/-! ## Books -/

/-- Whether two pools agree in all but their queues, their workers and their logs. -/
structure SameBooks (p p' : Pool α) : Prop where
  clock_eq : p'.clock = p.clock
  breaker_eq : p'.breaker = p.breaker
  metrics_eq : p'.metrics = p.metrics
  tokens_eq : p'.tokens = p.tokens
  tracker_eq : p'.tracker = p.tracker
  active_eq : p'.active = p.active
  accepting_eq : p'.accepting = p.accepting
  joined_eq : p'.joined = p.joined
  nextId_eq : p'.nextId = p.nextId
  answers_eq : p'.answers = p.answers
  /-- The outcomes of a removal come in the order in which the queue holds its tasks. -/
  delivered_perm : p.delivered.Perm p'.delivered
  takes_eq : p'.takes = p.takes

theorem SameBooks.symm (h : SameBooks p p') : SameBooks p' p where
  clock_eq := h.clock_eq.symm
  breaker_eq := h.breaker_eq.symm
  metrics_eq := h.metrics_eq.symm
  tokens_eq := h.tokens_eq.symm
  tracker_eq := h.tracker_eq.symm
  active_eq := h.active_eq.symm
  accepting_eq := h.accepting_eq.symm
  joined_eq := h.joined_eq.symm
  nextId_eq := h.nextId_eq.symm
  answers_eq := h.answers_eq.symm
  delivered_perm := h.delivered_perm.symm
  takes_eq := h.takes_eq.symm

theorem SameBooks.trans (h : SameBooks p p') (h' : SameBooks p' p'') : SameBooks p p'' where
  clock_eq := h'.clock_eq.trans h.clock_eq
  breaker_eq := h'.breaker_eq.trans h.breaker_eq
  metrics_eq := h'.metrics_eq.trans h.metrics_eq
  tokens_eq := h'.tokens_eq.trans h.tokens_eq
  tracker_eq := h'.tracker_eq.trans h.tracker_eq
  active_eq := h'.active_eq.trans h.active_eq
  accepting_eq := h'.accepting_eq.trans h.accepting_eq
  joined_eq := h'.joined_eq.trans h.joined_eq
  nextId_eq := h'.nextId_eq.trans h.nextId_eq
  answers_eq := h'.answers_eq.trans h.answers_eq
  delivered_perm := h.delivered_perm.trans h'.delivered_perm
  takes_eq := h'.takes_eq.trans h.takes_eq

theorem SameBooks.account (h : SameBooks p p') (t : Task (Job α)) (status : JobStatus) :
    SameBooks (p.account t status) (p'.account t status) := by
  cases status with
  | completed =>
      refine { h with
        metrics_eq := ?_
        breaker_eq := congrArg Breaker.onSuccess h.breaker_eq }
      show p'.metrics.recordCompleted (p'.clock.since t.readyAt) = _
      rw [h.metrics_eq, h.clock_eq]
      rfl
  | failed reason =>
      refine { h with
        metrics_eq := congrArg Metrics.recordFailed h.metrics_eq
        breaker_eq := ?_ }
      show p'.breaker.onFailure p'.clock = _
      rw [h.breaker_eq, h.clock_eq]
      rfl
  | cancelled => exact { h with metrics_eq := congrArg Metrics.recordCancelled h.metrics_eq }
  | rejected => exact { h with metrics_eq := congrArg Metrics.recordFailed h.metrics_eq }

theorem SameBooks.finish (h : SameBooks p p') (t : Task (Job α)) (ended : Cell α × JobStatus) :
    SameBooks (p.finish t ended) (p'.finish t ended) :=
  have haccount := h.account t ended.2
  { haccount with
    delivered_perm := haccount.delivered_perm.append_left _
    tracker_eq := congrArg Tracker.leave haccount.tracker_eq
    active_eq := congrArg (· - 1) haccount.active_eq }

theorem SameBooks.proceed (h : SameBooks p p') (t : Task (Job α)) (actions : List Action) :
    (p'.proceed t actions).2 = (p.proceed t actions).2 ∧
      SameBooks (p.proceed t actions).1 (p'.proceed t actions).1 := by
  have hprogress : Progress.ofActions p'.clock t.body.token actions p'.tokens =
      Progress.ofActions p.clock t.body.token actions p.tokens := by
    rw [h.clock_eq, h.tokens_eq]
  have htokens : ∀ c, SameBooks { p with tokens := c } { p' with tokens := c } := fun c =>
    { h with tokens_eq := rfl }
  unfold Pool.proceed
  rw [hprogress]
  split
  · exact ⟨rfl, htokens _⟩
  · exact ⟨rfl, (htokens _).finish _ _⟩
  · exact ⟨rfl, (htokens _).finish _ _⟩

theorem SameBooks.acquire (h : SameBooks p p') :
    p'.acquire.2 = p.acquire.2 ∧ SameBooks p.acquire.1 p'.acquire.1 := by
  have hacquire : p'.breaker.acquire p'.clock = p.breaker.acquire p.clock := by
    rw [h.breaker_eq, h.clock_eq]
  have hanswer : (p'.breaker.acquire p'.clock).2 = (p.breaker.acquire p.clock).2 :=
    congrArg Prod.snd hacquire
  exact ⟨hanswer, { h with breaker_eq := congrArg Prod.fst hacquire }⟩

theorem SameBooks.noteTake (h : SameBooks p p') (t : Task (Job α)) (started : Bool) :
    SameBooks (p.noteTake t started) (p'.noteTake t started) := by
  refine { h with takes_eq := ?_ }
  show (⟨t, p'.clock, started⟩ :: p'.takes : List (Take α)) = _
  rw [h.clock_eq, h.takes_eq]
  rfl

theorem SameBooks.takeOn (h : SameBooks p p') (t : Task (Job α)) :
    (p'.takeOn t).2 = (p.takeOn t).2 ∧ SameBooks (p.takeOn t).1 (p'.takeOn t).1 := by
  have hactive : SameBooks { p with active := p.active + 1 } { p' with active := p'.active + 1 } :=
    { h with active_eq := congrArg (· + 1) h.active_eq }
  obtain ⟨hanswer, hacquired⟩ := hactive.acquire
  have hstop : p'.tokens.asksToStop t.body.token = p.tokens.asksToStop t.body.token := by
    rw [h.tokens_eq]
  unfold Pool.takeOn
  simp only
  rw [hstop]
  split
  · exact ⟨rfl, (hactive.noteTake t false).finish _ _⟩
  · generalize Pool.acquire { p with active := p.active + 1 } = r at hanswer hacquired
    generalize Pool.acquire { p' with active := p'.active + 1 } = r' at hanswer hacquired
    obtain ⟨q, answer⟩ := r
    obtain ⟨q', answer'⟩ := r'
    obtain rfl : answer' = answer := hanswer
    cases answer' with
    | error fault => exact ⟨rfl, (hacquired.noteTake t false).finish _ _⟩
    | ok => exact (hacquired.noteTake t true).proceed _ _

/-! ## Removals -/

/-- What a removal enters into the books. -/
theorem cancelRemoved_books (p : Pool α) (removed : List (Task (Job α))) :
    (p.cancelRemoved removed).metrics = Metrics.recordCancelled^[removed.length] p.metrics ∧
      (p.cancelRemoved removed).tracker = Tracker.leave^[removed.length] p.tracker ∧
      (p.cancelRemoved removed).delivered.Perm
        (removed.map (fun t => (t.id, .cancelled)) ++ p.delivered) := by
  rw [cancelRemoved_eq]
  induction removed generalizing p with
  | nil => exact ⟨rfl, rfl, List.Perm.refl _⟩
  | cons t rest ih =>
      obtain ⟨hmetrics, htracker, hdelivered⟩ := ih (p.cancelUntaken t)
      exact ⟨hmetrics, htracker, hdelivered.trans List.perm_middle⟩

theorem SameBooks.cancelRemoved (h : SameBooks p p') {removed removed' : List (Task (Job α))}
    (hperm : removed.Perm removed') :
    SameBooks (p.cancelRemoved removed) (p'.cancelRemoved removed') := by
  obtain ⟨hmetrics, htracker, hdelivered⟩ := cancelRemoved_books p removed
  obtain ⟨hmetrics', htracker', hdelivered'⟩ := cancelRemoved_books p' removed'
  obtain ⟨metrics, delivered, tracker, channels, heq⟩ := cancelRemoved_eq_with p removed
  obtain ⟨metrics', delivered', tracker', channels', heq'⟩ := cancelRemoved_eq_with p' removed'
  rw [heq] at hmetrics htracker hdelivered ⊢
  rw [heq'] at hmetrics' htracker' hdelivered' ⊢
  exact { h with
    metrics_eq := by rw [hmetrics, hmetrics', h.metrics_eq, hperm.length_eq]
    tracker_eq := by rw [htracker, htracker', h.tracker_eq, hperm.length_eq]
    delivered_perm :=
      hdelivered.trans (((hperm.map _).append h.delivered_perm).trans hdelivered'.symm) }

/-! ## Alike pools -/

/-- Whether two pools of one worker differ only in how their queues hold their tasks, in their logs, and
in whether an idle worker sleeps. -/
structure Alike (p p' : Pool α) : Prop extends SameBooks p p' where
  queue : p.queue.Alike p.clock p'.queue
  workers : ∃ w w', p.workers = [w] ∧ p'.workers = [w'] ∧ w.Alike w'

theorem Alike.symm (h : p.Alike p') : p'.Alike p where
  toSameBooks := h.toSameBooks.symm
  queue := h.clock_eq ▸ h.queue.symm
  workers := by
    obtain ⟨w, w', hw, hw', halike⟩ := h.workers
    exact ⟨w', w, hw', hw, halike.symm⟩

theorem Alike.trans (h : p.Alike p') (h' : p'.Alike p'') : p.Alike p'' where
  toSameBooks := h.toSameBooks.trans h'.toSameBooks
  queue := h.queue.trans (h.clock_eq ▸ h'.queue)
  workers := by
    obtain ⟨w, w', hw, hw', halike⟩ := h.workers
    obtain ⟨u, u', hu, hu', halike'⟩ := h'.workers
    obtain rfl : w' = u := by simpa [hw'] using hu
    exact ⟨w, u', hw, hu', halike.trans halike'⟩

theorem Alike.refl_left (h : p.Alike p') : p.Alike p := h.trans h.symm

theorem Alike.withClock (h : p.Alike p') {now : Instant} (hle : p.clock ≤ now) :
    Alike { p with clock := now } { p' with clock := now } :=
  { h with clock_eq := rfl, queue := h.queue.mono hle }

theorem Alike.note (h : p.Alike p') (level level' : Level) (message message' : String) :
    Alike (p.note level message) (p'.note level' message') :=
  { h with }

/-! ## Turns -/

/-- Whether the turns of two workers have the same results, the pools and what the workers are at. -/
structure TurnsAlike (r r' : Pool α × Worker α) : Prop where
  books : SameBooks r.1 r'.1
  queue : r.1.queue.Alike r.1.clock r'.1.queue
  worker : r.2.Alike r'.2

/-- What an idle worker looks for is the next task. -/
theorem turn_of_isIdle (hs : p.queue.Sound p.clock) (hone : p.queue.Undivided) {w : Worker α}
    (hw : w.isIdle = true) (index : Nat) :
    ∃ r, p.turn index w = p.afterLook index r ∧ TaskQueue.Looks p.clock p.queue r ∧
      Task.IsNext p.clock p.queue.tasks r.2 := by
  cases w with
  | seeking => exact ⟨_, rfl, hs.enter index, hs.isNext_enter hone index⟩
  | waiting => exact ⟨_, rfl, hs.look index, hs.isNext_look hone index⟩
  | busy run => contradiction
  | stopped => contradiction

/-- A look at an open queue that finds nothing leaves the worker idle, and the queue as it is. -/
theorem afterLook_none (p : Pool α) (index : Nat) {queue : TaskQueue (Job α)}
    (hs : queue.Sound p.clock) (hopen : queue.closed = false) :
    ∃ queue' w, p.afterLook index (queue, none) = ({ p with queue := queue' }, w) ∧
      w.isIdle = true ∧ TaskQueue.HandsOut p.clock [] queue queue' ∧
      queue'.closed = queue.closed := by
  unfold afterLook
  simp only [hopen, Bool.false_eq_true, if_false]
  split
  · exact ⟨queue, .seeking, rfl, rfl, hs.handsOut_nil, hopen⟩
  · exact ⟨queue.sleep, .waiting, rfl, rfl, hs.sleep, hopen⟩

/-- A task that is found at both is taken on by both. -/
theorem Alike.takeOn (h : p.Alike p') {queue queue' : TaskQueue (Job α)}
    (hqueue : queue.Alike p.clock queue') (t : Task (Job α)) :
    TurnsAlike ({ p with queue := queue }.takeOn t) ({ p' with queue := queue' }.takeOn t) := by
  have hbooks : SameBooks { p with queue := queue } { p' with queue := queue' } :=
    { h.toSameBooks with }
  obtain ⟨hworker, htaken⟩ := hbooks.takeOn t
  have htakes := takesOn_takeOn p queue t
  refine ⟨htaken, ?_, .inl hworker⟩
  rw [htakes.queue_eq, (takesOn_takeOn p' queue' t).queue_eq, htakes.sameFrame.clock_eq]
  exact hqueue

theorem Alike.afterLook (h : p.Alike p') {r r' : TaskQueue (Job α) × Option (Task (Job α))}
    (hfound : r'.2 = r.2) (hqueue : r.1.Alike p.clock r'.1) :
    TurnsAlike (p.afterLook index r) (p'.afterLook index r') := by
  obtain ⟨queue, found⟩ := r
  obtain ⟨queue', found'⟩ := r'
  obtain rfl : found' = found := hfound
  cases found' with
  | some t => exact h.takeOn hqueue t
  | none =>
      cases hclosed : queue.closed with
      | true =>
          have hclosed' : queue'.closed = true := hqueue.closed_eq.trans hclosed
          unfold Pool.afterLook
          simp only [hclosed, hclosed', if_true]
          exact ⟨{ h.toSameBooks with }, hqueue, .inl rfl⟩
      | false =>
          -- whether waits are given up decides only if the worker sleeps
          obtain ⟨rest, w, heq, hw, hrest, hopen⟩ := afterLook_none p index hqueue.sound hclosed
          obtain ⟨rest', w', heq', hw', hrest', hopen'⟩ := afterLook_none p' index
            (h.clock_eq ▸ hqueue.sound') (hqueue.closed_eq.trans hclosed)
          rw [heq, heq']
          rw [h.clock_eq] at hrest'
          refine ⟨{ h.toSameBooks with }, ?_, .inr ⟨hw, hw'⟩⟩
          refine hqueue.handsOut hrest hrest' (List.Perm.refl _) ?_
          rw [hopen, hopen', hqueue.closed_eq]

theorem Alike.turn (h : p.Alike p') {w w' : Worker α} (hworker : w.Alike w') (index : Nat) :
    TurnsAlike (p.turn index w) (p'.turn index w') := by
  by_cases hidle : w.isIdle = true
  · have hidle' : w'.isIdle = true := by
      rcases hworker with rfl | ⟨-, hidle'⟩
      · exact hidle
      · exact hidle'
    obtain ⟨r, heq, hlooks, hnext⟩ := turn_of_isIdle h.queue.sound h.queue.undivided hidle index
    obtain ⟨r', heq', hlooks', hnext'⟩ := turn_of_isIdle (p := p')
      (h.clock_eq ▸ h.queue.sound') h.queue.undivided' hidle' index
    rw [h.clock_eq] at hlooks' hnext'
    obtain ⟨hfound, hqueue⟩ := h.queue.looks hlooks hlooks' hnext hnext'
    rw [heq, heq']
    exact h.afterLook hfound hqueue
  · obtain rfl : w' = w := hworker.resolve_right fun hboth => hidle hboth.1
    have hrests : TurnsAlike (p, w') (p', w') := ⟨h.toSameBooks, h.queue, .inl rfl⟩
    cases w' with
    | seeking => exact absurd rfl hidle
    | waiting => exact absurd rfl hidle
    | stopped => exact hrests
    | busy run =>
        have hdue : (run.wakeAt ≤ p'.clock) ↔ run.wakeAt ≤ p.clock := by rw [h.clock_eq]
        unfold Pool.turn
        simp only [hdue]
        split
        · obtain ⟨hworker, hbooks⟩ := h.toSameBooks.proceed run.task run.rest
          have hproceeds := proceeds_proceed p run.task run.rest
          refine ⟨hbooks, ?_, .inl hworker⟩
          rw [hproceeds.queue_eq, (proceeds_proceed p' run.task run.rest).queue_eq,
            hproceeds.sameFrame.clock_eq]
          exact h.queue
        · exact hrests

/-- The turn of the only worker. -/
theorem turnAt_of_workers_eq (hs : p.queue.Sound p.clock) {w : Worker α} (hw : p.workers = [w]) :
    p.turnAt 0 = { (p.turn 0 w).1 with workers := [(p.turn 0 w).2] } := by
  have hget : p.workers[0]? = some w := by rw [hw]; rfl
  have hframe := (turned_turn hs 0 w).sameFrame.workers_eq
  unfold turnAt
  rw [hget]
  simp only [hframe, hw, List.set_cons_zero]

theorem Alike.turnAt (h : p.Alike p') : (p.turnAt 0).Alike (p'.turnAt 0) := by
  obtain ⟨w, w', hw, hw', hworker⟩ := h.workers
  have hturns := h.turn hworker 0
  rw [turnAt_of_workers_eq h.queue.sound hw,
    turnAt_of_workers_eq (p := p') (h.clock_eq ▸ h.queue.sound') hw']
  exact { hturns.books with queue := hturns.queue, workers := ⟨_, _, rfl, rfl, hturns.worker⟩ }

theorem Alike.sweep_eq (h : p.Alike p') : p.sweep = p.turnAt 0 := by
  obtain ⟨w, w', hw, -, -⟩ := h.workers
  unfold Pool.sweep
  rw [hw]
  rfl

/-- A pool with one worker has the worker's shard only. -/
theorem Alike.manned (h : p.Alike p') : p.Manned := by
  obtain ⟨w, -, hw, -, -⟩ := h.workers
  exact ⟨h.queue.undivided.shaped, by rw [h.queue.undivided.shards_eq, hw]; rfl⟩

/-- A worker that can do nothing does nothing that shows. -/
theorem Alike.turnAt_of_stillAt (h : p.Alike p') (hstill : ∀ index, p.StillAt index) :
    p.Alike (p.turnAt 0) := by
  obtain ⟨w, -, hw, -, -⟩ := h.workers
  have hquiet := hstill 0 w (by rw [hw]; rfl)
  have hsame := h.refl_left
  rw [turnAt_of_workers_eq h.queue.sound hw]
  cases w with
  | seeking => exact absurd hquiet id
  | stopped => exact { hsame with workers := ⟨_, _, hw, rfl, .inl rfl⟩ }
  | busy run =>
      rw [show p.turn 0 (.busy run) = (p, .busy run) from if_neg (Int.not_le.2 hquiet)]
      exact { hsame with workers := ⟨_, _, hw, rfl, .inl rfl⟩ }
  | waiting =>
      -- its look finds nothing, since nothing is ready
      have hidle : ∀ w ∈ p.workers, w.isIdle = true := by
        rw [hw]
        simp [Worker.isIdle]
      have hnoIdle : p.NoIdle := noIdle_of_hasNoneFor h.manned (hasNoneFor_of_stillAt hstill)
      have hlate : ∀ t ∈ p.queue.tasks, t.isReady p.clock = false := fun t ht =>
        Task.not_isReady_iff.2 (hnoIdle.allIdle hidle t ht)
      obtain ⟨r, heq, hlooks, hnext⟩ := turn_of_isIdle h.queue.sound h.queue.undivided
        (w := .waiting) rfl 0
      obtain ⟨queue, found⟩ := r
      obtain rfl : found = none := hnext.unique h.queue.ids_nodup hlate
      obtain ⟨rest, w, hafter, hw', hrest, hopen⟩ := afterLook_none p 0
        hlooks.handsOut.sound (hlooks.closed_eq.trans hquiet.1)
      rw [heq, hafter]
      refine { hsame with queue := ?_, workers := ⟨_, _, hw, rfl, .inr ⟨rfl, hw'⟩⟩ }
      exact hsame.queue.handsOut_nil (hlooks.handsOut.trans hrest) (hopen.trans hlooks.closed_eq)

theorem Alike.turnAt_right (h : p.Alike p') (hstill : ∀ index, p.StillAt index) (index : Nat) :
    p.Alike (p'.turnAt index) := by
  cases index with
  | zero => exact (h.turnAt_of_stillAt hstill).trans h.turnAt
  | succ index =>
      obtain ⟨-, w', -, hw', -⟩ := h.workers
      have hnone : p'.workers[index + 1]? = none := by rw [hw']; rfl
      unfold Pool.turnAt
      rw [hnone]
      exact h

/-! ## Settled pools -/

theorem settle_of_orderly (h : p.Orderly) :
    p.settle = p.sweep.settle ∨ p.settle = p.sweep ∧ ∀ index, p.sweep.StillAt index := by
  have hstill := fun index => stillAt_settle h index
  rw [Pool.settle] at hstill ⊢
  split at hstill
  · exact .inl (if_pos ‹_›)
  · exact .inr ⟨if_neg ‹_›, hstill⟩

/-- A pool that has come to rest stays alike to another one that has not. -/
theorem Alike.settle_right (h : p.Alike p') (hstill : ∀ index, p.StillAt index) :
    p.Alike p'.settle :=
  keeps_settle (I := fun q => p.Alike q) (fun _ index hq => hq.turnAt_right hstill index) h

theorem Alike.sweep (h : p.Alike p') : p.sweep.Alike p'.sweep := by
  rw [h.sweep_eq, h.symm.sweep_eq]
  exact h.turnAt

/-- Alike pools come to rest alike, though not after the same number of turns. -/
theorem Alike.settle (h : p.Alike p') (hp : p.Orderly) (hp' : p'.Orderly) :
    p.settle.Alike p'.settle := by
  -- along the turns of the first pool; where one of them has come to rest, the rest is one-sided
  fun_induction Pool.settle p generalizing p' with
  | @case1 p q hlt ih =>
      have hrest' := (works_sweep p').orderly hp'
      rcases settle_of_orderly hp' with heq | ⟨heq, hstill⟩
      · rw [heq]
        exact ih h.sweep ((works_sweep p).orderly hp) hrest'
      · rw [heq]
        exact (h.sweep.symm.settle_right hstill).symm
  | @case2 p q hdone =>
      have hstill : ∀ index, p.sweep.StillAt index := by
        have hsettled := fun index => stillAt_settle hp index
        rwa [Pool.settle, if_neg hdone] at hsettled
      rcases settle_of_orderly hp' with heq | ⟨heq, -⟩
      · rw [heq]
        exact h.sweep.settle_right hstill
      · rw [heq]
        exact h.sweep

/-- It does not matter if the workers of one of two pools have had a turn before. -/
theorem Alike.settle_of_sweep (h : p.sweep.Alike p') (hp : p.Orderly) (hp' : p'.Orderly) :
    p.settle.Alike p'.settle := by
  rcases settle_of_orderly hp with heq | ⟨heq, hstill⟩
  · rw [heq]
    exact h.settle ((works_sweep p).orderly hp) hp'
  · rw [heq]
    exact h.settle_right hstill

/-- An exchange of the strategy lets an idle worker look once more. What it finds then is what it finds
in its next turn where there is no exchange. -/
theorem Alike.settle_switch_right (h : p.Alike p') (kind : StrategyKind) (hp : p.Orderly)
    (hp' : p'.Orderly) : p.settle.Alike (p'.switch kind).1.settle := by
  have hswitched := orderly_switch hp' kind
  unfold Pool.switch at hswitched ⊢
  split
  · rename_i hcan
    rw [if_pos hcan] at hswitched
    have hinterrupted : p.Alike { p' with queue := p'.queue.interrupt } :=
      { h with queue := h.queue.interrupt_right }
    obtain ⟨-, w', -, hw', -⟩ := h.workers
    have hrouse : ({ p' with queue := p'.queue.interrupt } : Pool α).rouse =
        if w'.isWaiting then ({ p' with queue := p'.queue.interrupt } : Pool α).turnAt 0
        else { p' with queue := p'.queue.interrupt } := by
      simp [Pool.rouse, hw']
    simp only [hrouse] at hswitched ⊢
    split
    · -- the additional look is that of the next sweep of the other pool
      rename_i hwaiting
      rw [if_pos hwaiting] at hswitched
      have hturned := hinterrupted.turnAt
      refine Alike.settle_of_sweep ?_ hp hswitched
      rw [h.sweep_eq]
      refine { hturned with queue := ?_ }
      rw [hturned.clock_eq]
      exact hturned.queue.refill_right kind
    · rename_i hwaiting
      rw [if_neg hwaiting] at hswitched
      refine Alike.settle { h with queue := ?_ } hp hswitched
      show p.queue.Alike p.clock (p'.queue.interrupt.refill kind p'.clock).1
      rw [h.clock_eq]
      exact hinterrupted.queue.refill_right kind
  · exact h.settle hp hp'

end Pool

end Dispatch
