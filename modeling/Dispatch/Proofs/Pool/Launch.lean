import Dispatch.Pool.Start
import Dispatch.Proofs.Log
import Dispatch.Proofs.Pool.Over
/-!
# Threads that are started and stopped again

The threads of a pool are created one after the other, and each of them runs from then on. It
reports that it has started, looks for tasks, and reports that it has stopped when it finds the
queue closed. Where the creation of a thread fails, the queue is closed while the threads before it
are anywhere in between: one has not even begun, another one looks for a task, a third one waits.

A launch is such a pool together with the threads that have not begun yet. In whatever order its
threads and their creator act, each thread has reported its start and its stop as far as it has
come, once each and in that order, and no task has been touched.
-/

namespace Dispatch

variable {α : Type}

/-! ## Notices -/

/-- What a worker reports about itself. -/
inductive Notice where
  | started (worker : Nat)
  | stopped (worker : Nat)
deriving DecidableEq, Repr

namespace Notice

/-- The worker that reports. -/
def worker : Notice → Nat
  | started worker => worker
  | stopped worker => worker

def message : Notice → String
  | started worker => "worker " ++ toString worker ++ " started"
  | stopped worker => "worker " ++ toString worker ++ " stopped"

/-- The record of a notice that is given at an instant. -/
def record (n : Notice) (now : Instant) : LogRecord := ⟨.info, n.message, now.wallMillis⟩

/-- The digits of a number in a text determine it. -/
theorem toString_inj {m n : Nat} (h : toString m = toString n) : m = n := by
  have hdigits : Nat.toDigits 10 m = Nat.toDigits 10 n := by
    simpa only [Nat.toString_eq_repr, Nat.toList_repr] using congrArg String.toList h
  rw [← Nat.ofDigitChars_ten_toDigits (n := m), hdigits, Nat.ofDigitChars_ten_toDigits]

/-- A message tells which notice it is of. -/
theorem message_injective {m n : Notice} (h : m.message = n.message) : m = n := by
  have hsplit : ∀ {a b : Nat} {x y : String}, x.toList.length = y.toList.length →
      "worker " ++ toString a ++ x = "worker " ++ toString b ++ y → a = b ∧ x = y := by
    intro a b x y hlength heq
    have hchars := congrArg String.toList heq
    simp only [String.toList_append, List.append_assoc, List.append_cancel_left_eq] at hchars
    obtain ⟨hnumber, hrest⟩ := List.append_inj' hchars hlength
    exact ⟨toString_inj (String.toList_inj.1 hnumber), String.toList_inj.1 hrest⟩
  cases m <;> cases n <;> obtain ⟨hworker, htext⟩ := hsplit (by decide) h
  · rw [hworker]
  · exact absurd htext (by decide)
  · exact absurd htext (by decide)
  · rw [hworker]

end Notice

namespace Pool

variable {p q : Pool α} {index : Nat}

/-! ## Pools without tasks -/

/-- Whether no task has ever come to a pool, so that none was executed or counted. -/
structure Untouched (p : Pool α) : Prop where
  sound : p.queue.Sound p.clock
  tasks_eq_nil : p.queue.tasks = []
  takes_eq_nil : p.takes = []
  answers_eq_nil : p.answers = []
  delivered_eq_nil : p.delivered = []
  channels_eq : p.channels = {}
  tracker_eq : p.tracker = {}
  active_eq : p.active = 0
  metrics_eq : ∃ since capacity, p.metrics = .start since capacity

theorem untouched_ofWorkers (config : EngineConfig) (count started : Nat) (now : Instant)
    (log : LogBook) : (ofWorkers config count started now log : Pool α).Untouched :=
  ⟨TaskQueue.sound_ofKind _ _ _ _, TaskQueue.tasks_ofKind _ _ _ _, rfl, rfl, rfl, rfl, rfl, rfl,
    _, _, rfl⟩

/-- Nothing is handed out where nothing has come in. -/
theorem Untouched.handsOut (h : p.Untouched) {ts : List (Task (Job α))}
    {queue : TaskQueue (Job α)} (hout : TaskQueue.HandsOut p.clock ts p.queue queue) :
    ts = [] ∧ { p with queue := queue }.Untouched := by
  have hperm : [].Perm (ts ++ queue.tasks) := h.tasks_eq_nil ▸ hout.tasks_perm
  obtain ⟨hts, htasks⟩ := List.append_eq_nil_iff.1 (List.nil_perm.1 hperm)
  exact ⟨hts, { h with sound := hout.sound, tasks_eq_nil := htasks }⟩

theorem Untouched.withClock (h : p.Untouched) {now : Instant} (hle : p.clock ≤ now) :
    { p with clock := now }.Untouched :=
  { h with sound := h.sound.mono hle }

/-! ## Turns of workers for which there is nothing to do -/

/-- Whether a pool comes of the turn of a worker that finds no task. -/
inductive TurnsIdly (p : Pool α) (index : Nat) : Pool α → Prop where
  /-- There is no such worker, or it has stopped. -/
  | rests (hnone : ∀ w ∈ p.workers[index]?, w = .stopped) : TurnsIdly p index p
  | stays {w w' : Worker α} {queue : TaskQueue (Job α)} (hw : p.workers[index]? = some w)
      (hrunning : w ≠ .stopped) (hopen : p.queue.closed = false)
      (hlooks : TaskQueue.Looks p.clock p.queue (queue, none)) (hidle : w'.task? = none)
      (hrunning' : w' ≠ .stopped) :
      TurnsIdly p index { p with queue := queue, workers := p.workers.set index w' }
  | stops {w : Worker α} {queue : TaskQueue (Job α)} (hw : p.workers[index]? = some w)
      (hrunning : w ≠ .stopped) (hclosed : p.queue.closed = true)
      (hlooks : TaskQueue.Looks p.clock p.queue (queue, none)) :
      TurnsIdly p index { p with
        queue := queue
        log := p.log.append ((Notice.stopped index).record p.clock)
        workers := p.workers.set index .stopped }

/-- A look at a queue without tasks finds none. -/
theorem Untouched.eq_none_of_looks (h : p.Untouched)
    {r : TaskQueue (Job α) × Option (Task (Job α))} (hlooks : TaskQueue.Looks p.clock p.queue r) :
    r = (r.1, none) :=
  Prod.ext rfl (Option.toList_eq_nil_iff.1 (h.handsOut hlooks.handsOut).1)

theorem Untouched.turnsIdly_afterLook (h : p.Untouched) {w : Worker α}
    (hw : p.workers[index]? = some w) (hrunning : w ≠ .stopped)
    {r : TaskQueue (Job α) × Option (Task (Job α))} (hlooks : TaskQueue.Looks p.clock p.queue r) :
    p.TurnsIdly index
      { (p.afterLook index r).1 with
        workers := (p.afterLook index r).1.workers.set index (p.afterLook index r).2 } := by
  have hnone := h.eq_none_of_looks hlooks
  rw [hnone] at hlooks ⊢
  unfold afterLook
  simp only
  split
  · rename_i hclosed
    exact .stops hw hrunning (hlooks.closed_eq.symm.trans hclosed) hlooks
  · rename_i hopen
    have hopen' := hlooks.closed_eq.symm.trans (Bool.eq_false_iff.2 hopen)
    split
    · exact .stays hw hrunning hopen' hlooks rfl (by simp)
    · exact .stays hw hrunning hopen' hlooks.sleep rfl (by simp)

theorem Untouched.turnsIdly_turnAt (h : p.Untouched) (hidle : ∀ w ∈ p.workers, w.task? = none)
    (index : Nat) : p.TurnsIdly index (p.turnAt index) := by
  unfold turnAt
  split
  · rename_i hnone
    exact .rests (by simp [hnone])
  · rename_i w hw
    cases w with
    | seeking => exact h.turnsIdly_afterLook hw (by simp) (h.sound.enter index)
    | waiting => exact h.turnsIdly_afterLook hw (by simp) (h.sound.look index)
    | busy run => exact absurd (hidle _ (List.mem_of_getElem? hw)) (by simp [Worker.task?])
    | stopped =>
        have hsame : p.workers.set index .stopped = p.workers := by
          obtain ⟨hindex, hget⟩ := List.getElem?_eq_some_iff.1 hw
          rw [← hget, List.set_getElem_self]
        simp only [turn, hsame]
        exact .rests (by simp [hw])

end Pool

/-! ## Launches -/

/-- A pool that is being started, or stopped again because its start has failed. -/
structure Launch (α : Type) where
  pool : Pool α
  /-- The workers whose threads have been created but have not begun. -/
  unborn : List Nat := []

namespace Launch

/-- The state before the first thread is created. -/
def fresh (config : EngineConfig) (count : Nat) (now : Instant) (log : LogBook) : Launch α where
  pool := .ofWorkers config count 0 now log

/-- The thread of one worker more is created. -/
def create (l : Launch α) : Launch α where
  pool := { l.pool with workers := l.pool.workers ++ [.seeking] }
  unborn := l.unborn ++ [l.pool.workers.length]

/-- The thread of a worker begins, which it reports. -/
def begin (l : Launch α) (index : Nat) : Launch α where
  pool := l.pool.note .info (Notice.started index).message
  unborn := l.unborn.erase index

/-- The thread of a worker acts. -/
def advance (l : Launch α) (index : Nat) : Launch α :=
  if index ∈ l.unborn then l.begin index else { l with pool := l.pool.turnAt index }

/-- One thing that can happen to a launch. -/
inductive Step : Launch α → Launch α → Prop where
  | create (l : Launch α) (hopen : l.pool.queue.closed = false) : Step l l.create
  | advance (l : Launch α) (index : Nat) : Step l (l.advance index)
  | tick (l : Launch α) (now : Instant) (hle : l.pool.clock ≤ now) :
      Step l { l with pool := { l.pool with clock := now } }
  | refuse (l : Launch α) : Step l { l with pool := { l.pool with accepting := false } }
  | shut (l : Launch α) : Step l { l with pool := { l.pool with queue := l.pool.queue.shut } }
  /-- The tasks are removed that a close leaves no time for. -/
  | clear (l : Launch α) (graceful : Bool) (hclosed : l.pool.queue.closed = true) :
      Step l { l with
        pool := { l.pool with queue := (l.pool.queue.clear graceful l.pool.clock).1 }.cancelRemoved
          (l.pool.queue.clear graceful l.pool.clock).2 }
  /-- The tasks are removed that the workers have left. -/
  | strand (l : Launch α) (hclosed : l.pool.queue.closed = true) :
      Step l { l with
        pool := { l.pool with queue := l.pool.queue.drain.1, joined := true }.cancelRemoved
          l.pool.queue.drain.2 }

/-- Whether a launch can become another one. -/
def Reaches : Launch α → Launch α → Prop := Relation.ReflTransGen Step

variable {l l' : Launch α} {log : LogBook} {notices : List (Notice × Instant)} {index : Nat}

theorem Step.reaches (h : Step l l') : l.Reaches l' := Relation.ReflTransGen.single h

/-- What the worker of a number has reported, where some workers have not begun. -/
def told (unborn : List Nat) (workers : List (Worker α)) (index : Nat) : List Notice :=
  if index ∈ unborn then []
  else workers[index]?.elim [] fun w =>
    .started index :: if w.isStopped then [.stopped index] else []

/-- Whether a launch is in order, and came of a log by some notices. -/
structure Tidy (log : LogBook) (notices : List (Notice × Instant)) (l : Launch α) : Prop where
  untouched : l.pool.Untouched
  log_eq : l.pool.log = log.addAll (notices.map fun n => n.1.record n.2)
  nodup : l.unborn.Nodup
  idle : ∀ w ∈ l.pool.workers, w.task? = none
  seeking : ∀ index ∈ l.unborn, l.pool.workers[index]? = some .seeking
  told_eq : ∀ index,
    (notices.map Prod.fst).filter (·.worker = index) = told l.unborn l.pool.workers index

theorem tidy_fresh (config : EngineConfig) (count : Nat) (now : Instant) (log : LogBook) :
    Tidy log [] (fresh config count now log : Launch α) where
  untouched := Pool.untouched_ofWorkers config count 0 now log
  log_eq := rfl
  nodup := List.nodup_nil
  idle := by simp [fresh, Pool.ofWorkers]
  seeking := by simp [fresh]
  told_eq := fun index => by simp [told, fresh, Pool.ofWorkers]

/-- A step that touches neither the workers nor the log keeps a launch in order. -/
theorem Tidy.withPool (h : l.Tidy log notices) {q : Pool α} (hq : q.Untouched)
    (hlog : q.log = l.pool.log) (hworkers : q.workers = l.pool.workers) :
    { l with pool := q }.Tidy log notices where
  untouched := hq
  log_eq := hlog.trans h.log_eq
  nodup := h.nodup
  idle := hworkers ▸ h.idle
  seeking := hworkers ▸ h.seeking
  told_eq := hworkers ▸ h.told_eq

theorem Tidy.create (h : l.Tidy log notices) : l.create.Tidy log notices := by
  have hlength : ∀ i ∈ l.unborn, i < l.pool.workers.length := fun i hi =>
    (List.getElem?_eq_some_iff.1 (h.seeking i hi)).1
  refine ⟨{ h.untouched with }, h.log_eq, ?_, ?_, fun i hi => ?_, fun i => ?_⟩
  · refine List.nodup_append.2 ⟨h.nodup, List.nodup_singleton _, fun i hi j hj => ?_⟩
    rw [List.mem_singleton.1 hj]
    exact Nat.ne_of_lt (hlength i hi)
  · intro w hw
    rcases List.mem_append.1 hw with hw | hw
    · exact h.idle w hw
    · rw [List.mem_singleton.1 hw]
      rfl
  · rcases List.mem_append.1 hi with hi | hi
    · exact (List.getElem?_append_left (hlength i hi)).trans (h.seeking i hi)
    · rw [List.mem_singleton.1 hi]
      exact List.getElem?_concat_length
  · rw [h.told_eq i]
    unfold told
    rcases Nat.lt_trichotomy i l.pool.workers.length with hi | rfl | hi
    · simp [Launch.create, List.getElem?_append_left hi, Nat.ne_of_lt hi]
    · -- the new worker has reported nothing, as a worker that is not there
      simp [Launch.create]
    · have hnone : l.pool.workers[i]? = none := List.getElem?_eq_none (Nat.le_of_lt hi)
      have hnone' : (l.pool.workers ++ [.seeking])[i]? = none :=
        List.getElem?_eq_none (by rwa [List.length_append])
      simp [Launch.create, hnone, hnone']

/-- One notice more belongs to the worker that gives it. -/
theorem filter_worker_concat (notices : List (Notice × Instant)) (n : Notice) (now : Instant)
    (index : Nat) : ((notices ++ [(n, now)]).map Prod.fst).filter (·.worker = index) =
      (notices.map Prod.fst).filter (·.worker = index) ++ if n.worker = index then [n] else [] := by
  rw [List.map_append, List.filter_append]
  congr 1
  simp only [List.map_cons, List.map_nil, List.filter_cons, List.filter_nil, decide_eq_true_eq]

theorem Tidy.begin (h : l.Tidy log notices) (hunborn : index ∈ l.unborn) :
    (l.begin index).Tidy log (notices ++ [(.started index, l.pool.clock)]) := by
  have hmem : ∀ i, i ∈ (l.begin index).unborn ↔ i ≠ index ∧ i ∈ l.unborn := fun i =>
    h.nodup.mem_erase_iff
  refine ⟨{ h.untouched with }, ?_, h.nodup.erase _, h.idle, fun i hi => ?_, fun i => ?_⟩
  · rw [List.map_append, List.map_singleton, LogBook.addAll_concat, ← h.log_eq]
    rfl
  · exact h.seeking i ((hmem i).1 hi).2
  · rw [filter_worker_concat, h.told_eq i]
    by_cases hi : index = i
    · subst hi
      have hworker : (l.begin index).pool.workers[index]? = some .seeking := h.seeking _ hunborn
      simp [told, hmem, hunborn, hworker, Notice.worker, Worker.isStopped]
    · have hworkers : (l.begin index).pool.workers = l.pool.workers := rfl
      simp [told, hmem, Ne.symm hi, hi, hworkers, Notice.worker]

/-- A turn changes what its worker has reported, and what no other worker has. -/
theorem told_set {unborn : List Nat} {workers : List (Worker α)} (hunborn : index ∉ unborn)
    (hindex : index < workers.length) (w' : Worker α) (i : Nat) :
    told unborn (workers.set index w') i =
      if i = index then .started index :: if w'.isStopped then [.stopped index] else []
      else told unborn workers i := by
  unfold told
  by_cases heq : i = index
  · subst heq
    simp [hunborn, hindex]
  · simp [heq, Ne.symm heq]

theorem idle_set {ws : List (Worker α)} {w' : Worker α} (h : ∀ w ∈ ws, w.task? = none)
    (hidle : w'.task? = none) : ∀ w ∈ ws.set index w', w.task? = none := by
  intro w hw
  rcases List.mem_or_eq_of_mem_set hw with hw | rfl
  · exact h w hw
  · exact hidle

theorem seeking_set {w' : Worker α} (h : l.Tidy log notices) (hunborn : index ∉ l.unborn) :
    ∀ i ∈ l.unborn, (l.pool.workers.set index w')[i]? = some .seeking := by
  intro i hi
  have hne : index ≠ i := fun heq => hunborn (heq ▸ hi)
  rw [List.getElem?_set_ne hne]
  exact h.seeking i hi

theorem told_of_running (hunborn : index ∉ l.unborn) {w : Worker α}
    (hw : l.pool.workers[index]? = some w) (hrunning : w ≠ .stopped) :
    told l.unborn l.pool.workers index = [.started index] := by
  cases w with
  | stopped => contradiction
  | _ => simp [told, hunborn, hw, Worker.isStopped]

theorem Tidy.turn (h : l.Tidy log notices) (hunborn : index ∉ l.unborn) {q : Pool α}
    (hturn : l.pool.TurnsIdly index q) : ∃ notices', { l with pool := q }.Tidy log notices' := by
  cases hturn with
  | rests _ => exact ⟨notices, h⟩
  | @stays w w' queue hw hrunning hopen hlooks hidle hrunning' =>
      have hindex := (List.getElem?_eq_some_iff.1 hw).1
      refine ⟨notices, { (h.untouched.handsOut hlooks.handsOut).2 with }, h.log_eq, h.nodup,
        idle_set h.idle hidle, seeking_set h hunborn, fun i => ?_⟩
      rw [h.told_eq i, told_set hunborn hindex]
      split
      · rename_i hi
        subst hi
        rw [told_of_running hunborn hw hrunning]
        cases w' with
        | stopped => contradiction
        | _ => rfl
      · rfl
  | @stops w queue hw hrunning hclosed hlooks =>
      have hindex := (List.getElem?_eq_some_iff.1 hw).1
      refine ⟨notices ++ [(.stopped index, l.pool.clock)],
        { (h.untouched.handsOut hlooks.handsOut).2 with }, ?_, h.nodup, idle_set h.idle rfl,
        seeking_set h hunborn, fun i => ?_⟩
      · rw [List.map_append, List.map_singleton, LogBook.addAll_concat, ← h.log_eq]
      · rw [filter_worker_concat, h.told_eq i, told_set hunborn hindex]
        by_cases hi : index = i
        · subst hi
          rw [told_of_running hunborn hw hrunning]
          simp [Notice.worker, Worker.isStopped]
        · simp [Notice.worker, hi, Ne.symm hi]

theorem Tidy.advance (h : l.Tidy log notices) (index : Nat) :
    ∃ notices', (l.advance index).Tidy log notices' := by
  unfold Launch.advance
  split
  · exact ⟨_, h.begin ‹_›⟩
  · exact h.turn ‹_› (h.untouched.turnsIdly_turnAt h.idle index)

/-- Every step keeps a launch in order. -/
theorem Step.tidy (hstep : Step l l') (h : l.Tidy log notices) :
    ∃ notices', l'.Tidy log notices' := by
  cases hstep with
  | create hopen => exact ⟨notices, h.create⟩
  | advance index => exact h.advance index
  | tick now hle => exact ⟨notices, h.withPool (h.untouched.withClock hle) rfl rfl⟩
  | refuse => exact ⟨notices, h.withPool { h.untouched with } rfl rfl⟩
  | shut => exact ⟨notices, h.withPool (h.untouched.handsOut h.untouched.sound.shut).2 rfl rfl⟩
  | clear graceful hclosed =>
      obtain ⟨hnil, hcleared⟩ := h.untouched.handsOut (h.untouched.sound.clear graceful)
      rw [hnil]
      exact ⟨notices, h.withPool hcleared rfl rfl⟩
  | strand hclosed =>
      obtain ⟨hnil, hdrained⟩ := h.untouched.handsOut h.untouched.sound.drain.1
      rw [hnil]
      exact ⟨notices, h.withPool { hdrained with } rfl rfl⟩

theorem Reaches.tidy (hreaches : l.Reaches l') (h : l.Tidy log notices) :
    ∃ notices', l'.Tidy log notices' := by
  induction hreaches with
  | refl => exact ⟨notices, h⟩
  | tail _ hlast ih =>
      obtain ⟨notices', h'⟩ := ih
      exact hlast.tidy h'

end Launch

end Dispatch
