import Dispatch.Proofs.Queue.Observed
/-!
# Closed and exhausted

An exchange of the strategy and a close both have the waits at a queue given up, but only the close
means that nothing will come any more. A wait is told so exactly if the queue is closed and nothing is
left in it, whatever shard a task is in and whether or not workers may take from other shards.
-/

namespace Dispatch

variable {β : Type} {now : Instant}

/-! ## One wait at a closed queue -/

/-- How a wait ends at a closed queue that was looked at once more. -/
def Pop.ofLast : Option (Task β) → Pop β
  | some t => .task t
  | none => .shutdown

@[simp] theorem Pop.task?_ofLast (found : Option (Task β)) : (ofLast found).task? = found := by
  cases found <;> rfl

@[simp] theorem Pop.ofLast_eq_shutdown {found : Option (Task β)} :
    ofLast found = .shutdown ↔ found = none := by
  cases found <;> simp [ofLast]

namespace TaskQueue

variable {q : TaskQueue β}

theorem HandsOut.subset {ts : List (Task β)} {q' : TaskQueue β} (h : HandsOut now ts q q') :
    q'.tasks ⊆ q.tasks := fun _ ht => h.tasks_perm.mem_iff.2 (List.mem_append_right _ ht)

theorem Sound.size_eq_zero_iff (hs : q.Sound now) : q.size = 0 ↔ q.tasks = [] := by
  rw [size, hs.depth_eq, List.length_eq_zero_iff]

/-- An open queue does not tell a wait that it is closed. -/
theorem popBlocking_ne_shutdown (hopen : q.closed = false) (worker : Nat) (deadline : Option Instant) :
    (q.popBlocking worker deadline now).2.2 ≠ .shutdown := by
  unfold TaskQueue.popBlocking
  split <;> simp [hopen]

/-- At a closed queue a wait takes one look and does not sleep. -/
theorem Sound.popBlocking_of_closed (hs : q.Sound now) (hcalm : q.Calm) (hclosed : q.closed = true)
    (worker : Nat) (deadline : Option Instant) :
    q.popBlocking worker deadline now =
      ((q.enter worker now).1, now, .ofLast (q.enter worker now).2) := by
  have hentered := (Strategy.sameTasks_enter q.strategy).sound now hs.strategy
  have hyields := hentered.attempt worker
  have hint : q.strategy.enter.isInterrupted = true := by
    rw [Strategy.isInterrupted_enter, hcalm, hclosed]
  unfold TaskQueue.popBlocking Strategy.popWait Strategy.waitLooks TaskQueue.enter
  cases hlook : q.strategy.enter.attempt worker now with
  | mk s found =>
      rw [hlook] at hyields
      cases found with
      | some t => rfl
      | none =>
          have hflag : s.isInterrupted = true := hyields.isInterrupted_eq.trans hint
          simp only [hflag, if_true, if_pos hclosed]
          rfl

/-- Where waits are given up and all tasks are ready, a look finds nothing just if nothing is left. -/
theorem Looks.eq_none_iff {r : TaskQueue β × Option (Task β)} (h : Looks now q r) (hs : q.Sound now)
    (hint : q.strategy.isInterrupted = true) (hready : ∀ t ∈ q.tasks, t.isReady now = true) :
    r.2 = none ↔ q.size = 0 := by
  rw [hs.size_eq_zero_iff]
  constructor
  · intro hnone
    apply List.eq_nil_iff_forall_not_mem.2
    intro t ht
    have hlate := h.not_isReady hint hnone t ht
    rw [hready t ht] at hlate
    contradiction
  · intro hnil
    apply Option.eq_none_iff_forall_ne_some.2
    intro t hfound
    have hmem : t ∈ q.tasks := h.handsOut.tasks_perm.mem_iff.2 (by simp [hfound])
    simp [hnil] at hmem

/-- How a wait at a queue that is closed comes to its end at an instant. -/
structure EndsAtOnce (now : Instant) (q : TaskQueue β) (r : TaskQueue β × Instant × Pop β) :
    Prop where
  /-- It does not sleep. -/
  clock_eq : r.2.1 = now
  /-- It takes one of the tasks that are left, if there are any. -/
  takes : q.size ≠ 0 → ∃ t ∈ q.tasks, r.2.2 = .task t
  /-- It is told that the queue is closed exactly if nothing is left. -/
  shutdown_iff : r.2.2 = .shutdown ↔ q.size = 0
  /-- All tasks but the one that it takes stay. -/
  handsOut : HandsOut now r.2.2.task?.toList q r.1

theorem Sound.endsAtOnce (hs : q.Sound now) (hcalm : q.Calm) (hclosed : q.closed = true)
    (hready : ∀ t ∈ q.tasks, t.isReady now = true) (worker : Nat) (deadline : Option Instant) :
    EndsAtOnce now q (q.popBlocking worker deadline now) := by
  have hlooks := hs.enter worker
  have hnone := hlooks.eq_none_iff hs (hcalm.trans hclosed) hready
  rw [hs.popBlocking_of_closed hcalm hclosed]
  refine ⟨rfl, fun hsize => ?_, Pop.ofLast_eq_shutdown.trans hnone, ?_⟩
  · obtain ⟨t, hfound⟩ := Option.ne_none_iff_exists'.1 (mt hnone.1 hsize)
    have hheld : t ∈ q.tasks := hlooks.handsOut.tasks_perm.mem_iff.2 (by simp [hfound])
    exact ⟨t, hheld, by simp [hfound, Pop.ofLast]⟩
  · simpa using hlooks.handsOut

/-- A clear removes whatever is not ready. -/
theorem Sound.isReady_of_clear (hs : q.Sound now) (graceful : Bool) :
    ∀ t ∈ (q.clear graceful now).1.tasks, t.isReady now = true := by
  intro t ht
  cases graceful with
  | true =>
      obtain ⟨-, -, hleft⟩ := hs.drainDelayed
      exact (List.mem_filter.1 (hleft.mem_iff.1 ht)).2
  | false =>
      obtain ⟨-, hnil, -⟩ := hs.drain
      rw [show (q.clear false now).1.tasks = [] from hnil] at ht
      contradiction

end TaskQueue

/-! ## Calls that others come in between -/

/-- Whether a request leaves the waits at a queue alone. -/
def QueueRequest.isQuiet : QueueRequest β → Bool
  | interrupt | switch _ | close _ => false
  | _ => true

/-- A request that leaves the waits at a queue alone. -/
abbrev QuietRequest (β : Type) := { request : QueueRequest β // request.isQuiet = true }

/-- What is done with a queue. An exchange of the strategy and a close first have the waits given up,
and touch the tasks only after that: other requests come in between, such as the looks of the workers
that were waiting. -/
inductive QueueCall (β : Type) where
  | request (r : QuietRequest β)
  | switch (kind : StrategyKind) (meanwhile : List (QuietRequest β))
  | close (graceful : Bool) (meanwhile : List (QuietRequest β))

def QueueCall.isClose : QueueCall β → Bool
  | close _ _ => true
  | _ => false

namespace Custody

variable {capacity : Nat} {c c' : Custody β}

/-- Serves requests that leave the waits alone. -/
def pass (c : Custody β) (requests : List (QuietRequest β)) : Custody β :=
  c.run (requests.map Subtype.val)

/-- The ledger of a queue that was marked as closed, before it is cleared. -/
def shutting (c : Custody β) (meanwhile : List (QuietRequest β)) : Custody β :=
  { c with queue := c.queue.shut }.pass meanwhile

/-- Makes a call and notes what became of tasks. -/
def make (c : Custody β) : QueueCall β → Custody β
  | .request r => c.serve r
  | .switch kind meanwhile =>
    if c.queue.canSwitch kind then
      let c := (c.serve .interrupt).pass meanwhile
      { c with queue := (c.queue.refill kind c.clock).1 }
    else c
  | .close graceful meanwhile =>
    if c.queue.closed then c.serve (.close graceful)
    else
      let c := c.shutting meanwhile
      c.noteRemoval (c.queue.clear graceful c.clock)

/-- Makes calls in order. -/
def makeAll (c : Custody β) (calls : List (QueueCall β)) : Custody β := calls.foldl make c

/-- With nothing in between, an exchange is the request of that name. -/
theorem make_switch_nil (c : Custody β) (kind : StrategyKind) :
    c.make (.switch kind []) = c.serve (.switch kind) := by
  simp only [make, serve, TaskQueue.switch]
  split <;> rfl

/-- With nothing in between, a close is the request of that name. -/
theorem make_close_nil (c : Custody β) (graceful : Bool) :
    c.make (.close graceful []) = c.serve (.close graceful) := by
  simp only [make, serve, TaskQueue.close]
  split <;> rfl

/-! ## Requests at a closed queue -/

/-- Whether a ledger comes after another one without the queue being closed or opened, and without new
tasks if it is closed. -/
structure Passes (c c' : Custody β) : Prop where
  clock_le : c.clock ≤ c'.clock
  closed_eq : c'.queue.closed = c.queue.closed
  subset : c.queue.closed = true → c'.queue.tasks ⊆ c.queue.tasks

theorem Passes.trans {c'' : Custody β} (h : c.Passes c') (h' : c'.Passes c'') : c.Passes c'' where
  clock_le := Int.le_trans h.clock_le h'.clock_le
  closed_eq := h'.closed_eq.trans h.closed_eq
  subset hclosed _ ht := h.subset hclosed (h'.subset (h.closed_eq.trans hclosed) ht)

theorem Passes.of_handsOut {ts : List (Task β)} (hclock : c'.clock = c.clock)
    (hclosed : c'.queue.closed = c.queue.closed)
    (h : TaskQueue.HandsOut c.clock ts c.queue c'.queue) : c.Passes c' :=
  ⟨Int.le_of_eq hclock.symm, hclosed, fun _ => h.subset⟩

theorem Sound.passes_serve (hs : c.Sound capacity) (r : QuietRequest β) : c.Passes (c.serve r) := by
  obtain ⟨request, hquiet⟩ := r
  cases request with
  | push t =>
      refine ⟨by simp [Custody.serve], by simp [Custody.serve], fun hclosed => ?_⟩
      -- a closed queue refuses the task
      have hsame : (c.queue.push c.clock t).1 = c.queue := by
        rw [TaskQueue.push, if_pos hclosed]
      simp [Custody.serve, hsame]
  | tryPop worker =>
      exact .of_handsOut rfl (TaskQueue.took_closed _) (hs.queue.tryPop worker)
  | popBlocking worker deadline =>
      obtain ⟨hle, hout⟩ := hs.queue.popBlocking worker deadline
      exact ⟨hle, TaskQueue.popBlocking_closed worker deadline, fun _ => hout.subset⟩
  | enter worker =>
      have hlooks := hs.queue.enter worker
      exact .of_handsOut rfl hlooks.closed_eq hlooks.handsOut
  | look worker =>
      have hlooks := hs.queue.look worker
      exact .of_handsOut rfl hlooks.closed_eq hlooks.handsOut
  | sleep => exact .of_handsOut rfl rfl hs.queue.sleep
  | drain => exact .of_handsOut rfl rfl hs.queue.drain.1
  | advance d => exact ⟨Int.le_add_of_nonneg_right (Int.natCast_nonneg d), rfl, fun _ => fun _ => id⟩
  | _ => contradiction

theorem Sound.passes (hs : c.Sound capacity) (requests : List (QuietRequest β)) :
    c.Passes (c.pass requests) := by
  induction requests generalizing c with
  | nil => exact ⟨Int.le_refl _, rfl, fun _ _ => id⟩
  | cons r rest ih => exact (hs.passes_serve r).trans (ih (hs.serve r))

theorem calm_pass (hs : c.Sound capacity) (h : c.queue.Calm) (requests : List (QuietRequest β)) :
    (c.pass requests).queue.Calm := by
  induction requests generalizing c with
  | nil => exact h
  | cons r rest ih =>
      have hne : r.val ≠ .interrupt := by
        intro heq
        have hquiet := r.property
        simp [heq, QueueRequest.isQuiet] at hquiet
      exact ih (hs.serve r) (calm_serve hs.queue h hne)

/-! ## What a call keeps -/

/-- Whether waits are given up just if the queue is closed, and all that a closed queue holds is
ready. -/
structure Drainable (capacity : Nat) (c : Custody β) : Prop where
  sound : c.Sound capacity
  calm : c.queue.Calm
  isReady : c.queue.closed = true → ∀ t ∈ c.queue.tasks, t.isReady c.clock = true

theorem drainable_start (kind : StrategyKind) (capacity shards : Nat) (stealing : Bool)
    (now : Instant) : (start kind capacity shards stealing now : Custody β).Drainable capacity where
  sound := sound_start kind capacity shards stealing now
  calm := Strategy.isInterrupted_ofKind _ _ _ _
  isReady hclosed := by contradiction

/-- What is left in a closed queue stays ready. -/
theorem Drainable.pass (h : c.Drainable capacity) (requests : List (QuietRequest β)) :
    (c.pass requests).Drainable capacity where
  sound := h.sound.run _
  calm := calm_pass h.sound h.calm requests
  isReady hclosed t ht := by
    have hpasses := h.sound.passes requests
    rw [hpasses.closed_eq] at hclosed
    exact Task.isReady_mono hpasses.clock_le (h.isReady hclosed t (hpasses.subset hclosed ht))

theorem Sound.shutting (hs : c.Sound capacity) (meanwhile : List (QuietRequest β)) :
    (c.shutting meanwhile).Sound capacity :=
  (hs.withQueue hs.queue.shut).run _

theorem Sound.shutting_closed (hs : c.Sound capacity) (meanwhile : List (QuietRequest β)) :
    (c.shutting meanwhile).queue.closed = true :=
  ((hs.withQueue hs.queue.shut).passes meanwhile).closed_eq

theorem Sound.calm_shutting (hs : c.Sound capacity) (meanwhile : List (QuietRequest β)) :
    (c.shutting meanwhile).queue.Calm :=
  calm_pass (hs.withQueue hs.queue.shut) (Strategy.isInterrupted_interrupt c.queue.strategy) meanwhile

/-- An exchange ends with a strategy whose waits are not given up, and the queue is still open. -/
theorem Drainable.make_switch (h : c.Drainable capacity) (kind : StrategyKind)
    (meanwhile : List (QuietRequest β)) :
    (c.make (.switch kind meanwhile)).Drainable capacity ∧
      (c.make (.switch kind meanwhile)).queue.closed = c.queue.closed := by
  simp only [make]
  split
  · rename_i hcan
    have hs := h.sound.serve .interrupt
    have hopen : ((c.serve .interrupt).pass meanwhile).queue.closed = false :=
      (hs.passes meanwhile).closed_eq.trans (TaskQueue.canSwitch_iff.1 hcan).1
    have hsound := hs.run (meanwhile.map Subtype.val)
    obtain ⟨hout, -, hcalm, -⟩ := hsound.queue.refill kind
    refine ⟨⟨hsound.withQueue hout, hcalm.trans hopen.symm, fun hclosed => ?_⟩, ?_⟩
    · exact absurd (hopen.symm.trans hclosed) Bool.false_ne_true
    · exact hopen.trans (TaskQueue.canSwitch_iff.1 hcan).1.symm
  · exact ⟨h, rfl⟩

/-- A close leaves what is ready, or nothing. -/
theorem Drainable.make_close (h : c.Drainable capacity) (graceful : Bool)
    (meanwhile : List (QuietRequest β)) :
    (c.make (.close graceful meanwhile)).Drainable capacity ∧
      (c.make (.close graceful meanwhile)).queue.closed = true := by
  simp only [make]
  split
  · rename_i hclosed
    have hsame : c.queue.close graceful c.clock = (c.queue, []) := by
      rw [TaskQueue.close, if_pos hclosed]
    have hs := h.sound.serve (.close graceful)
    simp only [serve, hsame] at hs ⊢
    exact ⟨⟨hs, h.calm, h.isReady⟩, hclosed⟩
  · have hs := h.sound.shutting meanwhile
    have hcalm := h.sound.calm_shutting meanwhile
    have hclosed := h.sound.shutting_closed meanwhile
    refine ⟨⟨hs.noteRemoval (hs.queue.clear graceful), ?_, fun _ => ?_⟩, ?_⟩
    · exact (TaskQueue.clear_isInterrupted graceful).trans
        (hcalm.trans (TaskQueue.clear_closed graceful).symm)
    · exact hs.queue.isReady_of_clear graceful
    · exact (TaskQueue.clear_closed graceful).trans hclosed

theorem Drainable.make (h : c.Drainable capacity) (call : QueueCall β) :
    (c.make call).Drainable capacity ∧
      (c.make call).queue.closed = (c.queue.closed || call.isClose) := by
  cases call with
  | request r =>
      have hclosed := (h.sound.passes_serve r).closed_eq
      exact ⟨h.pass [r], by simpa [QueueCall.isClose, Custody.make] using hclosed⟩
  | switch kind meanwhile =>
      obtain ⟨hdrainable, hclosed⟩ := h.make_switch kind meanwhile
      exact ⟨hdrainable, by simpa [QueueCall.isClose] using hclosed⟩
  | close graceful meanwhile =>
      obtain ⟨hdrainable, hclosed⟩ := h.make_close graceful meanwhile
      exact ⟨hdrainable, by simpa [QueueCall.isClose] using hclosed⟩

theorem Drainable.makeAll (h : c.Drainable capacity) (calls : List (QueueCall β)) :
    (c.makeAll calls).Drainable capacity ∧
      (c.makeAll calls).queue.closed = (c.queue.closed || calls.any QueueCall.isClose) := by
  induction calls generalizing c with
  | nil => exact ⟨h, by simp [Custody.makeAll]⟩
  | cons call rest ih =>
      obtain ⟨hdrainable, hclosed⟩ := h.make call
      obtain ⟨hlast, heq⟩ := ih hdrainable
      refine ⟨hlast, heq.trans ?_⟩
      rw [hclosed, List.any_cons, Bool.or_assoc]

/-- A waiting worker that a close wakes up, and that finds nothing, leaves nothing behind, unless a
task gets ready during the close. -/
theorem Sound.size_close_of_look (hs : c.Sound capacity) (hopen : c.queue.closed = false)
    (graceful : Bool) (before after : List (QuietRequest β)) (worker : Nat)
    (hnone : ((c.shutting before).queue.look worker (c.shutting before).clock).2 = none)
    (hclock : (c.make (.close graceful (before ++ ⟨.look worker, rfl⟩ :: after))).clock =
      (c.shutting before).clock) :
    (c.make (.close graceful (before ++ ⟨.look worker, rfl⟩ :: after))).queue.size = 0 := by
  have hbefore := hs.shutting before
  have hclosed := hs.shutting_closed before
  have hint := (hs.calm_shutting before).trans hclosed
  have hlate := (hbefore.queue.look worker).not_isReady hint hnone
  -- the queue is closed already, so that what comes after the look adds nothing
  let requests : List (QuietRequest β) := ⟨.look worker, rfl⟩ :: after
  have hpasses := hbefore.passes requests
  have hafter : ((c.shutting before).pass requests).Sound capacity := hbefore.run _
  have hsplit : c.shutting (before ++ requests) = (c.shutting before).pass requests := by
    simp [Custody.shutting, Custody.pass, Custody.run]
  have hmake : c.make (.close graceful (before ++ requests)) =
      ((c.shutting before).pass requests).noteRemoval
        (((c.shutting before).pass requests).queue.clear graceful
          ((c.shutting before).pass requests).clock) := by
    simp only [Custody.make, hopen, Bool.false_eq_true, if_false, hsplit]
  rw [hmake] at hclock ⊢
  have hclear := hafter.queue.clear graceful
  refine hclear.sound.size_eq_zero_iff.2 (List.eq_nil_iff_forall_not_mem.2 fun t ht => ?_)
  have hready := hafter.queue.isReady_of_clear graceful t ht
  rw [show ((c.shutting before).pass requests).clock = (c.shutting before).clock from hclock,
    hlate t (hpasses.subset hclosed (hclear.subset ht))] at hready
  contradiction

/-! ## Runs -/

/-- Whether a queue tells waits that it is closed exactly if it is closed and exhausted. -/
structure EndsExhausted (closed : Bool) (c : Custody β) : Prop where
  closed_eq : c.queue.closed = closed
  /-- The waits are given up exactly if the queue is closed. -/
  isInterrupted_eq : c.queue.strategy.isInterrupted = closed
  /-- No wait at an open queue is told that it is closed. -/
  open_wait : closed = false → ∀ worker deadline,
    (c.queue.popBlocking worker deadline c.clock).2.2 ≠ .shutdown
  /-- Any wait at a closed queue takes a task, or it is told so because none is left. -/
  closed_wait : closed = true → ∀ worker deadline,
    TaskQueue.EndsAtOnce c.clock c.queue (c.queue.popBlocking worker deadline c.clock)
  /-- So does a wait that others come in between, at its first look. -/
  enter_eq_none : closed = true → ∀ worker,
    (c.queue.enter worker c.clock).2 = none ↔ c.queue.size = 0
  /-- So does it at any look that comes later. -/
  look_eq_none : closed = true → ∀ worker,
    (c.queue.look worker c.clock).2 = none ↔ c.queue.size = 0
  /-- A closed queue refuses tasks. -/
  push_eq : closed = true → ∀ t, c.queue.push c.clock t = (c.queue, .error .shuttingDown)
  /-- The strategy of a closed queue is not exchanged any more. -/
  switch_eq : closed = true → ∀ kind, c.queue.switch kind c.clock = (c.queue, none)
  /-- A queue is closed once. -/
  close_eq : closed = true → ∀ graceful, c.queue.close graceful c.clock = (c.queue, [])
  /-- A waiting worker that a close wakes up leaves nothing behind when it finds nothing. -/
  woken : closed = false → ∀ graceful before worker after,
    ((c.shutting before).queue.look worker (c.shutting before).clock).2 = none →
    (c.make (.close graceful (before ++ ⟨.look worker, rfl⟩ :: after))).clock =
      (c.shutting before).clock →
    (c.make (.close graceful (before ++ ⟨.look worker, rfl⟩ :: after))).queue.size = 0

theorem Drainable.endsExhausted (h : c.Drainable capacity) : c.EndsExhausted c.queue.closed where
  closed_eq := rfl
  isInterrupted_eq := h.calm
  open_wait hopen := TaskQueue.popBlocking_ne_shutdown hopen
  closed_wait hclosed := h.sound.queue.endsAtOnce h.calm hclosed (h.isReady hclosed)
  enter_eq_none hclosed worker :=
    (h.sound.queue.enter worker).eq_none_iff h.sound.queue (h.calm.trans hclosed) (h.isReady hclosed)
  look_eq_none hclosed worker :=
    (h.sound.queue.look worker).eq_none_iff h.sound.queue (h.calm.trans hclosed) (h.isReady hclosed)
  push_eq hclosed t := by rw [TaskQueue.push, if_pos hclosed]
  switch_eq hclosed kind := by simp [TaskQueue.switch, TaskQueue.canSwitch, hclosed]
  close_eq hclosed graceful := by rw [TaskQueue.close, if_pos hclosed]
  woken hopen graceful before worker after :=
    h.sound.size_close_of_look hopen graceful before after worker

/-- However calls to a queue follow each other, and whatever comes in between an exchange or a close,
waits are told that the queue is closed exactly if one of the calls closed it and nothing is left. -/
theorem makeAll_endsExhausted (kind : StrategyKind) (capacity shards : Nat) (stealing : Bool)
    (now : Instant) (calls : List (QueueCall β)) :
    ((start kind capacity shards stealing now).makeAll calls).EndsExhausted
      (calls.any QueueCall.isClose) := by
  obtain ⟨hdrainable, hclosed⟩ := (drainable_start kind capacity shards stealing now).makeAll calls
  have hends := hdrainable.endsExhausted
  rw [hclosed] at hends
  exact hends

-- at a closed queue a worker takes from another shard even where it may not otherwise
example : (((start .sharded 4 2 false 0).makeAll
    [.request ⟨.push ⟨1, .normal, 0, ()⟩, rfl⟩, .close true []]).queue.popBlocking 1 none
      0).2.2.task?.map Task.id = some 1 := by decide

end Custody

end Dispatch
