import Dispatch.Proofs.Queue.Bounded
import Mathlib.Data.List.Nodup
/-!
# Where the tasks of a queue are

A run of a queue is a sequence of requests with the clock moving on in between. The ledger of a run
notes what became of each task that was offered: it was refused, or it is held, or one of the pops
or removals handed it out. The main statement says that each accepted task is in exactly one of
these places at any time, whatever the requests were.
-/

namespace Dispatch

/-- What can be asked of a queue, with the steps of a wait that other requests come in between. -/
inductive QueueRequest (β : Type) where
  | push (t : Task β)
  /-- Takes a task that is ready now for a worker. -/
  | tryPop (worker : Nat)
  /-- Waits for a task, with nobody else at work. -/
  | popBlocking (worker : Nat) (deadline : Option Instant)
  /-- Begins a wait that others may interrupt. -/
  | enter (worker : Nat)
  | look (worker : Nat)
  | sleep
  /-- Has all such waits given up, as an exchange and a close begin by doing. -/
  | interrupt
  | switch (kind : StrategyKind)
  | close (graceful : Bool)
  | drain
  | advance (d : Duration)

/-- The task that a request offers to the queue. -/
def QueueRequest.offered? {β : Type} : QueueRequest β → Option (Task β)
  | push t => some t
  | _ => none

/-- A queue with what became of the tasks that were offered to it, the newest first. -/
structure Custody (β : Type) where
  clock : Instant
  queue : TaskQueue β
  accepted : List (Task β) := []
  refused : List (Task β) := []
  /-- The tasks that were returned by pops and waits, one entry for each of them. -/
  popped : List (Task β) := []
  /-- The lists that were returned by closes and drains. -/
  removed : List (List (Task β)) := []

namespace Custody

variable {β : Type}

/-- The ledger of a new queue. -/
def start (kind : StrategyKind) (capacity shards : Nat) (stealing : Bool) (now : Instant) :
    Custody β where
  clock := now
  queue := .ofKind kind capacity shards stealing

/-- Notes how the queue answered the offer of a task. -/
def noteOffer (c : Custody β) (t : Task β) : TaskQueue β × Except Fault Unit → Custody β
  | (q, .ok ()) => { c with queue := q, accepted := t :: c.accepted }
  | (q, .error _) => { c with queue := q, refused := t :: c.refused }

/-- Notes what a pop returned. -/
def noteLook (c : Custody β) : TaskQueue β × Option (Task β) → Custody β
  | (q, found) => { c with queue := q, popped := found.toList ++ c.popped }

/-- Notes the list that a close or a drain returned. -/
def noteRemoval (c : Custody β) : TaskQueue β × List (Task β) → Custody β
  | (q, ts) => { c with queue := q, removed := ts :: c.removed }

/-- Serves a request and notes what became of tasks. -/
def serve (c : Custody β) : QueueRequest β → Custody β
  | .push t => c.noteOffer t (c.queue.push c.clock t)
  | .tryPop worker => c.noteLook (c.queue.tryPop worker c.clock)
  | .popBlocking worker deadline =>
    let r := c.queue.popBlocking worker deadline c.clock
    { c with clock := r.2.1 }.noteLook (r.1, r.2.2.task?)
  | .enter worker => c.noteLook (c.queue.enter worker c.clock)
  | .look worker => c.noteLook (c.queue.look worker c.clock)
  | .sleep => { c with queue := c.queue.sleep }
  | .interrupt => { c with queue := c.queue.interrupt }
  | .switch kind => { c with queue := (c.queue.switch kind c.clock).1 }
  | .close graceful => c.noteRemoval (c.queue.close graceful c.clock)
  | .drain => c.noteRemoval c.queue.drain
  | .advance d => { c with clock := c.clock + d }

/-- Serves requests in order. -/
def run (c : Custody β) (requests : List (QueueRequest β)) : Custody β := requests.foldl serve c

/-- In how many places the task of a number is: how often the queue holds it, how often a pop
returned it, and how often it is in the lists of closes and drains. -/
def places (c : Custody β) (id : Nat) : Nat :=
  (c.queue.tasks.map Task.id).count id + (c.popped.map Task.id).count id +
    sumOf (fun ts => (ts.map Task.id).count id) c.removed

/-- Whether the ledger of a queue of a capacity is balanced. -/
structure Balanced (capacity : Nat) (c : Custody β) : Prop where
  /-- An accepted task is in exactly one place. -/
  accepted_places : ∀ t ∈ c.accepted, c.places t.id = 1
  /-- A refused task is nowhere. -/
  refused_places : ∀ t ∈ c.refused, c.places t.id = 0
  /-- What is held and what was handed out are the accepted tasks as they were offered. -/
  contents : c.accepted.Perm (c.queue.tasks ++ c.popped ++ c.removed.flatten)
  /-- The size is the number of tasks that are held. -/
  size_eq : c.queue.size = c.queue.tasks.length
  /-- The size is not more than the capacity. -/
  size_le : c.queue.size ≤ capacity
  /-- An exchange of the strategy keeps the size. -/
  switch_size : ∀ kind, (c.queue.switch kind c.clock).1.size = c.queue.size
  /-- An exchange of the strategy keeps the tasks that are held. -/
  switch_tasks : ∀ kind, (c.queue.switch kind c.clock).1.tasks.Perm c.queue.tasks
  /-- An exchange takes place exactly if the queue is open and the strategy is another one; it then
  tells the size. -/
  switch_answer : ∀ kind, (c.queue.switch kind c.clock).2 =
    if c.queue.closed = false ∧ c.queue.kind ≠ kind then some c.queue.size else none
  /-- An exchange takes as many tasks out of the old strategy, and counts as many in the new one,
  as the depth says. -/
  refillCounts_eq : ∀ kind,
    c.queue.interrupt.refillCounts kind c.clock = (c.queue.size, c.queue.size)

/-! ## What a request keeps -/

/-- Whether the queue of a ledger is sound and holds what was accepted and not handed out. -/
structure Sound (capacity : Nat) (c : Custody β) : Prop where
  queue : c.queue.Sound c.clock
  contents : c.accepted.Perm (c.queue.tasks ++ c.popped ++ c.removed.flatten)
  capacity_eq : c.queue.capacity = capacity

variable {capacity : Nat} {c : Custody β}

theorem sound_start (kind : StrategyKind) (capacity shards : Nat) (stealing : Bool)
    (now : Instant) : (start kind capacity shards stealing now : Custody β).Sound capacity :=
  ⟨TaskQueue.sound_ofKind kind capacity shards stealing, by simp [start], rfl⟩

/-- Whatever a queue hands out is noted as popped or as removed. -/
theorem Sound.noteLook (hs : c.Sound capacity) {r : TaskQueue β × Option (Task β)}
    (h : TaskQueue.HandsOut c.clock r.2.toList c.queue r.1) : (c.noteLook r).Sound capacity := by
  refine ⟨h.sound, ?_, h.capacity_eq.trans hs.capacity_eq⟩
  show c.accepted.Perm (r.1.tasks ++ (r.2.toList ++ c.popped) ++ c.removed.flatten)
  refine hs.contents.trans (List.Perm.append_right _ ?_)
  rw [← List.append_assoc]
  exact (h.tasks_perm.trans List.perm_append_comm).append_right _

theorem Sound.noteRemoval (hs : c.Sound capacity) {r : TaskQueue β × List (Task β)}
    (h : TaskQueue.HandsOut c.clock r.2 c.queue r.1) : (c.noteRemoval r).Sound capacity := by
  refine ⟨h.sound, ?_, h.capacity_eq.trans hs.capacity_eq⟩
  show c.accepted.Perm (r.1.tasks ++ c.popped ++ (r.2 ++ c.removed.flatten))
  refine hs.contents.trans ?_
  rw [← List.append_assoc]
  refine List.Perm.append_right _ ((h.tasks_perm.append_right _).trans ?_)
  rw [List.append_assoc]
  exact List.perm_append_comm

theorem Sound.withQueue (hs : c.Sound capacity) {q : TaskQueue β}
    (h : TaskQueue.HandsOut c.clock [] c.queue q) : { c with queue := q }.Sound capacity :=
  ⟨h.sound, hs.contents.trans ((h.tasks_perm.append_right _).append_right _),
    h.capacity_eq.trans hs.capacity_eq⟩

theorem Sound.withClock (hs : c.Sound capacity) {now : Instant} (hle : c.clock ≤ now) :
    { c with clock := now }.Sound capacity :=
  ⟨hs.queue.mono hle, hs.contents, hs.capacity_eq⟩

theorem Sound.push (hs : c.Sound capacity) (t : Task β) :
    (c.noteOffer t (c.queue.push c.clock t)).Sound capacity := by
  have hcapacity : (c.queue.push c.clock t).1.capacity = capacity :=
    (hs.queue.sameSettings_push t).capacity_eq.trans hs.capacity_eq
  cases hpush : c.queue.push c.clock t with
  | mk q answer =>
      rw [hpush] at hcapacity
      cases answer with
      | error fault =>
          have hq := TaskQueue.push_of_error (q := c.queue) (congrArg Prod.snd hpush)
          rw [hpush] at hq
          subst hq
          exact ⟨hs.queue, hs.contents, hcapacity⟩
      | ok =>
          have hq := hs.queue.push_of_ok (congrArg Prod.snd hpush)
          rw [hpush] at hq
          refine ⟨hq.1, ?_, hcapacity⟩
          exact (hs.contents.cons t).trans ((hq.2.symm.append_right _).append_right _)

/-- Every request keeps the ledger sound. -/
theorem Sound.serve (hs : c.Sound capacity) (request : QueueRequest β) :
    (c.serve request).Sound capacity := by
  cases request with
  | push t => exact hs.push t
  | tryPop worker => exact hs.noteLook (hs.queue.tryPop worker)
  | popBlocking worker deadline =>
      obtain ⟨hle, hout⟩ := hs.queue.popBlocking worker deadline
      let r := c.queue.popBlocking worker deadline c.clock
      exact (hs.withClock hle).noteLook (r := (r.1, r.2.2.task?)) hout
  | enter worker => exact hs.noteLook (hs.queue.enter worker).handsOut
  | look worker => exact hs.noteLook (hs.queue.look worker).handsOut
  | sleep => exact hs.withQueue hs.queue.sleep
  | interrupt => exact hs.withQueue hs.queue.interrupt
  | switch kind => exact hs.withQueue (hs.queue.switch kind).1
  | close graceful => exact hs.noteRemoval (hs.queue.close graceful)
  | drain => exact hs.noteRemoval hs.queue.drain.1
  | advance d => exact hs.withClock (Int.le_add_of_nonneg_right (Int.natCast_nonneg d))

theorem Sound.run (hs : c.Sound capacity) (requests : List (QueueRequest β)) :
    (c.run requests).Sound capacity := by
  induction requests generalizing c with
  | nil => exact hs
  | cons request rest ih => exact ih (hs.serve request)

/-- A request adds the task that it offers to those with an answer. -/
theorem serve_answered (c : Custody β) (request : QueueRequest β) :
    ((c.serve request).accepted ++ (c.serve request).refused).Perm
      (request.offered?.toList ++ (c.accepted ++ c.refused)) := by
  cases request with
  | push t =>
      show ((c.noteOffer t (c.queue.push c.clock t)).accepted ++
        (c.noteOffer t (c.queue.push c.clock t)).refused).Perm (t :: (c.accepted ++ c.refused))
      cases c.queue.push c.clock t with
      | mk q answer =>
          cases answer with
          | error fault => exact List.perm_middle
          | ok => exact List.Perm.refl _
  | _ => exact List.Perm.refl _

/-- Every task that is offered in a run gets an answer. -/
theorem run_answered (c : Custody β) (requests : List (QueueRequest β)) :
    ((c.run requests).accepted ++ (c.run requests).refused).Perm
      (requests.filterMap QueueRequest.offered? ++ (c.accepted ++ c.refused)) := by
  induction requests generalizing c with
  | nil => exact List.Perm.refl _
  | cons request rest ih =>
      have hone := (serve_answered c request).append_left (rest.filterMap QueueRequest.offered?)
      have hall := (ih (c.serve request)).trans hone
      cases hoffer : request.offered? with
      | none =>
          rw [List.filterMap_cons, hoffer]
          rw [hoffer] at hall
          exact hall
      | some t =>
          simp only [List.filterMap_cons, hoffer, List.cons_append]
          rw [hoffer] at hall
          exact hall.trans List.perm_middle

/-! ## Each task in one place -/

/-- The number of places of a task is the number of times it is among what is held and what was
handed out. -/
theorem places_eq_count (c : Custody β) (id : Nat) :
    c.places id = ((c.queue.tasks ++ c.popped ++ c.removed.flatten).map Task.id).count id := by
  rw [List.map_append, List.map_append, List.count_append, List.count_append, places,
    sumOf_count_map]

theorem Sound.places_eq (hs : c.Sound capacity) (id : Nat) :
    c.places id = (c.accepted.map Task.id).count id := by
  rw [places_eq_count]
  exact ((hs.contents.map Task.id).count_eq id).symm

/-- A sound ledger in which no two tasks with an answer have the same number is balanced. -/
theorem Sound.balanced (hs : c.Sound capacity)
    (hdistinct : ((c.accepted ++ c.refused).map Task.id).Nodup) : c.Balanced capacity := by
  rw [List.map_append, List.nodup_append] at hdistinct
  obtain ⟨haccepted, -, hdisjoint⟩ := hdistinct
  refine ⟨fun t ht => ?_, fun t ht => ?_, hs.contents, hs.queue.depth_eq,
    hs.capacity_eq ▸ hs.queue.depth_le, fun kind => (hs.queue.switch kind).2.1,
    fun kind => (hs.queue.switch kind).1.tasks_perm.symm, fun kind => ?_, fun kind => ?_⟩
  · rw [hs.places_eq]
    exact List.count_eq_one_of_mem haccepted (List.mem_map_of_mem ht)
  · rw [hs.places_eq]
    exact List.count_eq_zero_of_not_mem fun hmem =>
      hdisjoint _ hmem _ (List.mem_map_of_mem ht) rfl
  · rw [(hs.queue.switch kind).2.2]
    simp only [TaskQueue.canSwitch_iff]
    rfl
  · exact (hs.queue.interrupt.sound.refill kind).2.2.2

/-- However requests to a queue follow each other, each accepted task is at any time in exactly one
place: the queue holds it, or one pop returned it, or it is in one list of a close or a drain; a
refused task is in none. -/
theorem run_balanced (kind : StrategyKind) (capacity shards : Nat) (stealing : Bool)
    (now : Instant) (requests : List (QueueRequest β))
    (hdistinct : ((requests.filterMap QueueRequest.offered?).map Task.id).Nodup) :
    ((start kind capacity shards stealing now).run requests).Balanced capacity := by
  refine ((sound_start kind capacity shards stealing now).run requests).balanced ?_
  have hperm := run_answered (start kind capacity shards stealing now) requests
  rw [show (start kind capacity shards stealing now : Custody β).accepted ++
    (start kind capacity shards stealing now : Custody β).refused = [] from rfl,
    List.append_nil] at hperm
  exact (hperm.map Task.id).nodup_iff.2 hdistinct

/-- Requests in which a full queue refuses the third task, the first and the fourth one are taken,
and the second one moves to another strategy and is removed by the close. -/
def mixedRequests : List (QueueRequest Unit) :=
  [.push ⟨1, .normal, 0, ()⟩, .push ⟨2, .high, 60, ()⟩, .push ⟨3, .critical, 0, ()⟩, .tryPop 1,
    .tryPop 0, .switch .locked, .advance 5, .push ⟨4, .low, 2, ()⟩, .popBlocking 1 none,
    .close true, .drain]

theorem mixedRequests_balanced :
    ((mixedRequests.filterMap QueueRequest.offered?).map Task.id).Nodup ∧
      ((start .sharded 2 2 false 0).run mixedRequests).Balanced 2 :=
  ⟨by decide, run_balanced .sharded 2 2 false 0 mixedRequests (by decide)⟩

end Custody

end Dispatch
