import Dispatch.Proofs.Queue.Alike
import Dispatch.Proofs.Queue.Custody
import Mathlib.Data.Multiset.Defs
/-!
# What callers can see of a queue

Requests return answers, and the size, the fill level and the state of a queue can be looked at between
them. With one shard, whatever callers see is independent of the strategy, and of the requests to
exchange it.
-/

namespace Dispatch

/-- Lists that are equal but for items that are left out can be gone through together: items to be left
out are passed one by one, on either side, and the others in pairs. -/
theorem filter_eq_induction {γ : Type} {keeps : γ → Bool} {motive : List γ → List γ → Prop}
    (nil : motive [] [])
    (left : ∀ a l l', keeps a = false → motive l l' → motive (a :: l) l')
    (right : ∀ a l l', keeps a = false → motive l l' → motive l (a :: l'))
    (both : ∀ a l l', keeps a = true → motive l l' → motive (a :: l) (a :: l'))
    {l l' : List γ} (h : l.filter keeps = l'.filter keeps) : motive l l' := by
  induction l generalizing l' with
  | nil =>
      induction l' with
      | nil => exact nil
      | cons b rest' ih =>
          have hb : keeps b = false := by
            by_contra hkeeps
            simp [hkeeps] at h
          exact right b [] rest' hb (ih (by simpa [hb] using h))
  | cons a rest ih =>
      cases ha : keeps a with
      | false => exact left a rest l' ha (ih (by simpa [ha] using h))
      | true =>
          rw [List.filter_cons_of_pos ha] at h
          -- what the other list has in front of the same item is left out
          induction l' with
          | nil => simp at h
          | cons b rest' ih' =>
              cases hb : keeps b with
              | false => exact right b _ rest' hb (ih' (by simpa [hb] using h))
              | true =>
                  rw [List.filter_cons_of_pos hb] at h
                  obtain ⟨rfl, hrest⟩ := List.cons.inj h
                  exact both a rest rest' ha (ih hrest)

variable {β : Type}

/-- Whether a request asks for an exchange of the strategy. -/
def QueueRequest.isSwitch : QueueRequest β → Bool
  | switch _ => true
  | _ => false

theorem QueueRequest.eq_switch {request : QueueRequest β} (h : request.isSwitch = true) :
    ∃ kind, request = .switch kind := by
  cases request with
  | switch kind => exact ⟨kind, rfl⟩
  | _ => contradiction

/-- What a request to a queue returns. What a close or a drain removes is a set of tasks. -/
inductive Answer (β : Type) where
  | pushed (answer : Except Fault Unit)
  | popped (found : Option (Task β))
  | waited (ended : Pop β)
  | removed (ts : Multiset (Task β))
  | nothing

/-- What can be seen when a request has been served. -/
structure Sight (β : Type) where
  answer : Answer β
  clock : Instant
  size : Nat
  capacity : Nat
  utilization : Float
  closed : Bool

/-! ## Waits that are given up -/

namespace TaskQueue

variable {q : TaskQueue β} {now : Instant}

theorem Calm.push (h : q.Calm) (t : Task β) : (q.push now t).1.Calm := by
  rw [Calm, push_isInterrupted, push_closed]
  exact h

theorem Calm.tryPop (h : q.Calm) (hs : q.Sound now) (worker : Nat) :
    (q.tryPop worker now).1.Calm := by
  unfold TaskQueue.tryPop
  rw [Calm, took_strategy, took_closed, (hs.strategy.tryPop worker).isInterrupted_eq]
  exact h

theorem Calm.looks (h : q.Calm) {r : TaskQueue β × Option (Task β)} (hr : Looks now q r) :
    r.1.Calm := by
  rw [Calm, hr.isInterrupted_eq, hr.closed_eq]
  exact h

theorem Calm.popBlocking (h : q.Calm) (hs : q.Sound now) (worker : Nat)
    (deadline : Option Instant) : (q.popBlocking worker deadline now).1.Calm := by
  have hflag := (hs.strategy.popWait worker deadline).yields.isInterrupted_eq
  rw [Calm, popBlocking_closed, ← h, ← hflag]
  unfold TaskQueue.popBlocking
  split <;> simp [*]

/-- A new strategy does not have its waits given up, and an exchange takes place at open queues only. -/
theorem Calm.switch (h : q.Calm) (hs : q.Sound now) (kind : StrategyKind) :
    (q.switch kind now).1.Calm := by
  rw [Calm, switch_closed]
  unfold TaskQueue.switch
  split
  · rename_i hcan
    rw [(canSwitch_iff.1 hcan).1]
    exact (hs.interrupt.sound.refill kind).2.2.1
  · exact h

theorem Calm.close (h : q.Calm) (graceful : Bool) : (q.close graceful now).1.Calm := by
  have hshut : q.shut.Calm := Strategy.isInterrupted_interrupt q.strategy
  unfold TaskQueue.close
  split
  · exact h
  · rw [Calm, clear_isInterrupted, clear_closed]
    exact hshut

end TaskQueue

/-! ## Runs -/

namespace Custody

variable {c c' : Custody β} {request : QueueRequest β}

@[simp] theorem noteOffer_queue (t : Task β) (r : TaskQueue β × Except Fault Unit) :
    (c.noteOffer t r).queue = r.1 := by
  obtain ⟨q, answer⟩ := r
  cases answer <;> rfl

@[simp] theorem noteOffer_clock (t : Task β) (r : TaskQueue β × Except Fault Unit) :
    (c.noteOffer t r).clock = c.clock := by
  obtain ⟨q, answer⟩ := r
  cases answer <;> rfl

/-- What a request returns. -/
def answer (c : Custody β) : QueueRequest β → Answer β
  | .push t => .pushed (c.queue.push c.clock t).2
  | .tryPop worker => .popped (c.queue.tryPop worker c.clock).2
  | .popBlocking worker deadline => .waited (c.queue.popBlocking worker deadline c.clock).2.2
  | .enter worker => .popped (c.queue.enter worker c.clock).2
  | .look worker => .popped (c.queue.look worker c.clock).2
  | .close graceful => .removed (c.queue.close graceful c.clock).2
  | .drain => .removed c.queue.drain.2
  | _ => .nothing

/-- What can be seen when a request has been served. -/
def sight (c : Custody β) (request : QueueRequest β) : Sight β where
  answer := c.answer request
  clock := (c.serve request).clock
  size := (c.serve request).queue.size
  capacity := (c.serve request).queue.capacity
  utilization := (c.serve request).queue.utilization
  closed := (c.serve request).queue.closed

/-- What can be seen in a run, request by request. At an exchange of the strategy nobody looks. -/
def observe (c : Custody β) : List (QueueRequest β) → List (Sight β)
  | [] => []
  | request :: rest =>
    if request.isSwitch then (c.serve request).observe rest
    else c.sight request :: (c.serve request).observe rest

/-- Whether two runs have come to the same instant with queues that are alike. -/
structure Alike (c c' : Custody β) : Prop where
  clock_eq : c'.clock = c.clock
  queue : c.queue.Alike c.clock c'.queue
  calm : c.queue.Calm
  calm' : c'.queue.Calm

theorem calm_serve (hs : c.queue.Sound c.clock) (h : c.queue.Calm) (hne : request ≠ .interrupt) :
    (c.serve request).queue.Calm := by
  cases request with
  | push t =>
      simp only [serve, noteOffer_queue]
      exact h.push t
  | tryPop worker => exact h.tryPop hs worker
  | popBlocking worker deadline => exact h.popBlocking hs worker deadline
  | enter worker => exact h.looks (hs.enter worker)
  | look worker => exact h.looks (hs.look worker)
  | sleep => exact (Strategy.isInterrupted_sleep _).trans h
  | interrupt => contradiction
  | switch kind => exact h.switch hs kind
  | close graceful => exact h.close graceful
  | drain => exact (Strategy.isInterrupted_drain _).trans h
  | advance d => exact h

/-- Every request but an exchange of the strategy has the same answer in both runs, and leaves them
alike. -/
theorem Alike.serve (h : c.Alike c') (hkeeps : request.isSwitch = false)
    (hne : request ≠ .interrupt)
    (hfresh : ∀ t ∈ request.offered?, t.id ∉ c.queue.tasks.map Task.id) :
    c'.answer request = c.answer request ∧ (c.serve request).Alike (c'.serve request) := by
  have hcalm := calm_serve h.queue.sound h.calm hne
  have hcalm' := calm_serve (c := c') (h.clock_eq ▸ h.queue.sound') h.calm' hne
  have hqueue := h.queue
  cases request with
  | push t =>
      obtain ⟨hanswer, halike⟩ := hqueue.push (hfresh t rfl)
      simp only [Custody.serve, answer, h.clock_eq] at hcalm hcalm' ⊢
      refine ⟨congrArg Answer.pushed hanswer, ?_, ?_, hcalm, hcalm'⟩
      · simpa using h.clock_eq
      · simpa using halike
  | tryPop worker =>
      obtain ⟨hfound, halike⟩ := hqueue.tryPop worker
      rw [Custody.serve, Custody.serve, answer, answer, h.clock_eq] at *
      exact ⟨congrArg Answer.popped hfound, h.clock_eq, halike, hcalm, hcalm'⟩
  | popBlocking worker deadline =>
      obtain ⟨hend, halike⟩ := hqueue.popBlocking h.calm h.calm' worker deadline
      rw [Custody.serve, Custody.serve, answer, answer, h.clock_eq] at *
      exact ⟨congrArg (fun r => Answer.waited r.2) hend, congrArg Prod.fst hend, halike, hcalm, hcalm'⟩
  | enter worker =>
      obtain ⟨hfound, halike⟩ := hqueue.enter worker
      rw [Custody.serve, Custody.serve, answer, answer, h.clock_eq] at *
      exact ⟨congrArg Answer.popped hfound, h.clock_eq, halike, hcalm, hcalm'⟩
  | look worker =>
      obtain ⟨hfound, halike⟩ := hqueue.look worker
      rw [Custody.serve, Custody.serve, answer, answer, h.clock_eq] at *
      exact ⟨congrArg Answer.popped hfound, h.clock_eq, halike, hcalm, hcalm'⟩
  | sleep =>
      exact ⟨rfl, h.clock_eq, (hqueue.sleep_right.symm.sleep_right).symm, hcalm, hcalm'⟩
  | interrupt => contradiction
  | switch kind => contradiction
  | close graceful =>
      obtain ⟨hremoved, halike⟩ := hqueue.close graceful
      rw [Custody.serve, Custody.serve, answer, answer, h.clock_eq] at *
      exact ⟨congrArg Answer.removed (Multiset.coe_eq_coe.2 hremoved.symm), h.clock_eq, halike,
        hcalm, hcalm'⟩
  | drain =>
      obtain ⟨hremoved, halike⟩ := hqueue.drain
      exact ⟨congrArg Answer.removed (Multiset.coe_eq_coe.2 hremoved.symm), h.clock_eq, halike,
        hcalm, hcalm'⟩
  | advance d =>
      refine ⟨rfl, congrArg (· + (d : Int)) h.clock_eq, hqueue.mono ?_, hcalm, hcalm'⟩
      exact Int.le_add_of_nonneg_right (Int.natCast_nonneg d)

/-- An exchange of the strategy in one run leaves both alike. -/
theorem Alike.switch_right (h : c.Alike c') (kind : StrategyKind) : c.Alike (c'.serve (.switch kind)) where
  clock_eq := h.clock_eq
  queue := by
    have halike := h.queue.switch_right kind
    rwa [← h.clock_eq] at halike ⊢
  calm := h.calm
  calm' := calm_serve (h.clock_eq ▸ h.queue.sound') h.calm' (by simp)

theorem Alike.symm (h : c.Alike c') : c'.Alike c where
  clock_eq := h.clock_eq.symm
  queue := h.clock_eq ▸ h.queue.symm
  calm := h.calm'
  calm' := h.calm

/-- Alike runs show the same when a request has been served. -/
theorem Alike.sight_eq (hanswer : c'.answer request = c.answer request)
    (h : (c.serve request).Alike (c'.serve request)) : c'.sight request = c.sight request := by
  have hsize : (c'.serve request).queue.depth = (c.serve request).queue.depth := h.queue.depth_eq
  simp only [sight, TaskQueue.size, TaskQueue.utilization, hanswer, h.clock_eq, hsize,
    h.queue.capacity_eq, h.queue.closed_eq]

/-- The task that a request offers is not held yet, if it has a number of its own. -/
theorem Sound.fresh {capacity : Nat} (hs : c.Sound capacity) {later : List (Task β)}
    (hdistinct : ((request.offered?.toList ++ later ++ (c.accepted ++ c.refused)).map Task.id).Nodup) :
    ∀ t ∈ request.offered?, t.id ∉ c.queue.tasks.map Task.id := by
  intro t ht hheld
  obtain ⟨u, hu, hid⟩ := List.mem_map.1 hheld
  have haccepted : u ∈ c.accepted := hs.contents.mem_iff.2 (by simp [hu])
  rw [show request.offered?.toList = [t] by rw [ht]; rfl] at hdistinct
  obtain ⟨hnot, -⟩ := List.nodup_cons.1 hdistinct
  refine hnot (hid ▸ List.mem_map_of_mem ?_)
  exact List.mem_append_right _ (List.mem_append_left _ haccepted)

/-- Runs of alike queues show the same, wherever the strategy is exchanged in either of them. -/
theorem observe_eq_of_alike {capacity : Nat} {requests requests' : List (QueueRequest β)}
    (hsame : requests.filter (!·.isSwitch) = requests'.filter (!·.isSwitch)) (c c' : Custody β)
    (hs : c.Sound capacity) (h : c.Alike c') (hcalls : .interrupt ∉ requests)
    (hdistinct : ((requests.filterMap QueueRequest.offered? ++
      (c.accepted ++ c.refused)).map Task.id).Nodup) :
    c'.observe requests' = c.observe requests := by
  refine filter_eq_induction (motive := fun requests requests' => ∀ c c' : Custody β,
    c.Sound capacity → c.Alike c' → .interrupt ∉ requests →
      ((requests.filterMap QueueRequest.offered? ++
        (c.accepted ++ c.refused)).map Task.id).Nodup →
      c'.observe requests' = c.observe requests) ?nil ?left ?right ?both hsame c c' hs h hcalls
    hdistinct
  case nil => exact fun _ _ _ _ _ _ => rfl
  case left =>
      intro request rest rest' hswitch ih c c' hs h hcalls hdistinct
      obtain ⟨kind, rfl⟩ := QueueRequest.eq_switch (by simpa using hswitch)
      exact ih (c.serve (.switch kind)) c' (hs.serve _) (h.symm.switch_right kind).symm
        (fun hmem => hcalls (List.mem_cons_of_mem _ hmem)) hdistinct
  case right =>
      intro request rest rest' hswitch ih c c' hs h hcalls hdistinct
      obtain ⟨kind, rfl⟩ := QueueRequest.eq_switch (by simpa using hswitch)
      exact ih c (c'.serve (.switch kind)) hs (h.switch_right kind) hcalls hdistinct
  case both =>
      intro request rest rest' hkeeps ih c c' hs h hcalls hdistinct
      have hkeeps : request.isSwitch = false := by simpa using hkeeps
      have hoffers : (request :: rest).filterMap QueueRequest.offered? =
          request.offered?.toList ++ rest.filterMap QueueRequest.offered? := by
        rw [List.filterMap_cons]
        split <;> simp [*]
      rw [hoffers] at hdistinct
      obtain ⟨hanswer, halike⟩ := h.serve hkeeps (fun heq => hcalls (heq ▸ List.mem_cons_self))
        (hs.fresh hdistinct)
      have hrest := ih (c.serve request) (c'.serve request) (hs.serve request) halike
        (fun hmem => hcalls (List.mem_cons_of_mem _ hmem)) (by
          refine (List.Perm.map Task.id ?_).nodup_iff.1 hdistinct
          refine (List.perm_append_comm.append_right _).trans ?_
          rw [List.append_assoc]
          exact (serve_answered c request).symm.append_left _)
      simp only [observe, hkeeps, Bool.false_eq_true, if_false]
      rw [halike.sight_eq hanswer, hrest]

/-- With one shard, what callers see of a queue depends neither on the strategy nor on when it is
exchanged. -/
theorem observe_eq (kind kind' : StrategyKind) (capacity : Nat) (stealing stealing' : Bool)
    (now : Instant) {requests requests' : List (QueueRequest β)}
    (hsame : requests.filter (!·.isSwitch) = requests'.filter (!·.isSwitch))
    (hcalls : .interrupt ∉ requests)
    (hdistinct : ((requests.filterMap QueueRequest.offered?).map Task.id).Nodup) :
    (start kind capacity 1 stealing now).observe requests =
      (start kind' capacity 1 stealing' now).observe requests' := by
  refine (observe_eq_of_alike hsame _ _ (sound_start kind capacity 1 stealing now) ?_ hcalls
    (by simpa [start] using hdistinct)).symm
  exact ⟨rfl, TaskQueue.alike_ofKind kind kind' capacity stealing stealing',
    Strategy.isInterrupted_ofKind _ _ _ _, Strategy.isInterrupted_ofKind _ _ _ _⟩

end Custody

end Dispatch
