import Dispatch.Proofs.Queue.Stock
/-!
# Counters that are never lowered too far

The counters of a sharded backlog are lowered by hand wherever tasks leave a part of it. The operations
are defined here once more, with each of these subtractions checked: they fail where a counter is smaller
than what is taken off it. In a sound backlog no check fails, and the result is the same.
-/

namespace Dispatch

variable {β : Type} {now later : Instant}

/-- A counter with an amount taken off it, unless the counter is smaller. -/
def lower? (counter amount : Nat) : Option Nat :=
  if amount ≤ counter then some (counter - amount) else none

theorem lower?_of_le {counter amount : Nat} (h : amount ≤ counter) :
    lower? counter amount = some (counter - amount) := if_pos h

namespace Sharded

variable {q : Sharded β}

def popShard? (q : Sharded β) (index : Nat) : Option (Sharded β × Option (Task β)) :=
  match q.shards[index]? with
  | none => some (q, none)
  | some shard =>
    if shard.size = 0 then some (q, none)
    else
      match shard.tasks with
      | [] => some (q.record 1, none)
      | t :: rest => do
        let size ← lower? shard.size 1
        let readyCount ← lower? q.readyCount 1
        some ({ q.record 1 with
          shards := q.shards.set index { tasks := rest, size := size }
          readyCount := readyCount }, some t)

def takeDue? (q : Sharded β) (now : Instant) : Option (Sharded β × List (Task β)) := do
  let due := q.delayed.takeWhile (·.isReady now)
  let delayedCount ← lower? q.delayedCount due.length
  some ({ q with
    delayed := q.delayed.dropWhile (·.isReady now)
    delayedCount := delayedCount }, due)

def promote? (q : Sharded β) (worker : Nat) (now : Instant) : Option (Sharded β) :=
  if q.delayedCount = 0 then some q
  else if q.interrupted then do
    let (q, due) ← (q.record 1).takeDue? now
    some (due.foldl (fun q t => q.pushShard (q.home worker) t) q)
  else do
    let (q, due) ← q.takeDue? now
    some (due.foldl pushReady q)

def popFirst? (q : Sharded β) : List Nat → Option (Sharded β × Option (Task β))
  | [] => some (q, none)
  | index :: rest => do
    match ← q.popShard? index with
    | (q, some t) => some (q, some t)
    | (q, none) => popFirst? q rest

def tryPop? (q : Sharded β) (worker : Nat) (now : Instant) :
    Option (Sharded β × Option (Task β)) := do
  let q ← q.promote? worker now
  q.popFirst? (q.route worker)

/-- Empties shards one after the other, and lowers the count of all ready tasks with each. -/
def drainShards? : List (Shard β) → Nat → Option (List (Shard β) × Nat)
  | [], readyCount => some ([], readyCount)
  | s :: rest, readyCount => do
    let size ← lower? s.size s.tasks.length
    let readyCount ← lower? readyCount s.tasks.length
    let (rest, readyCount) ← drainShards? rest readyCount
    some ({ tasks := [], size := size } :: rest, readyCount)

def drain? (q : Sharded β) : Option (Sharded β × List (Task β)) := do
  let (shards, readyCount) ← drainShards? q.shards q.readyCount
  let delayedCount ← lower? q.delayedCount q.delayed.length
  some ({ q with
    shards := shards
    readyCount := readyCount
    delayed := []
    delayedCount := delayedCount }, q.tasks)

def drainDelayed? (q : Sharded β) (now : Instant) : Option (Sharded β × List (Task β)) := do
  let future := q.delayed.filter fun t => !t.isReady now
  let delayedCount ← lower? q.delayedCount future.length
  some ({ q with
    delayed := q.delayed.filter (·.isReady now)
    delayedCount := delayedCount }, future)

/-! ## No check fails -/

theorem Sound.popShard?_eq (hs : q.Sound later) (index : Nat) :
    q.popShard? index = some (q.popShard index) := by
  unfold popShard? Sharded.popShard
  cases hget : q.shards[index]? with
  | none => rfl
  | some s =>
      have hmem := List.mem_of_getElem? hget
      have hs' : s.Sound later := hs.shard s hmem
      cases htasks : s.tasks with
      | nil =>
          simp only [htasks]
          split <;> rfl
      | cons t rest =>
          have hsize : 1 ≤ s.size := by simp [hs'.size_eq, htasks]
          have hready : 1 ≤ q.readyCount := by
            have ht : t ∈ q.readyTasks := List.mem_flatMap.2 ⟨s, hmem, by simp [htasks]⟩
            rw [hs.readyCount_eq]
            exact List.length_pos_of_mem ht
          have hne : s.size ≠ 0 := Nat.ne_of_gt hsize
          simp [htasks, hne, lower?_of_le hsize, lower?_of_le hready, Sharded.record]

theorem Sound.takeDue?_eq (hs : q.Sound later) (n : Nat) (now : Instant) :
    (q.record n).takeDue? now = some ((q.record n).takeDue now) := by
  have hle : (q.delayed.takeWhile (·.isReady now)).length ≤ q.delayedCount := by
    rw [hs.delayedCount_eq]
    exact (List.takeWhile_sublist _).length_le
  simp [takeDue?, takeDue, lower?, Sharded.record, hle]

theorem Sound.promote?_eq (hs : q.Sound later) (worker : Nat) (now : Instant) :
    q.promote? worker now = some (q.promote worker now) := by
  unfold promote? Sharded.promote
  split
  · rfl
  · split
    · rw [hs.takeDue?_eq 1 now]
      rfl
    · rw [show q.takeDue? now = _ from hs.takeDue?_eq 0 now]
      rfl

theorem Sound.popFirst?_eq (hs : q.Sound later) (route : List Nat) :
    q.popFirst? route = some (q.popFirst route) := by
  induction route generalizing q with
  | nil => rfl
  | cons index rest ih =>
      have hsound := (hs.popShard index).1.sound
      unfold popFirst? Sharded.popFirst
      rw [hs.popShard?_eq index]
      cases hpop : q.popShard index with
      | mk q' found =>
          rw [hpop] at hsound
          cases found with
          | some t => rfl
          | none => exact ih hsound

theorem Sound.tryPop?_eq (hs : q.Sound later) (hle : now ≤ later) (worker : Nat) :
    q.tryPop? worker now = some (q.tryPop worker now) := by
  have hp := (hs.promote_of_le hle worker).1
  unfold tryPop?
  rw [hs.promote?_eq worker now]
  exact hp.popFirst?_eq _

/-- Emptying shards takes off the count of all ready tasks what they hold together. -/
theorem drainShards?_eq {shards : List (Shard β)} {readyCount : Nat}
    (hsize : ∀ s ∈ shards, s.tasks.length ≤ s.size)
    (hready : sumOf (·.tasks.length) shards ≤ readyCount) :
    drainShards? shards readyCount =
      some (shards.map fun s => { tasks := [], size := s.size - s.tasks.length },
        readyCount - sumOf (·.tasks.length) shards) := by
  induction shards generalizing readyCount with
  | nil => rfl
  | cons s rest ih =>
      have hone := hsize s List.mem_cons_self
      have hrest := fun u hu => hsize u (List.mem_cons_of_mem s hu)
      rw [sumOf] at hready ⊢
      have hfirst : s.tasks.length ≤ readyCount := by omega
      have hleft : sumOf (·.tasks.length) rest ≤ readyCount - s.tasks.length := by omega
      simp [drainShards?, lower?_of_le hone, lower?_of_le hfirst, ih hrest hleft, Nat.sub_sub]

theorem Sound.drain?_eq (hs : q.Sound later) : q.drain? = some q.drain := by
  have hsize : ∀ s ∈ q.shards, s.tasks.length ≤ s.size := fun s hs' =>
    Nat.le_of_eq (hs.shard s hs').size_eq.symm
  have hready : sumOf (·.tasks.length) q.shards ≤ q.readyCount := by
    rw [hs.readyCount_eq, readyTasks, length_flatMap_eq_sumOf]
  have hdelayed : q.delayed.length ≤ q.delayedCount := Nat.le_of_eq hs.delayedCount_eq.symm
  unfold drain?
  rw [drainShards?_eq hsize hready, lower?_of_le hdelayed]
  rfl

theorem Sound.drainDelayed?_eq (hs : q.Sound later) (now : Instant) :
    q.drainDelayed? now = some (q.drainDelayed now) := by
  have hle : (q.delayed.filter fun t => !t.isReady now).length ≤ q.delayedCount := by
    rw [hs.delayedCount_eq]
    exact List.filter_sublist.length_le
  simp [drainDelayed?, Sharded.drainDelayed, lower?_of_le hle]

end Sharded

namespace Strategy

variable {s : Strategy β}

/-- A single backlog keeps no counters of its own. -/
def tryPop? (worker : Nat) (now : Instant) : Strategy β → Option (Strategy β × Option (Task β))
  | locked q => some ((locked q).tryPop worker now)
  | sharded q => (q.tryPop? worker now).map fun r => r.map sharded id

def promote? (worker : Nat) (now : Instant) : Strategy β → Option (Strategy β)
  | locked q => some ((locked q).promote worker now)
  | sharded q => (q.promote? worker now).map sharded

def attempt? (worker : Nat) (now : Instant) : Strategy β → Option (Strategy β × Option (Task β))
  | locked q => some ((locked q).attempt worker now)
  | sharded q => do
    match ← q.tryPop? worker now with
    | (q, some t) => some (sharded q, some t)
    | (q, none) =>
      if q.interrupted then (q.tryPop? worker now).map fun r => r.map sharded id
      else some (sharded q, none)

def rouse? : Strategy β → Option (Strategy β)
  | locked q => some (locked q)
  | sharded q => do
    let sleepers ← lower? q.sleepers 1
    some (sharded { q with sleepers := sleepers })

def drain? : Strategy β → Option (Strategy β × List (Task β))
  | locked q => some (locked q).drain
  | sharded q => q.drain?.map fun r => r.map sharded id

def drainDelayed? (now : Instant) : Strategy β → Option (Strategy β × List (Task β))
  | locked q => some ((locked q).drainDelayed now)
  | sharded q => (q.drainDelayed? now).map fun r => r.map sharded id

def waitLooks? (worker : Nat) (deadline : Option Instant) :
    Nat → Instant → Strategy β → Option (Strategy β × Instant × Wait β)
  | 0, now, s => some (s, now, .endless)
  | looks + 1, now, s => do
    match ← s.attempt? worker now with
    | (s, some t) => some (s, now, .task t)
    | (s, none) =>
      if s.isInterrupted then some (s, now, .interrupted)
      else if deadline.any (· ≤ now) then some (s, now, .timedOut)
      else
        match Instant.earliest? deadline s.nextReadyAt with
        | none => some (s, now, .endless)
        | some wakeAt => do
          let s ← s.sleep.rouse?
          waitLooks? worker deadline looks (max now wakeAt) s

def popWait? (worker : Nat) (deadline : Option Instant) (now : Instant) (s : Strategy β) :
    Option (Strategy β × Instant × Wait β) :=
  waitLooks? worker deadline (s.delayedCount + 2) now s.enter

theorem Sound.tryPop?_eq (hs : s.Sound later) (hle : now ≤ later) (worker : Nat) :
    s.tryPop? worker now = some (s.tryPop worker now) := by
  cases s with
  | locked q => rfl
  | sharded q =>
      show (q.tryPop? worker now).map _ = _
      rw [Sharded.Sound.tryPop?_eq hs hle worker]
      rfl

theorem Sound.promote?_eq (hs : s.Sound later) (worker : Nat) (now : Instant) :
    s.promote? worker now = some (s.promote worker now) := by
  cases s with
  | locked q => rfl
  | sharded q =>
      show (q.promote? worker now).map _ = _
      rw [Sharded.Sound.promote?_eq hs worker now]
      rfl

theorem Sound.attempt?_eq (hs : s.Sound later) (hle : now ≤ later) (worker : Nat) :
    s.attempt? worker now = some (s.attempt worker now) := by
  cases s with
  | locked q => rfl
  | sharded q =>
      have hsound := (Sharded.Sound.tryPop_of_le hs hle worker).sound
      simp only [attempt?, Strategy.attempt, Sharded.Sound.tryPop?_eq hs hle worker]
      cases hpop : q.tryPop worker now with
      | mk q' found =>
          rw [hpop] at hsound
          cases found with
          | some t => rfl
          | none =>
              by_cases hint : q'.interrupted = true
              · simp [hint, hsound.tryPop?_eq hle worker]
              · simp [hint]

/-- Putting a worker to sleep and waking it up again lowers the count of sleepers by what it was
raised. -/
theorem rouse?_sleep (s : Strategy β) : s.sleep.rouse? = some s.sleep.rouse := by
  cases s <;> rfl

theorem Sound.waitLooks?_eq (hs : s.Sound later) (hle : now ≤ later) (worker : Nat)
    (deadline : Option Instant) (looks : Nat) :
    s.waitLooks? worker deadline looks now = some (s.waitLooks worker deadline looks now) := by
  induction looks generalizing s now later with
  | zero => rfl
  | succ looks ih =>
      have h := hs.attempt_of_le hle worker
      unfold waitLooks? Strategy.waitLooks
      rw [hs.attempt?_eq hle worker]
      cases hlook : s.attempt worker now with
      | mk s' found =>
          rw [hlook] at h
          cases found with
          | some t => rfl
          | none =>
              simp only [Option.bind_eq_bind, Option.bind_some]
              split
              · rfl
              split
              · rfl
              cases Instant.earliest? deadline s'.nextReadyAt with
              | none => rfl
              | some wakeAt =>
                  have hsound := h.sound.mono (Int.le_max_left later (max now wakeAt))
                  have hawake := (sameTasks_rouse _).sound _ ((sameTasks_sleep s').sound _ hsound)
                  rw [rouse?_sleep]
                  exact ih hawake (Int.le_max_right later (max now wakeAt))

theorem Sound.popWait?_eq (hs : s.Sound later) (hle : now ≤ later) (worker : Nat)
    (deadline : Option Instant) :
    s.popWait? worker deadline now = some (s.popWait worker deadline now) :=
  ((sameTasks_enter s).sound later hs).waitLooks?_eq hle worker deadline _

theorem Sound.drain?_eq (hs : s.Sound later) : s.drain? = some s.drain := by
  cases s with
  | locked q => rfl
  | sharded q =>
      show q.drain?.map _ = _
      rw [Sharded.Sound.drain?_eq hs]
      rfl

theorem Sound.drainDelayed?_eq (hs : s.Sound later) (now : Instant) :
    s.drainDelayed? now = some (s.drainDelayed now) := by
  cases s with
  | locked q => rfl
  | sharded q =>
      show (q.drainDelayed? now).map _ = _
      rw [Sharded.Sound.drainDelayed?_eq hs now]
      rfl

end Strategy

end Dispatch
