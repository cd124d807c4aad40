import Dispatch.Proofs.Queue.Checked
/-!
# What the counters of shards tell

Whatever is asked of a strategy with shards, its counters describe its parts: each shard counts its tasks,
the shards and the delayed tasks are counted together, and so are the workers that sleep. No counter is
ever lowered below zero, and no task is in two parts.
-/

namespace Dispatch

variable {β : Type} {now later : Instant}

/-! ## Workers that sleep -/

namespace Sharded

variable {q : Sharded β}

theorem sleepers_foldl (add : Sharded β → Task β → Sharded β)
    (hadd : ∀ q t, (add q t).sleepers = q.sleepers) (ts : List (Task β)) :
    (ts.foldl add q).sleepers = q.sleepers := by
  induction ts generalizing q with
  | nil => rfl
  | cons t ts ih => exact ih.trans (hadd q t)

@[simp] theorem sleepers_push (q : Sharded β) (now : Instant) (t : Task β) :
    (q.push now t).sleepers = q.sleepers := by
  unfold push
  split <;> rfl

@[simp] theorem sleepers_promote (q : Sharded β) (worker : Nat) (now : Instant) :
    (q.promote worker now).sleepers = q.sleepers := by
  unfold promote
  split
  · rfl
  · split
    · exact sleepers_foldl (fun q t => q.pushShard (q.home worker) t) (fun _ _ => rfl) _
    · exact sleepers_foldl pushReady (fun _ _ => rfl) _

theorem sleepers_popShard (q : Sharded β) (index : Nat) :
    (q.popShard index).1.sleepers = q.sleepers := by
  unfold popShard
  split
  · rfl
  · split
    · rfl
    · split <;> rfl

@[simp] theorem sleepers_tryPop (q : Sharded β) (worker : Nat) (now : Instant) :
    (q.tryPop worker now).1.sleepers = q.sleepers := by
  apply popFirst_induction (P := fun p => p.sleepers = q.sleepers)
  · intro p index h
    rw [sleepers_popShard, h]
  · exact sleepers_promote q worker now

end Sharded

namespace Strategy

variable {s : Strategy β}

/-- The number of workers that sleep, where it is counted. -/
def sleepers? : Strategy β → Option Nat
  | locked _ => none
  | sharded q => some q.sleepers

@[simp] theorem sleepers?_enter (s : Strategy β) : s.enter.sleepers? = s.sleepers? := by
  cases s <;> rfl

@[simp] theorem sleepers?_interrupt (s : Strategy β) : s.interrupt.sleepers? = s.sleepers? := by
  cases s <;> rfl

@[simp] theorem sleepers?_drain (s : Strategy β) : s.drain.1.sleepers? = s.sleepers? := by
  cases s <;> rfl

@[simp] theorem sleepers?_drainDelayed (s : Strategy β) (now : Instant) :
    (s.drainDelayed now).1.sleepers? = s.sleepers? := by
  cases s <;> rfl

@[simp] theorem sleepers?_push (s : Strategy β) (now : Instant) (t : Task β) :
    (s.push now t).sleepers? = s.sleepers? := by
  cases s <;> simp [push, sleepers?]

@[simp] theorem sleepers?_tryPop (s : Strategy β) (worker : Nat) (now : Instant) :
    (s.tryPop worker now).1.sleepers? = s.sleepers? := by
  cases s <;> simp [tryPop, sleepers?]

@[simp] theorem sleepers?_promote (s : Strategy β) (worker : Nat) (now : Instant) :
    (s.promote worker now).sleepers? = s.sleepers? := by
  cases s <;> simp [promote, sleepers?]

@[simp] theorem sleepers?_attempt (s : Strategy β) (worker : Nat) (now : Instant) :
    (s.attempt worker now).1.sleepers? = s.sleepers? := by
  cases s with
  | locked q => rfl
  | sharded q =>
      rcases attempt_sharded_cases q worker now with heq | ⟨q', hfirst, -, heq⟩
      · rw [heq]
        exact congrArg some (Sharded.sleepers_tryPop q worker now)
      · have hsleepers := Sharded.sleepers_tryPop q worker now
        rw [hfirst] at hsleepers
        rw [heq]
        exact congrArg some ((Sharded.sleepers_tryPop q' worker now).trans hsleepers)

/-- A wait wakes up as often as it falls asleep. -/
theorem sleepers?_waitLooks (s : Strategy β) (worker : Nat) (deadline : Option Instant) (looks : Nat)
    (now : Instant) : (s.waitLooks worker deadline looks now).1.sleepers? = s.sleepers? := by
  induction looks generalizing s now with
  | zero => rfl
  | succ looks ih =>
      have hlook := sleepers?_attempt s worker now
      unfold waitLooks
      cases hfound : s.attempt worker now with
      | mk s' found =>
          rw [hfound] at hlook
          cases found with
          | some t => exact hlook
          | none =>
              simp only
              split
              · exact hlook
              split
              · exact hlook
              split
              · exact hlook
              · have hawake : s'.sleep.rouse.sleepers? = s'.sleepers? := by cases s' <;> rfl
                rw [ih, hawake, hlook]

@[simp] theorem sleepers?_popWait (s : Strategy β) (worker : Nat) (deadline : Option Instant)
    (now : Instant) : (s.popWait worker deadline now).1.sleepers? = s.sleepers? := by
  exact (sleepers?_waitLooks ..).trans (sleepers?_enter s)

end Strategy

/-! ## Runs with all subtractions checked -/

namespace Stock

variable {c : Stock β}

/-- Whether the strategy counts as many sleepers as there are, where it counts them. -/
def CountsSleepers (c : Stock β) : Prop := ∀ n ∈ c.strategy.sleepers?, n = c.asleep

theorem CountsSleepers.of_eq (h : c.CountsSleepers) {c' : Stock β}
    (hstrategy : c'.strategy.sleepers? = c.strategy.sleepers?) (hasleep : c'.asleep = c.asleep) :
    c'.CountsSleepers := by
  intro n hn
  rw [hasleep]
  exact h n (hstrategy ▸ hn)

/-- Serves a request with all subtractions checked. -/
def serve? (c : Stock β) : StockRequest β → Option (Stock β)
  | .tryPop worker now => (c.strategy.tryPop? worker now).map (c.noteLook now)
  | .popWait worker deadline =>
    (c.strategy.popWait? worker deadline c.clock).map fun r =>
      { c with clock := r.2.1 }.noteLook r.2.1 (r.1, r.2.2.task?)
  | .enter worker => (c.strategy.enter.attempt? worker c.clock).map (c.noteLook c.clock)
  | .look worker =>
    if c.asleep = 0 then some c
    else do
      let s ← c.strategy.rouse?
      let r ← s.attempt? worker c.clock
      some ({ c with asleep := c.asleep - 1 }.noteLook c.clock r)
  | .promote worker now => (c.strategy.promote? worker now).map fun s => c.handOut now (s, [])
  | .drain => c.strategy.drain?.map (c.handOut c.clock)
  | .drainDelayed now => (c.strategy.drainDelayed? now).map (c.handOut now)
  | request => some (c.serve request)

def run? (c : Stock β) (requests : List (StockRequest β)) : Option (Stock β) :=
  requests.foldlM serve? c

theorem CountsSleepers.serve (h : c.CountsSleepers) (request : StockRequest β) :
    (c.serve request).CountsSleepers := by
  cases request with
  | push t => exact h.of_eq (Strategy.sleepers?_push _ _ _) rfl
  | tryPop worker now => exact h.of_eq (Strategy.sleepers?_tryPop _ _ _) rfl
  | popWait worker deadline => exact h.of_eq (Strategy.sleepers?_popWait _ _ _ _) rfl
  | enter worker =>
      exact h.of_eq ((Strategy.sleepers?_attempt _ _ _).trans (Strategy.sleepers?_enter _)) rfl
  | sleep =>
      intro n hn
      cases hq : c.strategy with
      | locked q => simp [Stock.serve, hq, Strategy.sleep, Strategy.sleepers?] at hn
      | sharded q =>
          have hcount := h q.sleepers (by simp [hq, Strategy.sleepers?])
          have hmore : q.sleepers + 1 = n := by
            simpa [Stock.serve, hq, Strategy.sleep, Strategy.sleepers?] using hn
          rw [← hmore, hcount]
          rfl
  | look worker =>
      simp only [Stock.serve]
      split
      · exact h
      · intro n hn
        change n ∈ (c.strategy.rouse.attempt worker c.clock).1.sleepers? at hn
        rw [Strategy.sleepers?_attempt] at hn
        cases hq : c.strategy with
        | locked q => simp [hq, Strategy.rouse, Strategy.sleepers?] at hn
        | sharded q =>
            have hcount := h q.sleepers (by simp [hq, Strategy.sleepers?])
            have hless : q.sleepers - 1 = n := by
              simpa [hq, Strategy.rouse, Strategy.sleepers?] using hn
            rw [← hless, hcount]
            rfl
  | promote worker now => exact h.of_eq (Strategy.sleepers?_promote _ _ _) rfl
  | interrupt => exact h.of_eq (Strategy.sleepers?_interrupt _) rfl
  | drain => exact h.of_eq (Strategy.sleepers?_drain _) rfl
  | drainDelayed now => exact h.of_eq (Strategy.sleepers?_drainDelayed _ _) rfl
  | advance d => exact h

theorem CountsSleepers.run (h : c.CountsSleepers) (requests : List (StockRequest β)) :
    (c.run requests).CountsSleepers := by
  induction requests generalizing c with
  | nil => exact h
  | cons request rest ih => exact ih (h.serve request)

/-- A worker that sleeps can be woken up. -/
theorem CountsSleepers.rouse?_eq (h : c.CountsSleepers) (hasleep : c.asleep ≠ 0) :
    c.strategy.rouse? = some c.strategy.rouse := by
  cases hq : c.strategy with
  | locked q => rfl
  | sharded q =>
      have hcount := h q.sleepers (by simp [hq, Strategy.sleepers?])
      have hpos : 1 ≤ q.sleepers := by omega
      simp [Strategy.rouse?, Strategy.rouse, lower?_of_le hpos]

theorem Sound.serve?_eq (hs : c.Sound) (hsleepers : c.CountsSleepers) (request : StockRequest β) :
    c.serve? request = some (c.serve request) := by
  have hmax : ∀ now, c.strategy.Sound (max c.seen now) := fun now =>
    hs.strategy.mono (Int.le_max_left _ _)
  have hle : ∀ now, now ≤ max c.seen now := fun now => Int.le_max_right _ _
  cases request with
  | tryPop worker now =>
      simp only [serve?, (hmax now).tryPop?_eq (hle now) worker]
      rfl
  | popWait worker deadline =>
      simp only [serve?, hs.strategy.popWait?_eq hs.clock_le worker deadline]
      rfl
  | enter worker =>
      have henter := (Strategy.sameTasks_enter c.strategy).sound _ (hmax c.clock)
      simp only [serve?, henter.attempt?_eq (hle c.clock) worker]
      rfl
  | look worker =>
      simp only [serve?, Stock.serve]
      split
      · rfl
      · rename_i hasleep
        have hrouse := (Strategy.sameTasks_rouse c.strategy).sound _ (hmax c.clock)
        rw [hsleepers.rouse?_eq hasleep]
        simp only [Option.bind_eq_bind, Option.bind_some, hrouse.attempt?_eq (hle c.clock) worker]
  | promote worker now =>
      simp only [serve?, hs.strategy.promote?_eq worker now]
      rfl
  | drain =>
      simp only [serve?, hs.strategy.drain?_eq]
      rfl
  | drainDelayed now =>
      simp only [serve?, hs.strategy.drainDelayed?_eq now]
      rfl
  | _ => rfl

/-- No subtraction of a run goes below zero. -/
theorem Sound.run?_eq (hs : c.Sound) (hsleepers : c.CountsSleepers)
    (requests : List (StockRequest β)) : c.run? requests = some (c.run requests) := by
  induction requests generalizing c with
  | nil => rfl
  | cons request rest ih =>
      have hrest := ih (hs.serve request).sound (hsleepers.serve request)
      unfold run?
      rw [List.foldlM_cons, hs.serve?_eq hsleepers request]
      exact hrest

/-! ## The parts of a backlog -/

end Stock

namespace Sharded

variable {q : Sharded β}

/-- The parts that hold the tasks: the shards, and the delayed tasks. -/
def heaps (q : Sharded β) : List (List (Task β)) := q.shards.map Shard.tasks ++ [q.delayed]

theorem flatten_heaps (q : Sharded β) : q.heaps.flatten = q.tasks := by
  simp [heaps, tasks, List.flatMap_def]

/-- How often a number is found in all parts together. -/
def occurrences (q : Sharded β) (id : Nat) : Nat :=
  sumOf (fun heap => (heap.map Task.id).count id) q.heaps

theorem occurrences_eq (q : Sharded β) (id : Nat) :
    q.occurrences id = (q.tasks.map Task.id).count id := by
  rw [occurrences, sumOf_count_map, flatten_heaps]

end Sharded

namespace Stock

/-- Whether the counters of a stock in shards describe what its parts hold. -/
structure KeepsCount (c : Stock β) (q : Sharded β) : Prop where
  strategy_eq : c.strategy = .sharded q
  size_eq : ∀ s ∈ q.shards, s.size = s.tasks.length
  readyCount_eq : q.readyCount = sumOf Shard.size q.shards
  delayedCount_eq : q.delayedCount = q.delayed.length
  /-- The counters together tell how many tasks came in and have not gone out. -/
  size_add : q.size + c.handed.length = c.added.length
  sleepers_eq : q.sleepers = c.asleep
  /-- Each task that came in is in one of the parts, or it went out. -/
  occurrences_add : ∀ id, q.occurrences id + (c.handed.map Task.id).count id =
    (c.added.map Task.id).count id
  /-- Of tasks with different numbers, each one that is held is in one part, and there once. -/
  held : (c.added.map Task.id).Nodup →
    q.heaps.flatten.Perm c.held ∧ q.size = c.held.length ∧ ∀ t ∈ c.held, q.occurrences t.id = 1
  /-- When all tasks are taken away, nothing is left, and nothing is counted. -/
  drain_empty : (∀ s ∈ q.drain.1.shards, s.tasks = [] ∧ s.size = 0) ∧ q.drain.1.readyCount = 0 ∧
    q.drain.1.delayed = [] ∧ q.drain.1.delayedCount = 0
  drain_eq : q.drain.2 = q.heaps.flatten
  /-- When the delayed tasks are taken away, those that are not ready leave, and nothing else changes. -/
  drainDelayed_eq : ∀ now, q.drainDelayed now =
    ({ q with
        delayed := q.delayed.filter (·.readyAt ≤ now)
        delayedCount := (q.delayed.filter (·.readyAt ≤ now)).length },
      q.delayed.filter (now < ·.readyAt))

theorem Sound.keepsCount {c : Stock β} (hs : c.Sound) (hsleepers : c.CountsSleepers)
    {q : Sharded β} (hq : c.strategy = .sharded q) : c.KeepsCount q := by
  have hsound : q.Sound c.seen := by
    have h := hs.strategy
    rwa [hq] at h
  have hcontents : c.added.Perm (q.tasks ++ c.handed) := by
    have h := hs.contents
    rwa [hq] at h
  constructor
  case strategy_eq => exact hq
  case size_eq => exact fun s hmem => (hsound.shard s hmem).size_eq
  case readyCount_eq =>
    rw [hsound.readyCount_eq, Sharded.readyTasks, length_flatMap_eq_sumOf]
    exact sumOf_congr fun s hmem => (hsound.shard s hmem).size_eq.symm
  case delayedCount_eq => exact hsound.delayedCount_eq
  case size_add => rw [hsound.size_eq, hcontents.length_eq, List.length_append]
  case sleepers_eq => exact hsleepers q.sleepers (by simp [hq, Strategy.sleepers?])
  case occurrences_add =>
    intro id
    rw [Sharded.occurrences_eq, (hcontents.map Task.id).count_eq, List.map_append, List.count_append]
  case held =>
    intro hdistinct
    have hheld := hs.held_perm hdistinct
    rw [hq] at hheld
    refine ⟨Sharded.flatten_heaps q ▸ hheld.symm, ?_, ?_⟩
    · rw [hsound.size_eq, hheld.length_eq]
      rfl
    · intro t ht
      have hids : (q.tasks.map Task.id).Nodup :=
        (hdistinct.sublist (List.filter_sublist.map _)).perm (hheld.map Task.id)
      rw [Sharded.occurrences_eq]
      exact List.count_eq_one_of_mem hids (List.mem_map_of_mem (hheld.mem_iff.1 ht))
  case drain_empty =>
    obtain ⟨hdrained, hnil, -, -⟩ := hsound.drain
    obtain ⟨hready, hdelayed⟩ := List.append_eq_nil_iff.1 hnil
    have hshards : ∀ s ∈ q.drain.1.shards, s.tasks = [] := List.flatMap_eq_nil_iff.1 hready
    refine ⟨fun s hmem => ⟨hshards s hmem, ?_⟩, ?_, hdelayed, ?_⟩
    · rw [(hdrained.shard s hmem).size_eq, hshards s hmem, List.length_nil]
    · rw [hdrained.readyCount_eq, Sharded.readyTasks, hready, List.length_nil]
    · rw [hdrained.delayedCount_eq, hdelayed, List.length_nil]
  case drain_eq => exact (Sharded.flatten_heaps q).symm
  case drainDelayed_eq =>
    intro now
    have hsplit := List.length_eq_length_filter_add (l := q.delayed) (·.isReady now)
    have hcount : q.delayedCount - (q.delayed.filter (!·.isReady now)).length =
        (q.delayed.filter (·.isReady now)).length := by
      rw [hsound.delayedCount_eq]
      omega
    simp only [Sharded.drainDelayed, hcount]
    simp only [Task.not_isReady_eq]
    rfl

/-- Whatever is asked of a strategy with shards, no counter is ever lowered below zero, and afterwards all
counters describe what the shards and the delayed tasks hold. -/
theorem run_keepsCount (shards : Nat) (stealing : Bool) (start : Instant)
    (requests : List (StockRequest β)) :
    (Stock.start (.sharded (.ofCount shards stealing {})) start).run? requests =
        some ((Stock.start (.sharded (.ofCount shards stealing {})) start).run requests) ∧
      ∃ q, ((Stock.start (.sharded (.ofCount shards stealing {})) start).run requests).KeepsCount q := by
  let first : Stock β := Stock.start (.sharded (.ofCount shards stealing {})) start
  have hfirst : first.Sound := (run_sharded shards stealing start []).1
  have hsleepers : first.CountsSleepers := by
    intro n hn
    exact (Option.some.inj hn).symm
  obtain ⟨hsound, q, hq, -, -⟩ := run_sharded shards stealing start requests
  exact ⟨hfirst.run?_eq hsleepers requests, q, hsound.keepsCount (hsleepers.run requests) hq⟩

end Stock

end Dispatch
