import Dispatch.Proofs.Queue.AtHand
import Mathlib.Data.List.Nodup
/-!
# Stocks

A stock is a strategy in use, with the tasks that came in and those that went out again. It is asked for
tasks in any order and at any instants, also such that the clock does not show. Whatever is asked of it,
what came in is what the strategy holds and what went out.
-/

namespace Dispatch

/-- What can be asked of a strategy. A wait is made in one go, or in looks with sleep in between. -/
inductive StockRequest (β : Type) where
  | push (t : Task β)
  /-- Takes a task that is ready at some instant for a worker. -/
  | tryPop (worker : Nat) (now : Instant)
  /-- Waits for a task, with nobody else at work. -/
  | popWait (worker : Nat) (deadline : Option Instant)
  /-- Begins a wait that other requests come in between. -/
  | enter (worker : Nat)
  /-- Puts a wait that found nothing to sleep. -/
  | sleep
  /-- Wakes a wait that sleeps, for a further look. -/
  | look (worker : Nat)
  | promote (worker : Nat) (now : Instant)
  | interrupt
  | drain
  | drainDelayed (now : Instant)
  | advance (d : Duration)

/-- The task that a request adds. -/
def StockRequest.pushed? {β : Type} : StockRequest β → Option (Task β)
  | push t => some t
  | _ => none

/-- A strategy in use, with the tasks that came in and went out, the newest first. -/
structure Stock (β : Type) where
  clock : Instant
  /-- The latest instant of the clock and of all looks. -/
  seen : Instant
  strategy : Strategy β
  added : List (Task β) := []
  handed : List (Task β) := []
  /-- How many waits sleep. -/
  asleep : Nat := 0

namespace Stock

variable {β : Type} {c : Stock β} {later : Instant}

/-- A strategy that comes into use. -/
def start (s : Strategy β) (now : Instant) : Stock β where
  clock := now
  seen := now
  strategy := s

/-- Notes the tasks that went out at an instant. -/
def handOut (c : Stock β) (now : Instant) : Strategy β × List (Task β) → Stock β
  | (s, ts) => { c with seen := max c.seen now, strategy := s, handed := ts ++ c.handed }

/-- Notes what a look at an instant found. -/
def noteLook (c : Stock β) (now : Instant) (r : Strategy β × Option (Task β)) : Stock β :=
  c.handOut now (r.1, r.2.toList)

/-- Serves a request and notes which tasks came in and went out. -/
def serve (c : Stock β) : StockRequest β → Stock β
  | .push t => { c with strategy := c.strategy.push c.clock t, added := t :: c.added }
  | .tryPop worker now => c.noteLook now (c.strategy.tryPop worker now)
  | .popWait worker deadline =>
    let r := c.strategy.popWait worker deadline c.clock
    { c with clock := r.2.1 }.noteLook r.2.1 (r.1, r.2.2.task?)
  | .enter worker => c.noteLook c.clock (c.strategy.enter.attempt worker c.clock)
  | .sleep => { c with strategy := c.strategy.sleep, asleep := c.asleep + 1 }
  | .look worker =>
    if c.asleep = 0 then c
    else
      { c with asleep := c.asleep - 1 }.noteLook c.clock (c.strategy.rouse.attempt worker c.clock)
  | .promote worker now => c.handOut now (c.strategy.promote worker now, [])
  | .interrupt => { c with strategy := c.strategy.interrupt }
  | .drain => c.handOut c.clock c.strategy.drain
  | .drainDelayed now => c.handOut now (c.strategy.drainDelayed now)
  | .advance d => { c with clock := c.clock + d, seen := max c.seen (c.clock + d) }

/-- Serves requests in order. -/
def run (c : Stock β) (requests : List (StockRequest β)) : Stock β := requests.foldl serve c

/-- The tasks that came in and have not gone out again. -/
def held (c : Stock β) : List (Task β) := c.added.filter (·.id ∉ c.handed.map Task.id)

/-- Whether the strategy is in order, and what came in is what it holds and what went out. -/
structure Sound (c : Stock β) : Prop where
  strategy : c.strategy.Sound c.seen
  clock_le : c.clock ≤ c.seen
  contents : c.added.Perm (c.strategy.tasks ++ c.handed)

theorem sound_start {s : Strategy β} {now : Instant} (hs : s.Sound now) (hempty : s.tasks = []) :
    (start s now).Sound :=
  ⟨hs, Int.le_refl now, by simp [start, hempty]⟩

/-! ## One request -/

/-- Whether a stock comes of a request to another one: it is in order, and the strategy has the same
shards as before. -/
structure Serves (c c' : Stock β) : Prop where
  sound : c'.Sound
  shape_eq : c'.strategy.shape = c.strategy.shape

/-- Whatever leaves the strategy goes out of the stock. -/
theorem Sound.handOut (hs : c.Sound) {now : Instant} {r : Strategy β × List (Task β)}
    (hsound : r.1.Sound (max c.seen now)) (hperm : c.strategy.tasks.Perm (r.2 ++ r.1.tasks))
    (hshape : r.1.shape = c.strategy.shape) : Serves c (c.handOut now r) := by
  refine ⟨⟨hsound, ?_, ?_⟩, hshape⟩
  · exact Int.le_trans hs.clock_le (Int.le_max_left _ _)
  · show c.added.Perm (r.1.tasks ++ (r.2 ++ c.handed))
    rw [← List.append_assoc]
    exact hs.contents.trans ((hperm.trans List.perm_append_comm).append_right _)

theorem Sound.noteLook (hs : c.Sound) {now : Instant} {r : Strategy β × Option (Task β)}
    (h : Strategy.Yields (max c.seen now) c.strategy r) : Serves c (c.noteLook now r) :=
  hs.handOut h.sound h.tasks_perm h.shape_eq

/-- What does not touch the tasks leaves the stock in order. -/
theorem Sound.withStrategy (hs : c.Sound) {s : Strategy β}
    (h : Strategy.SameTasks c.strategy s) (asleep : Nat) :
    Serves c { c with strategy := s, asleep := asleep } :=
  ⟨⟨h.sound _ hs.strategy, hs.clock_le, by rw [h.tasks_eq]; exact hs.contents⟩, h.shape_eq⟩

theorem Sound.push (hs : c.Sound) (t : Task β) : Serves c (c.serve (.push t)) := by
  -- the clock is not ahead of the looks, so that what is ready by it is ready for them
  have hpush := hs.strategy.push_of_le hs.clock_le t
  obtain ⟨hsound, hperm, hshape⟩ := hpush
  exact ⟨⟨hsound, hs.clock_le, (hs.contents.cons t).trans (hperm.symm.append_right _)⟩, hshape⟩

theorem Sound.popWait (hs : c.Sound) (worker : Nat) (deadline : Option Instant) :
    Serves c (c.serve (.popWait worker deadline)) := by
  obtain ⟨hnow, hyields⟩ := hs.strategy.popWait_of_le hs.clock_le worker deadline
  obtain ⟨hsound, hshape⟩ := hs.noteLook hyields
  exact ⟨⟨hsound.strategy, Int.le_max_right _ _, hsound.contents⟩, hshape⟩

/-- Every request keeps a stock in order, and the shards of the strategy. -/
theorem Sound.serve (hs : c.Sound) (request : StockRequest β) : Serves c (c.serve request) := by
  have hmax : ∀ now, c.strategy.Sound (max c.seen now) := fun now =>
    hs.strategy.mono (Int.le_max_left _ _)
  have hclock : c.clock ≤ max c.seen c.clock := Int.le_max_right _ _
  cases request with
  | push t => exact hs.push t
  | tryPop worker now =>
      exact hs.noteLook ((hmax now).tryPop_of_le (Int.le_max_right _ _) worker)
  | popWait worker deadline => exact hs.popWait worker deadline
  | enter worker =>
      have henter := Strategy.sameTasks_enter c.strategy
      have h := (henter.sound _ (hmax c.clock)).attempt_of_le hclock worker
      exact hs.noteLook (h.of_sameTasks henter (Strategy.isInterrupted_enter _))
  | sleep => exact hs.withStrategy (Strategy.sameTasks_sleep _) _
  | look worker =>
      simp only [Stock.serve]
      split
      · exact ⟨hs, rfl⟩
      · have hrouse := Strategy.sameTasks_rouse c.strategy
        have h := (hrouse.sound _ (hmax c.clock)).attempt_of_le hclock worker
        have hserves := hs.noteLook (h.of_sameTasks hrouse (Strategy.isInterrupted_rouse _))
        exact ⟨⟨hserves.sound.strategy, hserves.sound.clock_le, hserves.sound.contents⟩,
          hserves.shape_eq⟩
  | promote worker now =>
      obtain ⟨hsound, hperm, hshape⟩ := (hmax now).promote_of_le (Int.le_max_right _ _) worker
      exact hs.handOut (r := (c.strategy.promote worker now, [])) hsound hperm.symm hshape
  | interrupt => exact hs.withStrategy (Strategy.sameTasks_interrupt _) _
  | drain =>
      obtain ⟨hsound, hnil, htasks⟩ := (hmax c.clock).drain
      have hperm : c.strategy.tasks.Perm (c.strategy.drain.2 ++ c.strategy.drain.1.tasks) := by
        rw [hnil, htasks, List.append_nil]
      exact hs.handOut hsound hperm (Strategy.shape_drain _)
  | drainDelayed now =>
      obtain ⟨hsound, hlate, hleft⟩ := (hmax now).drainDelayed_of_le (Int.le_max_right _ _)
      have hsplit := (Strategy.tasks_perm_atHand now c.strategy).trans List.perm_append_comm
      have hperm : c.strategy.tasks.Perm
          ((c.strategy.drainDelayed now).2 ++ (c.strategy.drainDelayed now).1.tasks) := by
        rw [hlate]
        exact hsplit.trans (hleft.symm.append_left _)
      exact hs.handOut hsound hperm (Strategy.shape_drainDelayed _)
  | advance d =>
      have hle : c.clock + d ≤ max c.seen (c.clock + d) := Int.le_max_right _ _
      exact ⟨⟨hmax _, hle, hs.contents⟩, rfl⟩

/-! ## Runs -/

theorem Sound.run (hs : c.Sound) (requests : List (StockRequest β)) :
    Serves c (c.run requests) := by
  induction requests generalizing c with
  | nil => exact ⟨hs, rfl⟩
  | cons request rest ih =>
      have hone := hs.serve request
      have hrest := ih hone.sound
      exact ⟨hrest.sound, hrest.shape_eq.trans hone.shape_eq⟩

/-- Requests to a strategy with shards leave it with as many shards as it had. -/
theorem run_sharded (shards : Nat) (stealing : Bool) (now : Instant)
    (requests : List (StockRequest β)) :
    ((start (.sharded (.ofCount shards stealing {})) now).run requests).Sound ∧
      ∃ q, ((start (.sharded (.ofCount shards stealing {})) now).run requests).strategy = .sharded q ∧
        q.shards.length = max shards 1 ∧ q.stealing = stealing := by
  have hempty : (Strategy.sharded (.ofCount shards stealing {} : Sharded β)).Sound now :=
    Sharded.sound_ofCount shards stealing {}
  obtain ⟨hsound, hshape⟩ :=
    (sound_start hempty (Sharded.tasks_ofCount shards stealing {})).run requests
  refine ⟨hsound, ?_⟩
  cases hq : ((start (.sharded (.ofCount shards stealing {})) now).run requests).strategy with
  | locked q =>
      rw [hq] at hshape
      contradiction
  | sharded q =>
      rw [hq] at hshape
      obtain ⟨hlength, hstealing⟩ := Prod.mk.inj (Option.some.inj hshape)
      exact ⟨q, rfl, by simpa [Sharded.ofCount] using hlength, hstealing⟩

/-- A request adds the task that it brings along, and no other one. -/
theorem serve_added (c : Stock β) (request : StockRequest β) :
    (c.serve request).added = request.pushed?.toList ++ c.added := by
  cases request with
  | look worker =>
      simp only [Stock.serve]
      split <;> rfl
  | _ => rfl

theorem run_added (c : Stock β) (requests : List (StockRequest β)) :
    (c.run requests).added.Perm (requests.filterMap StockRequest.pushed? ++ c.added) := by
  induction requests generalizing c with
  | nil => exact List.Perm.refl _
  | cons request rest ih =>
      have hrest := ih (c.serve request)
      rw [serve_added] at hrest
      cases hpushed : request.pushed? with
      | none => simpa [hpushed, Stock.run] using hrest
      | some t =>
          simp only [hpushed, Option.toList_some, List.singleton_append] at hrest
          simpa [hpushed, Stock.run] using hrest.trans List.perm_middle

/-- If the tasks that came in have different numbers, those that the strategy holds are those that have
not gone out again. -/
theorem Sound.held_perm (hs : c.Sound) (hdistinct : (c.added.map Task.id).Nodup) :
    c.held.Perm c.strategy.tasks := by
  have hids := (hs.contents.map Task.id).nodup_iff.1 hdistinct
  rw [List.map_append, List.nodup_append] at hids
  obtain ⟨-, -, hapart⟩ := hids
  have hstay : ∀ t ∈ c.strategy.tasks, decide (t.id ∉ c.handed.map Task.id) = true := by
    intro t ht
    rw [decide_eq_true_eq]
    intro hout
    exact hapart _ (List.mem_map_of_mem ht) _ hout rfl
  have hgone : ∀ t ∈ c.handed, ¬ decide (t.id ∉ c.handed.map Task.id) = true := by
    intro t ht
    rw [decide_eq_true_eq, not_not]
    exact List.mem_map_of_mem ht
  have hfilter := hs.contents.filter fun t => t.id ∉ c.handed.map Task.id
  rw [List.filter_append, List.filter_eq_self.2 hstay, List.filter_eq_nil_iff.2 hgone,
    List.append_nil] at hfilter
  exact hfilter

end Stock

end Dispatch
