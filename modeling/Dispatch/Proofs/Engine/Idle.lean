import Dispatch.Proofs.Engine.Outcomes
import Dispatch.Proofs.Pool.Quiet
/-!
# No worker idles beside work

The clock moves only when nothing can be done at the present instant. At such an instant each idle worker
has nothing to take, however many workers there are, whichever strategy is in use and whatever has
happened before. In particular the calls that wake sleeping workers are enough, whenever they arrive.
Beside shards it does not matter either whom they reach. A single backlog needs more: the worker that is
told of a delayed task may be kept busy by others until the task is due, so the next one to know of it has
to be one that fell asleep later. The lock of the backlog, which keeps its sleepers in a queue, sees to
that.
-/

namespace Dispatch

variable {α : Type}

namespace Pool

theorem orderly_ofWorkers (config : EngineConfig) (count started : Nat) (now : Instant)
    (log : LogBook) : (ofWorkers config count started now log : Pool α).Orderly := by
  refine ⟨(kept_ofWorkers config count started now log).balanced.sound, fun hint => ?_⟩
  have hnot : (ofWorkers config count started now log : Pool α).queue.strategy.isInterrupted =
      false := Strategy.isInterrupted_ofKind _ _ _ _
  exact absurd (hint.symm.trans hnot) (by simp)

theorem manned_ofWorkers (config : EngineConfig) {count : Nat} (hpos : 0 < count) (now : Instant)
    (log : LogBook) : (ofWorkers config count count now log : Pool α).Manned := by
  refine ⟨TaskQueue.shaped_ofKind _ _ _ _, ?_⟩
  simp only [ofWorkers, TaskQueue.ofKind, List.length_replicate]
  exact Nat.max_eq_left hpos

/-- A started pool has come to rest. -/
theorem rested_of_start {config : EngineConfig} {around : Surroundings} {now : Instant}
    {log : LogBook} {p : Pool α} (h : Pool.start config around now log = .ok p) : p.Rested := by
  have hpos : 0 < config.resolvedWorkerCount around.processors := by
    unfold EngineConfig.resolvedWorkerCount
    split
    · exact Nat.le_max_right _ _
    · exact Nat.pos_of_ne_zero ‹_›
  rw [eq_settle_of_start h]
  exact rested_settle (orderly_ofWorkers _ _ _ _ _) (manned_ofWorkers _ hpos _ _)

/-- The start of a pool takes no time. -/
theorem clock_of_start {config : EngineConfig} {around : Surroundings} {now : Instant}
    {log : LogBook} {p : Pool α} (h : Pool.start config around now log = .ok p) : p.clock = now := by
  rw [eq_settle_of_start h]
  exact clock_settle (orderly_ofWorkers _ _ _ _ _).sound

/-- The queue of a started pool is open. -/
theorem open_of_start {config : EngineConfig} {around : Surroundings} {now : Instant}
    {log : LogBook} {p : Pool α} (h : Pool.start config around now log = .ok p) :
    p.queue.closed = false :=
  ((works_of_start h).carries (kept_ofWorkers _ _ _ _ _).balanced.sound).closed_eq

end Pool

namespace Engine

variable {e e' : Engine α}

theorem rested_settle (h : e.pool.Orderly) (hmanned : e.pool.Manned) : e.settle.pool.Rested := by
  have hrested := Pool.rested_settle h hmanned
  rcases settle_cases e with heq | ⟨q, hacts, heq⟩
  · exact heq ▸ hrested
  · have hgrows := (hacts.reaches hrested.orderly.sound).grows hrested.orderly.sound
    exact heq ▸ Pool.rested_settle (hacts.orderly hrested.orderly) (hrested.manned.grows hgrows)

/-- Whatever happens to an engine, it comes to rest again. -/
theorem Move.rested (hmove : Move e e') (h : e.pool.Rested) : e'.pool.Rested := by
  have hs := h.orderly.sound
  cases hmove with
  | request hacts =>
      exact rested_settle (hacts.orderly h.orderly)
        (h.manned.grows ((hacts.reaches hs).grows hs))
  | arrange hpool => exact hpool ▸ h
  | jump t =>
      have hle : e.pool.clock ≤ max e.pool.clock t := Int.le_max_left _ _
      exact rested_settle ⟨hs.mono hle, h.orderly.closed_of_interrupted⟩ { h.manned with }
  | join => exact Pool.rested_join h

/-- From the start of a pool or an engine on, at every instant at which the clock can move, no worker
idles beside a task that it may take. This holds however submissions, turns, the parts of looks, calls and
the sleep of workers follow each other, and whomever a call for one worker reaches; only at a single
backlog it has to be the one that fell asleep first, as is documented of its lock, and this for the sake
of delayed tasks, not of those that are lined up. The states to which an engine comes are among those in
which all is quiet, also in the midst of waits and of shutdowns, since a wait can be stopped anywhere. -/
theorem run_noIdle (config : EngineConfig) (around : Surroundings) (now : Instant) (log : LogBook)
    (e : Engine α)
    (h : startPool config around now log = .ok e ∨ start config around now log = .ok e) :
    (∀ lock c, (Crew.up e.pool).Reaches lock c → c.IsQuiet →
        ((c.pool.queue.kind = .locked → KeepsQueue lock) → c.pool.NoIdle) ∧
          ((∃ w ∈ c.pool.workers, w.isIdle = true) → c.pool.queue.strategy.linedUp = [])) ∧
      (∀ e', e.Comes e' → e'.pool.NoIdle ∧
        ∀ lock, ∃ c, (Crew.up e.pool).Reaches lock c ∧ c.IsQuiet ∧ c.pool = e'.pool) ∧
      (∀ requests stop limit, e.Comes ((e.run requests).runUntil stop limit)) ∧
      ∀ requests graceful stop limit,
        e.Comes (((e.run requests).tell (·.close graceful)).runUntil stop limit) := by
  have hstart := start_pool h
  have hrested := Pool.rested_of_start hstart
  have hsound := hrested.orderly.sound
  refine ⟨fun lock c hreaches hquiet => ?_, fun e' hcomes => ?_, fun requests stop limit => ?_,
    fun requests graceful stop limit => ?_⟩
  · have halert := Crew.alert_of_reaches hsound (Pool.open_of_start hstart) hrested.manned hreaches
    exact ⟨halert.noIdle hquiet, halert.linedUp_eq_nil hquiet⟩
  · have hrested' : e'.pool.Rested :=
      hcomes.keeps (I := fun e => e.pool.Rested) (fun hmove h => hmove.rested h) hrested
    refine ⟨hrested'.noIdle, fun lock => ?_⟩
    obtain ⟨c, hasleep, hquiet, hpool⟩ := Crew.exists_isQuiet lock hrested'
    have hup : (Crew.up e.pool).Reaches lock (Crew.up e'.pool) :=
      Crew.reaches_of_reaches (hcomes.leadsTo hsound)
    exact ⟨c, hup.trans hasleep, hquiet, hpool⟩
  · exact (comes_run e requests).trans (comes_runUntil stop limit _)
  · exact ((comes_run e requests).trans (comes_close _ graceful)).trans (comes_runUntil stop limit _)

/-- A task that takes some time, and another one that gets ready meanwhile. -/
def overlappingRequests : List (Request Nat) :=
  let s : Submission Nat := { label := "count", priority := .normal, body := ⟨[.sleep 3], .value 7⟩ }
  [.submit s, .schedule 2 s]

/-- The single backlog has a lock that calls the first sleeper. After an exchange for shards, whose lock
may call any of them, all is quiet again as well. -/
theorem overlappingRequests_noIdle :
    (startPool pairConfig {} 0 ⟨0, []⟩ = .ok (ofPool pairConfig pairPool none) ∨
        start pairConfig {} 0 ⟨0, []⟩ = .ok (ofPool pairConfig pairPool none)) ∧
      (∃ c, (Crew.up pairPool).Reaches (fun _ place => place = 0) c ∧ c.IsQuiet ∧
        c.pool = ((ofPool pairConfig pairPool none).run overlappingRequests).pool ∧ c.pool.NoIdle) ∧
      ∃ c, (Crew.up pairPool).Reaches (fun _ _ => True) c ∧ c.IsQuiet ∧
        c.pool = ((ofPool pairConfig pairPool none).run
          (overlappingRequests ++ [.switch .sharded])).pool ∧
        c.pool.queue.kind = .sharded ∧ c.pool.NoIdle ∧
        ((∃ w ∈ c.pool.workers, w.isIdle = true) → c.pool.queue.strategy.linedUp = []) := by
  have hstart : startPool pairConfig {} 0 ⟨0, []⟩ = .ok (ofPool pairConfig pairPool none) :=
    startPool_of_start start_pairPool
  have h := run_noIdle pairConfig {} 0 ⟨0, []⟩ _ (.inl hstart)
  refine ⟨.inl hstart, ?_, ?_⟩
  · obtain ⟨c, hreaches, hquiet, hpool⟩ :=
      (h.2.1 _ (comes_run _ overlappingRequests)).2 fun _ place => place = 0
    exact ⟨c, hreaches, hquiet, hpool, (h.1 _ c hreaches hquiet).1 fun _ _ _ hfirst => hfirst⟩
  · obtain ⟨c, hreaches, hquiet, hpool⟩ :=
      (h.2.1 _ (comes_run _ (overlappingRequests ++ [.switch .sharded]))).2 fun _ _ => True
    have hkind : c.pool.queue.kind = .sharded := by
      rw [hpool]
      decide +kernel
    have hnone := h.1 _ c hreaches hquiet
    refine ⟨c, hreaches, hquiet, hpool, hkind, hnone.1 fun hlocked => ?_, hnone.2⟩
    rw [hkind] at hlocked
    contradiction

end Engine

end Dispatch
