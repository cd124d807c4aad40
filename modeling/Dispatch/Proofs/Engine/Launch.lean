import Dispatch.Proofs.Engine.Outcomes
import Dispatch.Proofs.Pool.Release
import Dispatch.Proofs.Pool.Rest
/-!
# Starts that fail

A pool or an engine that needs more threads than can be created is not started. The workers that
were started by then are stopped again in one of two ways: the start of a pool closes the queue,
that of an engine shuts the pool down. Either way nothing is left running and the log tells of each
worker that it started and stopped; the fault names the thread that could not be created.
-/

namespace Dispatch

variable {α : Type}

/-! ## The start as one order in which threads act -/

/-- Whether a start comes to a pool with so many workers, all of which have begun. -/
structure Launch.Brings (first : Launch α) (log : LogBook) (workers : Nat) (p : Pool α) : Prop where
  tidy_first : first.Tidy log []
  reaches : first.Reaches ⟨p, []⟩
  length_eq : p.workers.length = workers

namespace Launch.Brings

variable {first : Launch α} {log : LogBook} {workers : Nat} {p q : Pool α}

theorem tidy (h : first.Brings log workers p) :
    ∃ notices, Tidy log notices (⟨p, []⟩ : Launch α) :=
  h.reaches.tidy h.tidy_first

theorem sound (h : first.Brings log workers p) : p.queue.Sound p.clock :=
  h.tidy.elim fun _ htidy => htidy.untouched.sound

theorem step (h : first.Brings log workers p) (hstep : Launch.Step (⟨p, []⟩ : Launch α) ⟨q, []⟩)
    (hworkers : q.workers.length = p.workers.length) : first.Brings log workers q :=
  ⟨h.tidy_first, h.reaches.tail hstep, hworkers.trans h.length_eq⟩

theorem turnAt (h : first.Brings log workers p) (index : Nat) :
    first.Brings log workers (p.turnAt index) :=
  h.step (.advance ⟨p, []⟩ index) (Pool.carries_turnAt h.sound index).length_eq

theorem settle (h : first.Brings log workers p) : first.Brings log workers p.settle :=
  Pool.keeps_settle (fun _ index hq => hq.turnAt index) h

theorem refuse (h : first.Brings log workers p) :
    first.Brings log workers { p with accepting := false } :=
  h.step (.refuse ⟨p, []⟩) rfl

/-- A close lets every waiting worker look once more, between the end of all waits and the removal
of what is left. -/
theorem closeQueue (h : first.Brings log workers p) (graceful : Bool) :
    first.Brings log workers (p.closeQueue graceful) ∧
      (p.closeQueue graceful).queue.closed = true := by
  unfold Pool.closeQueue
  split
  · exact ⟨h, ‹_›⟩
  · have hshut : first.Brings log workers { p with queue := p.queue.shut } :=
      h.step (.shut ⟨p, []⟩) rfl
    have hroused : first.Brings log workers ({ p with queue := p.queue.shut } : Pool α).rouse :=
      Pool.keeps_rouse (fun _ index hq => hq.turnAt index) hshut
    have hclosed : ({ p with queue := p.queue.shut } : Pool α).rouse.queue.closed = true :=
      ((Pool.works_rouse _).carries hshut.sound).closed_eq
    refine ⟨hroused.step (.clear ⟨_, []⟩ graceful hclosed) ?_, ?_⟩
    · simp only [Pool.cancelRemoved_workers]
    · simp only [Pool.cancelRemoved_queue, TaskQueue.clear_closed, hclosed]

theorem join (h : first.Brings log workers p) (hclosed : p.queue.closed = true) :
    first.Brings log workers p.join := by
  unfold Pool.join
  split
  · exact h
  · exact h.step (.strand ⟨p, []⟩ hclosed) (by simp only [Pool.cancelRemoved_workers])

/-- At a closed queue without tasks, settled workers have stopped. -/
theorem eq_stopped_of_settle (h : first.Brings log workers p) (hclosed : p.queue.closed = true) :
    ∀ w ∈ p.settle.workers, w = .stopped := by
  obtain ⟨notices, htidy⟩ := h.settle.tidy
  intro w hw
  have hquiet := Pool.rests_settle h.sound hclosed w hw
  have hidle := htidy.idle w hw
  cases w with
  | stopped => rfl
  | busy run => simp [Worker.task?] at hidle
  | _ => exact absurd hquiet id

theorem released (h : first.Brings log workers p) (hclosed : p.queue.closed = true)
    (hstopped : ∀ w ∈ p.workers, w = .stopped) : p.Released log workers := by
  obtain ⟨notices, htidy⟩ := h.tidy
  exact h.length_eq ▸ htidy.released hclosed rfl hstopped

theorem released_settle (h : first.Brings log workers p) (hclosed : p.queue.closed = true) :
    p.settle.Released log workers :=
  h.settle.released (((Pool.works_settle p).carries h.sound).closed hclosed)
    (h.eq_stopped_of_settle hclosed)

end Launch.Brings

namespace Pool

variable {config : EngineConfig} {around : Surroundings} {now : Instant} {log : LogBook}

/-- The workers of a pool are created one after the other and begin at once. -/
theorem reaches_ofWorkers (config : EngineConfig) (count started : Nat) (now : Instant)
    (log : LogBook) : (Launch.fresh config count now log : Launch α).Reaches
      ⟨ofWorkers config count started now log, []⟩ := by
  induction started with
  | zero => exact Relation.ReflTransGen.refl
  | succ started ih =>
      let pool : Pool α := ofWorkers config count started now log
      have hopen : pool.queue.closed = false := rfl
      refine (ih.tail (.create ⟨pool, []⟩ hopen)).tail ?_
      have hbegins : (Launch.create ⟨pool, []⟩).advance started =
          ⟨ofWorkers config count (started + 1) now log, []⟩ := by
        simp [pool, Launch.create, Launch.advance, Launch.begin, ofWorkers, note, Notice.message,
          List.range_succ, List.replicate_succ']
      exact hbegins ▸ .advance _ started

theorem brings_ofWorkers (config : EngineConfig) (count started : Nat) (now : Instant)
    (log : LogBook) : (Launch.fresh config count now log : Launch α).Brings log started
      (ofWorkers config count started now log) :=
  ⟨Launch.tidy_fresh config count now log, reaches_ofWorkers config count started now log,
    List.length_replicate⟩

/-! ## How starts turn out -/

theorem startable_of_limit {count limit : Nat} (hlimit : around.threadLimit = some limit) :
    startable around count = min limit count := by
  rw [startable, hlimit]

/-- The outcome of a start of a pool that needs `count` threads where `limit` can be created. -/
structure StartsWithin (log : LogBook) (count limit : Nat)
    (r : Except (StartFailure α) (Pool α)) : Prop where
  /-- It succeeds if all of its threads can be created. -/
  ok_iff : (∃ p, r = .ok p) ↔ count ≤ limit
  /-- It fails with the first worker whose thread cannot be created. -/
  worker : limit < count → ∃ p, p.Released log limit ∧
    r = .error ⟨threadFault ("worker " ++ toString limit), some p⟩

theorem startsWithin_start (hvalid : config.validate = .ok ()) {limit : Nat}
    (hlimit : around.threadLimit = some limit) :
    StartsWithin log (config.resolvedWorkerCount around.processors) limit
      (start config around now log : Except (StartFailure α) (Pool α)) := by
  unfold start
  simp only [hvalid, startable_of_limit hlimit]
  rcases Nat.lt_or_ge limit (config.resolvedWorkerCount around.processors) with hless | hall
  · rw [Nat.min_eq_left (Nat.le_of_lt hless), if_pos hless]
    refine ⟨⟨fun ⟨p, hp⟩ => by contradiction, fun hle => absurd hless (Nat.not_lt.2 hle)⟩,
      fun _ => ⟨_, ?_, rfl⟩⟩
    have hbrings := brings_ofWorkers (α := α) config (config.resolvedWorkerCount around.processors)
      limit now log
    obtain ⟨hclosing, hclosed⟩ := hbrings.settle.closeQueue false
    exact hclosing.released_settle hclosed
  · rw [Nat.min_eq_right hall, if_neg (Nat.lt_irrefl _)]
    exact ⟨⟨fun _ => hall, fun _ => ⟨_, rfl⟩⟩, fun hless => absurd hall (Nat.not_le.2 hless)⟩

end Pool

namespace Engine

variable {config : EngineConfig} {around : Surroundings} {now : Instant} {log : LogBook}

/-- The outcome of a start of an engine that needs `count` threads for its workers and one more for
its coordinator where `limit` can be created. -/
structure StartsWithin (log : LogBook) (count limit : Nat)
    (r : Except (StartFailure α) (Engine α)) : Prop where
  ok_iff : (∃ e, r = .ok e) ↔ count + 1 ≤ limit
  worker : limit < count → ∃ p, p.Released log limit ∧
    r = .error ⟨threadFault ("worker " ++ toString limit), some p⟩
  coordinator : limit = count → ∃ p, p.Released log count ∧
    r = .error ⟨threadFault "coordinator", some p⟩

/-- A shutdown of a started pool leaves nothing running. -/
theorem released_shutdown {p : Pool α} (h : Pool.start config around now log = .ok p) :
    ((p.close false).settle.join).Released log (config.resolvedWorkerCount around.processors) := by
  have hfirst := Pool.brings_ofWorkers (α := α) config
    (config.resolvedWorkerCount around.processors) (config.resolvedWorkerCount around.processors)
    now log
  have hbrings := Pool.eq_settle_of_start h ▸ hfirst.settle
  have haccepting : p.accepting = true :=
    ((Pool.works_of_start h).carries hfirst.sound).accepting_eq
  have hclose : p.close false = ({ p with accepting := false } : Pool α).closeQueue false :=
    if_pos haccepting
  obtain ⟨hclosing, hclosed⟩ := hbrings.refuse.closeQueue false
  rw [← hclose] at hclosing hclosed
  obtain ⟨-, hqueue, hworkers, -⟩ := Pool.join_progress (p.close false).settle
  have hclosed' : (p.close false).settle.queue.closed = true :=
    ((Pool.works_settle _).carries hclosing.sound).closed hclosed
  refine (hclosing.settle.join hclosed').released (hqueue.trans hclosed') ?_
  rw [hworkers]
  exact hclosing.eq_stopped_of_settle hclosed

theorem startsWithin_start (hvalid : config.validate = .ok ()) {limit : Nat}
    (hlimit : around.threadLimit = some limit) :
    StartsWithin log (config.resolvedWorkerCount around.processors) limit
      (start config around now log : Except (StartFailure α) (Engine α)) := by
  have hthread : hasThread config around =
      decide (config.resolvedWorkerCount around.processors < limit) := by
    rw [hasThread, hlimit, Option.all_some]
  have hpool : Pool.StartsWithin log (config.resolvedWorkerCount around.processors) limit
      (Pool.start config around now log : Except (StartFailure α) (Pool α)) :=
    Pool.startsWithin_start hvalid hlimit
  rcases Nat.lt_or_ge limit (config.resolvedWorkerCount around.processors) with hless | hall
  · obtain ⟨p, hreleased, hstart⟩ := hpool.worker hless
    have hfails : start config around now log = .error
        ⟨threadFault ("worker " ++ toString limit), some p⟩ := by rw [start, hstart]
    rw [hfails]
    refine ⟨⟨fun ⟨e, he⟩ => by contradiction, fun hle => by omega⟩, fun _ => ⟨p, hreleased, rfl⟩,
      fun heq => absurd heq (Nat.ne_of_lt hless)⟩
  · obtain ⟨p, hstart⟩ := hpool.ok_iff.2 hall
    unfold start
    simp only [hstart, hthread, decide_eq_true_eq]
    split
    · rename_i hroom
      exact ⟨⟨fun _ => hroom, fun _ => ⟨_, rfl⟩⟩, fun hless => by omega, fun heq => by omega⟩
    · rename_i hfull
      exact ⟨⟨fun ⟨e, he⟩ => by contradiction, fun hle => absurd hle hfull⟩, fun hless => by omega,
        fun _ => ⟨_, released_shutdown hstart, rfl⟩⟩

/-- A start that fails leaves nothing running: neither as the pool and the engine are started and
stopped again here, nor in any other order in which their threads act. Once the queue is closed, it
is enough that each thread that was created by then acts twice. -/
theorem start_leavesNothing (config : EngineConfig) (around : Surroundings) (now : Instant)
    (log : LogBook) (limit : Nat) (hvalid : config.validate = .ok ())
    (hlimit : around.threadLimit = some limit) :
    Pool.StartsWithin log (config.resolvedWorkerCount around.processors) limit
        (Pool.start config around now log : Except (StartFailure α) (Pool α)) ∧
      StartsWithin log (config.resolvedWorkerCount around.processors) limit
        (start config around now log : Except (StartFailure α) (Engine α)) ∧
      ∀ l : Launch α,
        (Launch.fresh config (config.resolvedWorkerCount around.processors) now log).Reaches l →
        l.pool.queue.closed = true → ∀ turns l', l.Runs turns l' →
        (∀ index < l.pool.workers.length, 2 ≤ turns.count index) →
        l'.pool.Released log l.pool.workers.length := by
  refine ⟨Pool.startsWithin_start hvalid hlimit, startsWithin_start hvalid hlimit,
    fun l hreaches hclosed turns l' hruns hturns => ?_⟩
  obtain ⟨notices, htidy⟩ := hreaches.tidy (Launch.tidy_fresh _ _ _ _)
  exact hruns.released htidy hclosed hturns

/-- A launch of two workers neither of which has begun when the queue is closed. -/
def hurriedLaunch : Launch Nat :=
  let created := (Launch.fresh pairConfig 2 0 ⟨4, []⟩).create.create
  { created with pool := { created.pool with queue := created.pool.queue.shut } }

theorem pairConfig_leavesNothing :
    pairConfig.validate = .ok () ∧
      (∃ p : Pool Nat, p.Released ⟨4, []⟩ 1 ∧
        Pool.start pairConfig { threadLimit := some 1 } 0 ⟨4, []⟩ =
          .error ⟨threadFault ("worker " ++ toString 1), some p⟩) ∧
      (∃ p : Pool Nat, p.Released ⟨4, []⟩ 2 ∧
        start pairConfig { threadLimit := some 2 } 0 ⟨4, []⟩ =
          .error ⟨threadFault "coordinator", some p⟩) ∧
      ((((hurriedLaunch.advance 0).advance 1).advance 1).advance 0).pool.Released ⟨4, []⟩ 2 := by
  have hvalid : pairConfig.validate = .ok () := rfl
  have hone := start_leavesNothing (α := Nat) pairConfig { threadLimit := some 1 } 0 ⟨4, []⟩ 1
    hvalid rfl
  have htwo := start_leavesNothing (α := Nat) pairConfig { threadLimit := some 2 } 0 ⟨4, []⟩ 2
    hvalid rfl
  have hreaches : (Launch.fresh pairConfig 2 0 ⟨4, []⟩).Reaches hurriedLaunch :=
    (((Launch.Step.create _ rfl).reaches.tail (.create _ rfl)).tail (.shut _))
  have hruns := (((Launch.Runs.refl (l := hurriedLaunch)).act 0).act 1).act 1 |>.act 0
  refine ⟨hvalid, hone.1.worker (by decide), htwo.2.1.coordinator rfl, ?_⟩
  exact htwo.2.2 hurriedLaunch hreaches rfl _ _ hruns (by decide)

end Engine

end Dispatch
