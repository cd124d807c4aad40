import Dispatch.Proofs.Pool.Act
import Dispatch.Proofs.Queue.Calls
import Dispatch.Proofs.Task.Next
/-!
# No worker idles beside work

Workers that have neither a body to run nor stopped are idle. In a settled pool no task is ready that
an idle worker may take, and when all workers are idle no task is ready at all, since each shard is the
home of one of them.
-/

namespace Dispatch

variable {α : Type}

/-- Whether a worker is without a body to run, and has not stopped. -/
def Worker.isIdle : Worker α → Bool
  | .seeking | .waiting => true
  | .busy _ | .stopped => false

/-- Whether no task is ready that an idle worker may take: none at all where it may take every task,
and else none that is delayed, and nothing in its home shard. -/
def Strategy.NoneReadyFor {β : Type} (worker : Nat) (now : Instant) : Strategy β → Prop
  | .locked q => ∀ t ∈ q.tasks, now < t.readyAt
  | .sharded q =>
    if q.stealing then ∀ t ∈ q.tasks, now < t.readyAt
    else (∀ s, q.shards[q.home worker]? = some s → s.tasks = []) ∧ ∀ t ∈ q.delayed, now < t.readyAt

/-- Where the route of a worker is empty, the worker has nothing to take. -/
theorem Strategy.HasNoneFor.noneReadyFor {β : Type} {s : Strategy β} {worker : Nat} {now : Instant}
    (h : s.HasNoneFor worker now) : s.NoneReadyFor worker now := by
  cases s with
  | locked q => exact fun t ht => Task.not_isReady_iff.1 (h t ht)
  | sharded q =>
      obtain ⟨hempty, hlate⟩ := h
      have hdelayed : ∀ t ∈ q.delayed, now < t.readyAt := fun t ht =>
        Task.not_isReady_iff.1 (hlate t ht)
      unfold NoneReadyFor
      simp only
      split
      · rename_i hstealing
        have hall : (q.stealing || q.interrupted) = true := by rw [hstealing, Bool.true_or]
        intro t ht
        rw [Sharded.tasks_eq, Sharded.readyTasks_eq_nil_of_route hall hempty] at ht
        exact hdelayed t ht
      · exact ⟨hempty _ List.mem_cons_self, hdelayed⟩

namespace Pool

variable {p q : Pool α}

/-- Whether no worker of a pool idles beside work. -/
structure NoIdle (p : Pool α) : Prop where
  /-- An idle worker has nothing to take. -/
  noneReadyFor : ∀ index w, p.workers[index]? = some w → w.isIdle = true →
    p.queue.strategy.NoneReadyFor index p.clock
  /-- When all workers are idle, every queued task gets ready later. -/
  allIdle : (∀ w ∈ p.workers, w.isIdle = true) → ∀ t ∈ p.queue.tasks, p.clock < t.readyAt

/-- Whether a pool has workers, and as many shards as workers where it has shards. -/
structure Manned (p : Pool α) : Prop where
  shaped : p.queue.Shaped
  shards_eq : p.queue.shards = p.workers.length

theorem Manned.grows (h : p.Manned) (hgrows : p.Grows q) : q.Manned :=
  ⟨hgrows.settings.shaped h.shaped,
    hgrows.settings.shards_eq.trans (h.shards_eq.trans hgrows.length_eq.symm)⟩

/-- Where each idle worker has nothing to take, none idles beside work. -/
theorem noIdle_of_hasNoneFor (hmanned : p.Manned)
    (h : ∀ index w, p.workers[index]? = some w → w.isIdle = true →
      p.queue.strategy.HasNoneFor index p.clock) : p.NoIdle := by
  refine ⟨fun index w hw hidle => (h index w hw hidle).noneReadyFor, fun hall t ht => ?_⟩
  have hworker : ∀ index < p.workers.length, p.queue.strategy.HasNoneFor index p.clock :=
    fun index hindex => h index _ (List.getElem?_eq_getElem hindex)
      (hall _ (List.getElem_mem hindex))
  have hpos : 0 < p.workers.length := hmanned.shards_eq ▸ hmanned.shaped.shards_pos
  have hshape := hmanned.shaped.shape_eq
  change t ∈ p.queue.strategy.tasks at ht
  cases hstrategy : p.queue.strategy with
  | locked q =>
      rw [hstrategy] at ht hworker
      exact Task.not_isReady_iff.1 (hworker 0 hpos t ht)
  | sharded q =>
      rw [hstrategy] at ht hworker hshape
      have hlength : q.shards.length = p.workers.length :=
        (congrArg Prod.fst (hshape _ rfl)).trans hmanned.shards_eq
      have hnil : q.readyTasks = [] := by
        refine Sharded.readyTasks_eq_nil_iff.2 fun index s hget => ?_
        have hindex : index < q.shards.length := (List.getElem?_eq_some_iff.1 hget).1
        -- each shard is the home of the worker of the same number
        have hhome : q.home index = index := Nat.mod_eq_of_lt hindex
        exact (hworker index (hlength ▸ hindex)).1 index (by simp [Sharded.route, hhome]) s hget
      change t ∈ q.tasks at ht
      rw [Sharded.tasks_eq, hnil] at ht
      exact Task.not_isReady_iff.1 ((hworker 0 hpos).2 t ht)

/-- An idle worker that is still has nothing to take. -/
theorem hasNoneFor_of_stillAt (h : ∀ index, p.StillAt index) (index : Nat) (w : Worker α)
    (hw : p.workers[index]? = some w) (hidle : w.isIdle = true) :
    p.queue.strategy.HasNoneFor index p.clock := by
  have hstill := h index w hw
  cases w with
  | seeking => exact absurd hstill id
  | waiting => exact hstill.2
  | busy run => contradiction
  | stopped => contradiction

/-- Whether nothing can be done in a pool before time passes or a request is made. -/
structure Rested (p : Pool α) : Prop where
  orderly : p.Orderly
  stillAt : ∀ index, p.StillAt index
  manned : p.Manned

theorem Rested.noIdle (h : p.Rested) : p.NoIdle :=
  noIdle_of_hasNoneFor h.manned (hasNoneFor_of_stillAt h.stillAt)

/-- A waiting worker of a pool at rest has no reason to stay up. -/
theorem Rested.hasWorkFor_eq_false (h : p.Rested) {index : Nat}
    (hwaiting : p.workers[index]? = some .waiting) : p.queue.strategy.isInterrupted = false ∧
      p.queue.strategy.hasWorkFor index p.clock = false := by
  obtain ⟨hopen, hnone⟩ := h.stillAt index _ hwaiting
  have hcalm : p.queue.strategy.isInterrupted = false := by
    by_contra hint
    rw [h.orderly.closed_of_interrupted (by simpa using hint)] at hopen
    contradiction
  exact ⟨hcalm, (h.orderly.sound.strategy.hasWorkFor_eq_false_iff hcalm).2 hnone⟩

theorem rested_settle (h : p.Orderly) (hmanned : p.Manned) : p.settle.Rested :=
  have hworks := works_settle p
  ⟨hworks.orderly h, stillAt_settle h, hmanned.grows (hworks.carries h.sound).toGrows⟩

/-- Taking out what is left makes no work. -/
theorem rested_join (h : p.Rested) : p.join.Rested := by
  refine ⟨orderly_join h.orderly, ?_, h.manned.grows ((reaches_join p).grows h.orderly.sound)⟩
  unfold join
  split
  · exact h.stillAt
  · obtain ⟨-, hnil, -⟩ := h.orderly.sound.drain
    have hnone : ∀ index, p.queue.drain.1.strategy.HasNoneFor index p.clock := fun index =>
      Strategy.hasNoneFor_of_tasks_eq_nil hnil
    intro index w hw
    simp only [cancelRemoved_workers] at hw
    have hstill := h.stillAt index w hw
    simp only [cancelRemoved_queue, cancelRemoved_clock]
    cases w with
    | waiting => exact ⟨hstill.1, hnone index⟩
    | _ => exact hstill

end Pool

end Dispatch
