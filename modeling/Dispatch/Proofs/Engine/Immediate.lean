import Dispatch.Proofs.Engine.Shutdown
import Dispatch.Proofs.Pool.Idle
import Dispatch.Proofs.Queue.Calls
/-!
# Immediate shutdown

A shutdown that is not graceful cancels what is left in the queue when the waiting workers have had a last
look. A worker waits only while it finds nothing in its own shard, so that its last look can hand out a
task only where that look reaches into the shards of other workers and earlier ones did not.
-/

namespace Dispatch

variable {α β : Type}

/-- Where every worker may take every task, a worker that has nothing to take leaves no ready task. -/
theorem Strategy.NoneReadyFor.lt_readyAt {s : Strategy β} {worker : Nat} {now : Instant}
    (h : s.NoneReadyFor worker now) (hshared : s.isShared = true) : ∀ t ∈ s.tasks, now < t.readyAt := by
  cases s with
  | locked q => exact h
  | sharded q =>
      have hstealing : q.stealing = true := hshared
      unfold NoneReadyFor at h
      simp only [hstealing, if_true] at h
      exact h

namespace Pool

variable {p q r : Pool α} {t : Task (Job α)} {turns : List Nat}

/-! ## The stages of the close -/

/-- The pool whose queue was closed, and emptied after these turns. -/
def emptied (p : Pool α) (turns : List Nat) : Pool α :=
  { p.shutAfter turns with queue := (p.shutAfter turns).queue.drain.1 }.cancelRemoved
    (p.shutAfter turns).queue.drain.2

theorem close_false_eq (haccepting : p.accepting = true) (hopen : p.queue.closed = false)
    (hrouse : p.shutQueue.rouse = p.shutAfter turns) : p.close false = p.emptied turns := by
  unfold close closeQueue
  rw [if_pos haccepting, if_neg (by simp [hopen])]
  unfold emptied
  rw [← hrouse]
  rfl

/-- Where no worker waits, nobody has a last look. -/
theorem rouse_eq_self (h : .waiting ∉ p.workers) : p.rouse = p := by
  refine keeps_foldl (I := (· = p)) (fun q index hq => ?_) (List.range p.workers.length) rfl
  subst hq
  refine if_neg fun hwaiting => h ?_
  obtain ⟨w, hw, hwaits⟩ := (Option.any_eq_true _ _).1 hwaiting
  cases w with
  | waiting => exact List.mem_of_getElem? hw
  | _ => contradiction

theorem step_emptied (hs : p.queue.Sound p.clock) (hgated : p.Gated) (hopen : p.queue.closed = false)
    (turns : List Nat) : Step (p.shutAfter turns) (p.emptied turns) :=
  Step.clear (p.shutAfter turns) false (spent_shutAfter hs hgated hopen turns).1.closed

theorem reaches_emptied (hs : p.queue.Sound p.clock) (hgated : p.Gated)
    (hopen : p.queue.closed = false) (turns : List Nat) : p.Reaches (p.emptied turns) :=
  (reaches_shutAfter p turns).trans (step_emptied hs hgated hopen turns).reaches

theorem tasks_emptied (hs : p.queue.Sound p.clock) (hgated : p.Gated)
    (hopen : p.queue.closed = false) (turns : List Nat) : (p.emptied turns).queue.tasks = [] := by
  obtain ⟨hspent, -, -⟩ := spent_shutAfter hs hgated hopen turns
  rw [emptied, cancelRemoved_queue]
  exact hspent.sound.drain.2.1

theorem closing_emptied (hs : p.queue.Sound p.clock) (hgated : p.Gated)
    (hopen : p.queue.closed = false) (turns : List Nat) : (p.emptied turns).Closing := by
  obtain ⟨hspent, -, -⟩ := spent_shutAfter hs hgated hopen turns
  have hgrows := (step_emptied hs hgated hopen turns).grows hspent.sound
  have hnil := tasks_emptied hs hgated hopen turns
  refine ⟨⟨hgrows.sound, hgrows.closed hspent.closed, ?_, fun _ t ht => ?_⟩, fun t ht => ?_⟩
  · rw [emptied, cancelRemoved_queue]
    exact (Strategy.isInterrupted_drain _).trans hspent.interrupted
  · simp [hnil] at ht
  · simp [hnil] at ht

/-! ## The tasks of the queue -/

/-- Whether a task was cancelled and its body was never started. -/
def CancelledUnstarted (r : Pool α) (t : Task (Job α)) : Prop :=
  r.outcome? t.id = some .cancelled ∧ r.startsOf t.id = 0

/-- Whether a queued task of a pool was taken, as its queue was closed, by a worker that was waiting
beside it. -/
structure Strays (p r : Pool α) (t : Task (Job α)) : Prop where
  isReady : t.readyAt ≤ p.clock
  waiting : .waiting ∈ p.workers
  /-- The worker could not take it before. -/
  unshared : p.queue.strategy.isShared = false
  /-- It is taken at the instant of the close, and ends by the rules of the workers. -/
  taken : ∃ a index, p.Reaches a ∧ a.clock = p.clock ∧ a.taken? index = some t ∧
    (a.turnAt index).Reaches r ∧ a.EndsByRules r t

/-- What is left by the last looks is cancelled, and is not taken later. -/
theorem untaken_of_emptied (hkept : p.Kept) (hgated : p.Gated) (hopen : p.queue.closed = false)
    (hworks : (p.emptied turns).Works q) (ht : t ∈ (p.shutAfter turns).queue.tasks) :
    (t.id, .cancelled) ∈ q.delivered ∧ t.id ∉ q.takes.map (·.task.id) := by
  have hs := hkept.balanced.sound
  obtain ⟨hspent, -, -⟩ := spent_shutAfter hs hgated hopen turns
  have hshut : (p.shutAfter turns).Kept := (reaches_shutAfter p turns).kept hkept
  have hemptied : (p.emptied turns).Kept := (reaches_emptied hs hgated hopen turns).kept hkept
  have hremoved : t ∈ (p.shutAfter turns).queue.drain.2 := by
    rwa [hspent.sound.drain.2.2]
  have hdelivered : (t.id, .cancelled) ∈ (p.emptied turns).delivered :=
    mem_delivered_cancelRemoved hspent.sound.drain.1.sound hremoved
  have huntaken : t.id ∉ (p.emptied turns).takes.map (·.task.id) := by
    rw [emptied, cancelRemoved_takes]
    refine hshut.traced.not_mem_takes [] hshut.balanced ?_
    rwa [List.append_nil]
  refine ⟨(hworks.carries hemptied.balanced.sound).delivered_suffix.mem hdelivered, ?_⟩
  exact hworks.untaken hemptied (List.mem_map_of_mem hdelivered) huntaken

/-- What the last looks hand out is ready, and they come at the instant of the close. -/
theorem exists_last_look (hs : p.queue.Sound p.clock) (hgated : p.Gated)
    (hopen : p.queue.closed = false) (ht : t ∈ p.queue.tasks)
    (hleft : t ∉ (p.shutAfter turns).queue.tasks) :
    t.readyAt ≤ p.clock ∧ ∃ a index, p.Reaches a ∧ a.clock = p.clock ∧ a.taken? index = some t ∧
      (a.turnAt index).Reaches (p.shutAfter turns) := by
  have hshut := (spent_shutQueue hs hgated hopen).sound
  obtain ⟨-, hclock, -⟩ := spent_shutAfter hs hgated hopen turns
  obtain ⟨a, index, hto, htaken, hfrom⟩ :=
    (works_shutAfter p turns).exists_turn hshut (by rwa [tasks_shutQueue]) hleft
  have hcarries := hto.carries hshut
  have hlater := hfrom.carries (carries_turnAt hcarries.sound index).sound
  -- the last looks take no time, so that none of them comes later than the close
  have hle : p.clock ≤ a.clock := hcarries.clock_le
  have hge : a.clock ≤ (p.shutAfter turns).clock :=
    Int.le_trans (Int.le_of_eq (clock_turnAt hcarries.sound index).symm) hlater.clock_le
  have hnow : a.clock = p.clock := Int.le_antisymm (hclock ▸ hge) hle
  have hready := Task.isReady_iff.1 (mem_of_taken? hcarries.sound htaken).2
  exact ⟨hnow ▸ hready, a, index, (reaches_shutQueue p).trans hto.reaches, hnow, htaken,
    hfrom.reaches⟩

/-! ## The close as a whole -/

/-- Whether a shutdown that is not graceful has cut short what a pool had to do: `p` is the pool when
the shutdown is called, and `r` the pool when it returns. -/
structure CutsShort (p r : Pool α) : Prop extends AllEnded r where
  /-- What was queued is cancelled and was never started, but for what strays to a waiting worker. -/
  queued : ∀ t ∈ p.queue.tasks, r.CancelledUnstarted t ∨ p.Strays r t
  /-- What was executing has run to its end. -/
  executing : ∀ t ∈ p.running, r.RanToEnd t

/-- If the workers have stopped by themselves after an immediate close, the join completes a shutdown
that cuts short what the pool had to do. -/
theorem Kept.cutsShort (hkept : p.Kept) (hrested : p.Rested) (hgated : p.Gated)
    (hopen : p.queue.closed = false) (hrouse : p.shutQueue.rouse = p.shutAfter turns)
    (hworks : (p.emptied turns).Works q) (hstopped : q.isStopped = true) : p.CutsShort q.join := by
  have hs := hkept.balanced.sound
  have hto : p.Reaches (p.emptied turns) := reaches_emptied hs hgated hopen turns
  have hq : q.Kept := (hto.trans hworks.reaches).kept hkept
  have hjoin : q.Reaches q.join := reaches_join q
  have hr : q.join.Kept := hjoin.kept hq
  have hpos : 0 < q.workers.length := by
    rw [((hto.trans hworks.reaches).grows hs).length_eq, ← hrested.manned.shards_eq]
    exact hrested.manned.shaped.shards_pos
  have htasks : q.queue.tasks = [] :=
    (hworks.closing (closing_emptied hs hgated hopen turns)).tasks_eq_nil
      (stopped_mem_of_isStopped hstopped hpos)
  obtain ⟨hrtasks, hrrunning, hrtakes⟩ := join_empty hq.balanced.sound htasks hstopped
  refine { hr.allEnded hrtasks hrrunning with queued := fun t ht => ?_, executing := fun t ht => ?_ }
  · by_cases hmem : t ∈ (p.shutAfter turns).queue.tasks
    · left
      obtain ⟨hdelivered, huntaken⟩ := untaken_of_emptied hkept hgated hopen hworks hmem
      have hsuffix := (hjoin.grows hq.balanced.sound).delivered_suffix
      refine ⟨hr.outcome?_eq_some_iff.2 (hsuffix.mem hdelivered), ?_⟩
      refine List.count_eq_zero_of_not_mem fun hstarted => huntaken ?_
      rw [hrtakes] at hstarted
      exact (List.filter_sublist.map _).subset hstarted
    · right
      obtain ⟨hready, a, index, hreaches, hclock, htaken, hfrom⟩ :=
        exists_last_look hs hgated hopen ht hmem
      have hwaiting : .waiting ∈ p.workers := by
        by_contra hnone
        refine hmem ?_
        rw [← hrouse, rouse_eq_self (p := p.shutQueue) hnone, tasks_shutQueue]
        exact ht
      have hlater : (a.turnAt index).Reaches q.join :=
        ((hfrom.trans (step_emptied hs hgated hopen turns).reaches).trans hworks.reaches).trans hjoin
      refine ⟨hready, hwaiting, ?_, a, index, hreaches, hclock, htaken, hlater,
        hr.endsByRules (hreaches.grows hs).sound htaken hlater hrrunning⟩
      -- a worker that waits where it may take every task leaves none that is ready
      by_contra hshared
      obtain ⟨index, hindex⟩ := List.mem_iff_getElem?.1 hwaiting
      have hnone := hrested.noIdle.noneReadyFor index .waiting hindex rfl
      have hlate := hnone.lt_readyAt (by simpa using hshared) t ht
      exact absurd hready (Int.not_le.2 hlate)
  · have hgrows := ((hto.trans hworks.reaches).trans hjoin).grows hs
    exact hr.ranToEnd hrrunning ((hkept.running_started t ht).grows hgrows)

end Pool

end Dispatch
