import Dispatch.Proofs.Pool.Launch
/-!
# How the threads of a closed queue come to their end

Once the queue of a launch is closed, every thread that acts comes closer to its end and none is put
back: one that has not begun begins, and one that has begun stops, whether it waits or looks for a
task. So it is enough that each thread acts twice, in whatever order. Then nothing is left running,
and the log tells of the start and the stop of every worker and of nothing else.
-/

namespace Dispatch

variable {α : Type}

namespace Launch

variable {l l' : Launch α} {log : LogBook} {notices : List (Notice × Instant)} {index : Nat}

/-! ## The end of a launch -/

/-- How often the thread of a worker acts until it has stopped, if the queue is closed. -/
def left (l : Launch α) (index : Nat) : Nat :=
  if index ∈ l.unborn then 2
  else l.pool.workers[index]?.elim 0 fun w => if w.isStopped then 0 else 1

/-- Whether one launch becomes another one while the threads of these workers act, the last one
first, and others may act as well. -/
inductive Runs (l : Launch α) : List Nat → Launch α → Prop where
  | refl : Runs l [] l
  | act {turns : List Nat} {l' : Launch α} (h : Runs l turns l') (index : Nat) :
      Runs l (index :: turns) (l'.advance index)
  | step {turns : List Nat} {l' l'' : Launch α} (h : Runs l turns l') (hstep : Step l' l'') :
      Runs l turns l''

/-- Whether a launch with a closed queue comes of another one with the same workers, none of which
is farther from its end than before. -/
structure Winds (l l' : Launch α) : Prop where
  closed : l'.pool.queue.closed = true
  length_eq : l'.pool.workers.length = l.pool.workers.length
  left_le : ∀ index, l'.left index ≤ l.left index

theorem Winds.trans {l'' : Launch α} (h : l.Winds l') (h' : l'.Winds l'') : l.Winds l'' :=
  ⟨h'.closed, h'.length_eq.trans h.length_eq,
    fun index => Nat.le_trans (h'.left_le index) (h.left_le index)⟩

theorem left_le_two (l : Launch α) (index : Nat) : l.left index ≤ 2 := by
  unfold left
  split
  · exact Nat.le_refl 2
  · cases l.pool.workers[index]? with
    | none => exact Nat.zero_le 2
    | some w =>
        show (if w.isStopped then 0 else 1) ≤ 2
        split <;> decide

/-- What touches neither the workers nor the flag of the queue winds nothing back. -/
theorem winds_withPool {q : Pool α} (hclosed : q.queue.closed = true)
    (hworkers : q.workers = l.pool.workers) : l.Winds { l with pool := q } where
  closed := hclosed
  length_eq := congrArg List.length hworkers
  left_le := fun index => by
    unfold left
    rw [hworkers]

theorem Tidy.winds_begin (h : l.Tidy log notices) (hclosed : l.pool.queue.closed = true)
    (hunborn : index ∈ l.unborn) :
    l.Winds (l.begin index) ∧ (l.begin index).left index ≤ l.left index - 1 := by
  have hmem : ∀ i, i ∈ (l.begin index).unborn ↔ i ≠ index ∧ i ∈ l.unborn := fun i =>
    h.nodup.mem_erase_iff
  have hworkers : (l.begin index).pool.workers = l.pool.workers := rfl
  have hbegun : (l.begin index).left index = 1 := by
    simp [left, hmem, hworkers, h.seeking _ hunborn, Worker.isStopped]
  have hbefore : l.left index = 2 := if_pos hunborn
  refine ⟨⟨hclosed, rfl, fun i => ?_⟩, Nat.le_of_eq (by rw [hbegun, hbefore])⟩
  by_cases hi : i = index
  · rw [hi, hbegun, hbefore]
    decide
  · simp [left, hmem, hi, hworkers]

theorem winds_turn (hclosed : l.pool.queue.closed = true) (hunborn : index ∉ l.unborn) {q : Pool α}
    (hturn : l.pool.TurnsIdly index q) :
    l.Winds { l with pool := q } ∧ ({ l with pool := q } : Launch α).left index ≤ l.left index - 1 := by
  cases hturn with
  | rests hnone =>
      refine ⟨winds_withPool hclosed rfl, ?_⟩
      cases hw : l.pool.workers[index]? with
      | none => simp [left, hunborn, hw]
      | some w => simp [left, hunborn, hw, hnone w hw, Worker.isStopped]
  | stays _ _ hopen _ _ _ => simp [hclosed] at hopen
  | stops hw _ _ hlooks =>
      have hindex := (List.getElem?_eq_some_iff.1 hw).1
      have hstopped : ∀ q : Pool α, q.workers = l.pool.workers.set index .stopped →
          ({ l with pool := q } : Launch α).left index = 0 := fun q hq => by
        simp [left, hunborn, hq, hindex, Worker.isStopped]
      refine ⟨⟨hlooks.closed_eq.trans hclosed, List.length_set, fun i => ?_⟩, ?_⟩
      · by_cases hi : index = i
        · rw [← hi, hstopped _ rfl]
          exact Nat.zero_le _
        · simp [left, hi]
      · rw [hstopped _ rfl]
        exact Nat.zero_le _

/-- Once the queue is closed, a thread that acts comes closer to its end, and no other one is put
back. -/
theorem Tidy.winds_advance (h : l.Tidy log notices) (hclosed : l.pool.queue.closed = true)
    (index : Nat) :
    l.Winds (l.advance index) ∧ (l.advance index).left index ≤ l.left index - 1 := by
  unfold Launch.advance
  split
  · exact h.winds_begin hclosed ‹_›
  · exact winds_turn hclosed ‹_› (h.untouched.turnsIdly_turnAt h.idle index)

theorem Step.winds (hstep : Step l l') (h : l.Tidy log notices)
    (hclosed : l.pool.queue.closed = true) : l.Winds l' := by
  cases hstep with
  | create hopen => simp [hclosed] at hopen
  | advance index => exact (h.winds_advance hclosed index).1
  | tick now hle => exact winds_withPool hclosed rfl
  | refuse => exact winds_withPool hclosed rfl
  | shut => exact winds_withPool rfl rfl
  | clear graceful _ =>
      refine winds_withPool ?_ (Pool.cancelRemoved_workers _)
      rw [Pool.cancelRemoved_queue]
      exact (TaskQueue.clear_closed graceful).trans hclosed
  | strand _ =>
      refine winds_withPool ?_ (Pool.cancelRemoved_workers _)
      rw [Pool.cancelRemoved_queue]
      exact hclosed

/-- Each thread is closer to its end by as many turns as it has had. -/
theorem Runs.winds {turns : List Nat} (hruns : l.Runs turns l') (h : l.Tidy log notices)
    (hclosed : l.pool.queue.closed = true) :
    (∃ notices', l'.Tidy log notices') ∧ l.Winds l' ∧
      ∀ index, l'.left index ≤ l.left index - turns.count index := by
  induction hruns with
  | refl => exact ⟨⟨notices, h⟩, ⟨hclosed, rfl, fun _ => Nat.le_refl _⟩, fun _ => Nat.le_refl _⟩
  | step _ hstep ih =>
      obtain ⟨⟨notices', htidy⟩, hwinds, hleft⟩ := ih
      have hlast := hstep.winds htidy hwinds.closed
      exact ⟨hstep.tidy htidy, hwinds.trans hlast,
        fun index => Nat.le_trans (hlast.left_le index) (hleft index)⟩
  | act _ index ih =>
      obtain ⟨⟨notices', htidy⟩, hwinds, hleft⟩ := ih
      obtain ⟨hlast, hcloser⟩ := htidy.winds_advance hwinds.closed index
      refine ⟨htidy.advance index, hwinds.trans hlast, fun i => ?_⟩
      have hbefore := hleft i
      rw [List.count_cons]
      by_cases hi : index = i
      · subst hi
        simp only [BEq.rfl, if_true]
        omega
      · have hother := hlast.left_le i
        simp only [beq_iff_eq, hi, if_false]
        omega

/-! ## What is left when all have stopped -/

end Launch

/-- Whether records tell of the start and then of the stop of each of so many workers, once of each,
and of nothing else. -/
structure Notice.Complete (workers : Nat) (records : List LogRecord) : Prop where
  level_eq : ∀ r ∈ records, r.level = .info
  named : ∀ r ∈ records, ∃ n : Notice, n.worker < workers ∧ r.message = n.message
  twice : ∀ index, (records.map (·.message)).filter
      (· ∈ [(started index).message, (stopped index).message]) =
    if index < workers then [(started index).message, (stopped index).message] else []

/-- Whether nothing is left running of a pool after so many of its workers were started: all of them
have stopped and reported both, and no task was executed or counted. -/
structure Pool.Released (log : LogBook) (workers : Nat) (p : Pool α) : Prop extends
    p.Untouched where
  workers_eq : p.workers = List.replicate workers .stopped
  closed : p.queue.closed = true
  /-- In a log that is large enough, the reports of the workers are all there. -/
  reports : ∃ records, Notice.Complete workers records ∧ p.log = log.addAll records ∧
    (log.records.length + 2 * workers ≤ log.limit → p.log.records = log.records ++ records)

namespace Launch

variable {l l' : Launch α} {log : LogBook} {notices : List (Notice × Instant)} {index : Nat}

/-- A list whose members fall to so many places, `k` to each, has `k` times as many members. -/
theorem length_eq_of_filter {β : Type} (place : β → Nat) (k n : Nat) (members : List β)
    (h : ∀ i, (members.filter (place · = i)).length = if i < n then k else 0) :
    members.length = k * n := by
  induction n generalizing members with
  | zero =>
      rw [Nat.mul_zero, List.length_eq_zero_iff, List.eq_nil_iff_forall_not_mem]
      intro x hx
      have hmem : x ∈ members.filter (place · = place x) := List.mem_filter.2 ⟨hx, by simp⟩
      rw [List.length_eq_zero_iff.1 ((h (place x)).trans (if_neg (Nat.not_lt_zero _)))] at hmem
      contradiction
  | succ n ih =>
      have hothers : (members.filter fun x => !decide (place x = n)).length = k * n := by
        refine ih _ fun i => ?_
        rw [List.filter_filter]
        by_cases hi : i = n
        · subst hi
          simp
        · have hsame : members.filter (fun x => decide (place x = i) && !decide (place x = n)) =
              members.filter (place · = i) :=
            List.filter_congr fun x _ => by
              by_cases hx : place x = i <;> simp [hx, hi]
          rw [hsame, h i]
          simp only [Nat.lt_succ_iff, Nat.le_iff_lt_or_eq, hi, or_false]
      rw [List.length_eq_length_filter_add (place · = n), h n, if_pos (Nat.lt_succ_self n), hothers]
      rw [Nat.mul_succ, Nat.add_comm]

theorem told_of_stopped {workers : List (Worker α)} (hstopped : ∀ w ∈ workers, w = .stopped)
    (index : Nat) : told [] workers index =
      if index < workers.length then [.started index, .stopped index] else [] := by
  unfold told
  rw [if_neg List.not_mem_nil]
  split
  · rename_i hindex
    rw [List.getElem?_eq_getElem hindex, hstopped _ (List.getElem_mem hindex)]
    rfl
  · rename_i hindex
    rw [List.getElem?_eq_none (Nat.not_lt.1 hindex)]
    rfl

/-- The messages of a worker are those of the notices that it has given. -/
theorem filter_message (notices : List Notice) (index : Nat) :
    (notices.map Notice.message).filter
        (· ∈ [(Notice.started index).message, (Notice.stopped index).message]) =
      (notices.filter (·.worker = index)).map Notice.message := by
  rw [List.filter_map]
  congr 1
  refine List.filter_congr fun n _ => decide_eq_decide.2 ?_
  have hmessage : ∀ m : Notice, n.message = m.message ↔ n = m := fun m =>
    ⟨Notice.message_injective, fun heq => congrArg _ heq⟩
  cases n <;> simp [hmessage, Notice.worker]

/-- Nothing is left running of a launch with a closed queue all of whose threads have stopped. -/
theorem Tidy.released (h : l.Tidy log notices) (hclosed : l.pool.queue.closed = true)
    (hunborn : l.unborn = []) (hstopped : ∀ w ∈ l.pool.workers, w = .stopped) :
    l.pool.Released log l.pool.workers.length := by
  have htold : ∀ index, (notices.map Prod.fst).filter (·.worker = index) =
      if index < l.pool.workers.length then [.started index, .stopped index] else [] := fun index => by
    rw [h.told_eq, hunborn, told_of_stopped hstopped]
  have hworker : ∀ n ∈ notices.map Prod.fst, n.worker < l.pool.workers.length := fun n hn => by
    by_contra hbeyond
    have hmem : n ∈ (notices.map Prod.fst).filter (·.worker = n.worker) :=
      List.mem_filter.2 ⟨hn, by simp⟩
    rw [htold, if_neg hbeyond] at hmem
    contradiction
  have hlength : notices.length = 2 * l.pool.workers.length := by
    rw [← length_eq_of_filter Notice.worker 2 l.pool.workers.length (notices.map Prod.fst),
      List.length_map]
    intro index
    rw [htold]
    split <;> rfl
  let records := notices.map fun n => n.1.record n.2
  have hmessages : records.map (·.message) = (notices.map Prod.fst).map Notice.message := by
    simp [records, Notice.record]
  refine ⟨h.untouched, List.eq_replicate_iff.2 ⟨rfl, hstopped⟩, hclosed, records,
    ⟨fun r hr => ?_, fun r hr => ?_, fun index => ?_⟩, h.log_eq, fun hroom => ?_⟩
  · obtain ⟨n, -, rfl⟩ := List.mem_map.1 hr
    rfl
  · obtain ⟨n, hn, rfl⟩ := List.mem_map.1 hr
    exact ⟨n.1, hworker _ (List.mem_map_of_mem hn), rfl⟩
  · rw [hmessages, filter_message, htold]
    split <;> rfl
  · rw [h.log_eq, LogBook.records_addAll]
    rwa [List.length_map, hlength]

/-- Once the queue is closed, it is enough that each thread acts twice, in whatever order. -/
theorem Runs.released {turns : List Nat} (hruns : l.Runs turns l') (h : l.Tidy log notices)
    (hclosed : l.pool.queue.closed = true)
    (hturns : ∀ index < l.pool.workers.length, 2 ≤ turns.count index) :
    l'.pool.Released log l.pool.workers.length := by
  obtain ⟨⟨notices', htidy⟩, hwinds, hleft⟩ := hruns.winds h hclosed
  have hdone : ∀ index < l'.pool.workers.length, l'.left index = 0 := fun index hindex => by
    have hgone := hleft index
    have hmost := l.left_le_two index
    have hoften := hturns index (hwinds.length_eq ▸ hindex)
    omega
  have hunborn : l'.unborn = [] := by
    refine List.eq_nil_iff_forall_not_mem.2 fun index hmem => ?_
    have hindex := (List.getElem?_eq_some_iff.1 (htidy.seeking index hmem)).1
    have hleft := hdone index hindex
    rw [left, if_pos hmem] at hleft
    contradiction
  rw [← hwinds.length_eq]
  refine htidy.released hwinds.closed hunborn fun w hw => ?_
  obtain ⟨index, hindex, rfl⟩ := List.getElem_of_mem hw
  have hleft := hdone index hindex
  rw [left, hunborn, if_neg List.not_mem_nil, List.getElem?_eq_getElem hindex] at hleft
  cases hworker : l'.pool.workers[index] with
  | stopped => rfl
  | _ => simp [hworker, Worker.isStopped] at hleft

end Launch

end Dispatch
