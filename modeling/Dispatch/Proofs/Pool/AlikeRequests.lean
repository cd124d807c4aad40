import Dispatch.Proofs.Pool.Alike
/-!
# What is asked of pools that are alike

Requests to alike pools have the same answers and leave them alike. As long as nothing can be done in
either of them, the next instant at which something happens is the same for both.
-/

namespace Dispatch

variable {α : Type}

namespace Pool

variable {p p' q : Pool α} {t : Task (Job α)}

/-! ## Submissions -/

/-- The next number is not that of a queued task. -/
theorem Kept.nextId_not_mem (h : p.Kept) : p.nextId ∉ p.queue.tasks.map Task.id := by
  intro hmem
  obtain ⟨t, ht, hid⟩ := List.mem_map.1 hmem
  obtain ⟨a, ha, rfl⟩ := List.mem_map.1 (h.balanced.mem_accepted t (List.mem_append_left _ ht))
  have hlt := h.balanced.answers_lt a (List.mem_filter.1 ha).1
  omega

theorem Alike.enqueue (h : p.Alike p') (hfresh : t.id ∉ p.queue.tasks.map Task.id) :
    (p'.enqueue t).2 = (p.enqueue t).2 ∧ (p.enqueue t).1.Alike (p'.enqueue t).1 := by
  obtain ⟨hanswer, hqueue⟩ := h.queue.push hfresh
  rw [← congrArg (fun now => (p'.queue.push now t)) h.clock_eq] at hanswer hqueue
  unfold Pool.enqueue
  simp only
  generalize p.queue.push p.clock t = r at hanswer hqueue
  generalize p'.queue.push p'.clock t = r' at hanswer hqueue
  obtain ⟨queue, answer⟩ := r
  obtain ⟨queue', answer'⟩ := r'
  obtain rfl : answer' = answer := hanswer
  cases answer' with
  | error fault =>
      refine ⟨rfl, { h with
        queue := hqueue
        metrics_eq := congrArg Metrics.recordRejected h.metrics_eq
        tracker_eq := ?_ }⟩
      exact congrArg (fun t => Tracker.leave (Tracker.enter t)) h.tracker_eq
  | ok =>
      exact ⟨rfl, { h with
        queue := hqueue
        metrics_eq := congrArg Metrics.recordSubmitted h.metrics_eq
        tracker_eq := congrArg Tracker.enter h.tracker_eq }⟩

theorem Alike.reject (h : p.Alike p') : p.reject.Alike p'.reject :=
  { h with metrics_eq := congrArg Metrics.recordRejected h.metrics_eq }

theorem Alike.accept (h : p.Alike p') (hfresh : t.id ∉ p.queue.tasks.map Task.id) :
    (p'.accept t).2 = (p.accept t).2 ∧ (p.accept t).1.Alike (p'.accept t).1 := by
  obtain ⟨hanswer, hbooks⟩ := h.toSameBooks.acquire
  have hacquired : p.acquire.1.Alike p'.acquire.1 :=
    { hbooks with queue := h.queue, workers := h.workers }
  have hqueue : p.acquire.1.queue = p.queue := rfl
  unfold Pool.accept
  rw [h.accepting_eq]
  split
  · rw [← hqueue] at hfresh
    generalize p.acquire = r at hanswer hacquired hfresh
    generalize p'.acquire = r' at hanswer hacquired
    obtain ⟨q, answer⟩ := r
    obtain ⟨q', answer'⟩ := r'
    obtain rfl : answer' = answer := hanswer
    cases answer' with
    | error fault => exact ⟨rfl, hacquired.reject⟩
    | ok => exact hacquired.enqueue hfresh
  · exact ⟨rfl, h.reject⟩

theorem Alike.submitAt (h : p.Alike p') (hkept : p.Kept) (readyAt : Instant) (s : Submission α) :
    (p'.submitAt readyAt s).2 = (p.submitAt readyAt s).2 ∧
      (p.submitAt readyAt s).1.Alike (p'.submitAt readyAt s).1 := by
  have hnumbered : Alike { p with nextId := p.nextId + 1 } { p' with nextId := p'.nextId + 1 } :=
    { h with nextId_eq := congrArg (· + 1) h.nextId_eq }
  obtain ⟨hanswer, halike⟩ := hnumbered.accept (t := p.newTask readyAt s) hkept.nextId_not_mem
  unfold newTask at hanswer halike
  unfold Pool.submitAt
  simp only [h.nextId_eq] at hanswer halike ⊢
  refine ⟨by rw [hanswer], { halike with answers_eq := ?_ }⟩
  show (_ :: _ : List (Task (Job α) × Except Fault Unit)) = _ :: _
  rw [hanswer, halike.answers_eq]

/-! ## Tokens and the breaker -/

theorem Alike.freshToken (h : p.Alike p') :
    Alike { p with tokens := p.tokens.fresh.1 } { p' with tokens := p'.tokens.fresh.1 } :=
  { h with tokens_eq := congrArg (fun c => (Cancellations.fresh c).1) h.tokens_eq }

theorem Alike.cancel (h : p.Alike p') (t : Token) :
    Alike { p with tokens := p.tokens.cancel t } { p' with tokens := p'.tokens.cancel t } :=
  { h with tokens_eq := congrArg (Cancellations.cancel · t) h.tokens_eq }

theorem Alike.tellBreaker (h : p.Alike p') (change : Breaker → Breaker) :
    Alike (p.withBreaker (change p.breaker)) (p'.withBreaker (change p'.breaker)) :=
  { h with breaker_eq := congrArg change h.breaker_eq }

/-! ## Pools at rest -/

/-- At rest, a worker that is idle is asleep. -/
theorem Alike.workers_eq (h : p.Alike p') (hp : p.Rested) (hp' : p'.Rested) :
    p'.workers = p.workers := by
  obtain ⟨w, w', hw, hw', hworker⟩ := h.workers
  have hasleep : ∀ {q : Pool α} {u : Worker α}, q.Rested → q.workers = [u] → u.isIdle = true →
      u = .waiting := by
    intro q u hq hu hidle
    have hstill := hq.stillAt 0 u (by rw [hu]; rfl)
    cases u with
    | seeking => exact absurd hstill id
    | waiting => rfl
    | busy run => contradiction
    | stopped => contradiction
  rw [hw, hw']
  rcases hworker with rfl | ⟨hidle, hidle'⟩
  · rfl
  · rw [hasleep hp hw hidle, hasleep hp' hw' hidle']

/-- At rest, both wait for the same instant. -/
theorem Alike.nextWake_eq (h : p.Alike p') (hp : p.Rested) (hp' : p'.Rested) :
    p'.nextWake = p.nextWake := by
  obtain ⟨w, -, hw, -, -⟩ := h.workers
  unfold Pool.nextWake
  rw [h.workers_eq hp hp']
  split
  · rename_i hwaiting
    have hidle : ∀ u ∈ p.workers, u.isIdle = true := by
      rw [hw] at hwaiting ⊢
      cases w <;> simp_all [Worker.isWaiting, Worker.isIdle]
    have hlate : ∀ t ∈ p.queue.strategy.tasks, t.isReady p.clock = false := fun t ht =>
      Task.not_isReady_iff.2 (hp.noIdle.allIdle hidle t ht)
    rw [h.queue.strategy.nextReadyAt_eq hlate]
  · rfl

/-- The bodies at hand are the same. -/
theorem Alike.timeNeeded_eq (h : p.Alike p') (hp : p.Rested) (hp' : p'.Rested) :
    p'.timeNeeded = p.timeNeeded := by
  unfold Pool.timeNeeded
  rw [h.workers_eq hp hp', h.clock_eq, sumOf_perm h.queue.tasks_perm]

theorem Alike.isStopped_eq (h : p.Alike p') (hp : p.Rested) (hp' : p'.Rested) :
    p'.isStopped = p.isStopped := by
  unfold Pool.isStopped
  rw [h.workers_eq hp hp']

/-! ## Closing -/

theorem Alike.rouse (h : p.Alike p') (hworkers : p'.workers = p.workers) :
    p.rouse.Alike p'.rouse := by
  obtain ⟨w, -, hw, -, -⟩ := h.workers
  have hrouse : ∀ q : Pool α, q.workers = [w] →
      q.rouse = if w.isWaiting then q.turnAt 0 else q := fun q hq => by
    simp [Pool.rouse, hq]
  rw [hrouse p hw, hrouse p' (hworkers.trans hw)]
  split
  · exact h.turnAt
  · exact h

/-- What was taken out of both queues is cancelled in both pools. -/
theorem Alike.cancelRemoved (h : p.Alike p') {removed removed' : List (Task (Job α))}
    (hperm : removed.Perm removed') :
    (p.cancelRemoved removed).Alike (p'.cancelRemoved removed') where
  toSameBooks := h.toSameBooks.cancelRemoved hperm
  queue := by simpa using h.queue
  workers := by simpa using h.workers

theorem Alike.closeQueue (h : p.Alike p') (hworkers : p'.workers = p.workers) (graceful : Bool) :
    (p.closeQueue graceful).Alike (p'.closeQueue graceful) := by
  unfold Pool.closeQueue
  rw [h.queue.closed_eq]
  split
  · exact h
  · have hroused : Alike ({ p with queue := p.queue.shut } : Pool α).rouse
        ({ p' with queue := p'.queue.shut } : Pool α).rouse :=
      Alike.rouse { h with queue := h.queue.shut } hworkers
    simp only
    generalize ({ p with queue := p.queue.shut } : Pool α).rouse = r at hroused
    generalize ({ p' with queue := p'.queue.shut } : Pool α).rouse = r' at hroused
    obtain ⟨hremoved, hqueue⟩ := hroused.queue.clear graceful
    rw [← congrArg (r'.queue.clear graceful) hroused.clock_eq] at hremoved hqueue
    refine Alike.cancelRemoved ?_ hremoved
    exact { hroused with queue := hqueue }

theorem Alike.close (h : p.Alike p') (hp : p.Rested) (hp' : p'.Rested) (graceful : Bool) :
    (p.close graceful).Alike (p'.close graceful) := by
  unfold Pool.close
  rw [h.accepting_eq]
  split
  · have hrefusing : Alike { p with accepting := false } { p' with accepting := false } :=
      { h with accepting_eq := rfl }
    exact hrefusing.closeQueue (h.workers_eq hp hp') graceful
  · exact h

theorem Alike.abandon (h : p.Alike p') (hp : p.Rested) (hp' : p'.Rested) :
    p.abandon.Alike p'.abandon := by
  unfold Pool.abandon
  rw [h.accepting_eq]
  split
  · exact (h.close hp hp' false).note _ _ _ _
  · exact h

theorem clock_join (p : Pool α) : p.join.clock = p.clock := by
  unfold Pool.join
  split
  · rfl
  · exact cancelRemoved_clock _

theorem Alike.join (h : p.Alike p') : p.join.Alike p'.join := by
  unfold Pool.join
  rw [h.joined_eq]
  split
  · exact h
  · obtain ⟨hremoved, hqueue⟩ := h.queue.drain
    refine Alike.cancelRemoved ?_ hremoved
    exact { h with queue := hqueue, joined_eq := rfl }

/-! ## Adjustments -/

/-- When the workers have come to rest, no trace of an adjustment is left. -/
theorem Adjust.settle_alike (hadjust : Adjust p q) (h : p.Alike p) (hp : p.Orderly) :
    p.settle.Alike q.settle := by
  have hq := hadjust.act.orderly hp
  cases hadjust with
  | note level message => exact Alike.settle { h with } hp hq
  | sample c => exact Alike.settle { h with queue := h.queue.withContention_right c } hp hq
  | switch kind => exact h.settle_switch_right kind hp hp

/-- Whatever becomes of a pool of one worker, it is alike to itself. -/
theorem Alike.refl_of_reaches (h : p.Alike p') (hkept : p.Kept) (hreaches : p.Reaches q) :
    q.Alike q := by
  have hgrows := hreaches.grows h.queue.sound
  have hundivided := h.queue.undivided.of_sameSettings hgrows.settings
  have hplaces := (hreaches.kept hkept).balanced.places_nodup
  rw [List.map_append, List.append_assoc] at hplaces
  obtain ⟨w, -, hw, -, -⟩ := h.workers
  obtain ⟨w', hw'⟩ := List.length_eq_one_iff.1 (hgrows.length_eq.trans (by rw [hw]; rfl))
  exact
    { clock_eq := rfl
      breaker_eq := rfl
      metrics_eq := rfl
      tokens_eq := rfl
      tracker_eq := rfl
      active_eq := rfl
      accepting_eq := rfl
      joined_eq := rfl
      nextId_eq := rfl
      answers_eq := rfl
      delivered_perm := List.Perm.refl _
      takes_eq := rfl
      queue :=
        { sound := hgrows.sound
          sound' := hgrows.sound
          undivided := hundivided
          undivided' := hundivided
          tasks_perm := List.Perm.refl _
          ids_nodup := (List.nodup_append.1 hplaces).1
          capacity_eq := rfl
          closed_eq := rfl }
      workers := ⟨w', w', hw', hw', .inl rfl⟩ }

/-- Nor is one left of several adjustments. -/
theorem Adjusts.settle_alike (hadjusts : p.Adjusts q) (h : p.Alike p) (hkept : p.Kept)
    (hp : p.Orderly) : p.settle.Alike q.settle := by
  induction hadjusts with
  | refl => exact h.settle hp hp
  | tail hfirst hlast ih =>
      have hacts := Adjusts.acts hfirst
      exact ih.trans (hlast.settle_alike (h.refl_of_reaches hkept (hacts.reaches hp.sound))
        (hacts.orderly hp))

end Pool

end Dispatch
