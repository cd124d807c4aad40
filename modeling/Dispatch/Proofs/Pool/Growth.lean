import Dispatch.Proofs.Pool.Admission
import Dispatch.Proofs.Pool.Turn
/-!
# What no step takes back

The clock moves forward, a cancelled token stays cancelled, a closed queue stays closed, and what was
taken or delivered stays on record. Without a request the queue is not even closed or interrupted.
-/

namespace Dispatch

variable {α : Type}

namespace Pool

variable {p q r : Pool α} {t : Task (Job α)} {o : Outcome α}

/-- Whether a pool can be a later state of another one, as far as nothing is taken back. -/
structure Grows (p q : Pool α) : Prop where
  sound : q.queue.Sound q.clock
  clock_le : p.clock ≤ q.clock
  closed : p.queue.closed = true → q.queue.closed = true
  accepting : q.accepting = true → p.accepting = true
  still_open : q.accepting = true → p.queue.closed = false → q.queue.closed = false
  settings : TaskQueue.SameSettings p.queue q.queue
  length_eq : q.workers.length = p.workers.length
  tokens : q.tokens.Extends p.tokens
  answers_suffix : p.answers <:+ q.answers
  takes_suffix : p.takes <:+ q.takes
  delivered_suffix : p.delivered <:+ q.delivered

theorem Grows.refl (hs : p.queue.Sound p.clock) : Grows p p where
  sound := hs
  clock_le := Int.le_refl _
  closed := id
  accepting := id
  still_open := fun _ h => h
  settings := TaskQueue.SameSettings.refl _
  length_eq := rfl
  tokens := Cancellations.Extends.refl _
  answers_suffix := List.suffix_rfl
  takes_suffix := List.suffix_rfl
  delivered_suffix := List.suffix_rfl

theorem Grows.trans (hpq : Grows p q) (hqr : Grows q r) : Grows p r where
  sound := hqr.sound
  clock_le := Int.le_trans hpq.clock_le hqr.clock_le
  closed := hqr.closed ∘ hpq.closed
  accepting := hpq.accepting ∘ hqr.accepting
  still_open := fun hr hp => hqr.still_open hr (hpq.still_open (hqr.accepting hr) hp)
  settings := hpq.settings.trans hqr.settings
  length_eq := hqr.length_eq.trans hpq.length_eq
  tokens := hqr.tokens.trans hpq.tokens
  answers_suffix := hpq.answers_suffix.trans hqr.answers_suffix
  takes_suffix := hpq.takes_suffix.trans hqr.takes_suffix
  delivered_suffix := hpq.delivered_suffix.trans hqr.delivered_suffix

/-- Whether a pool can be a later state of another one if nobody made a request. -/
structure Carries (p q : Pool α) : Prop extends Grows p q where
  closed_eq : q.queue.closed = p.queue.closed
  isInterrupted_eq : q.queue.strategy.isInterrupted = p.queue.strategy.isInterrupted
  accepting_eq : q.accepting = p.accepting

theorem Carries.refl (hs : p.queue.Sound p.clock) : Carries p p := ⟨Grows.refl hs, rfl, rfl, rfl⟩

theorem Carries.trans (hpq : Carries p q) (hqr : Carries q r) : Carries p r :=
  ⟨hpq.toGrows.trans hqr.toGrows, hqr.closed_eq.trans hpq.closed_eq,
    hqr.isInterrupted_eq.trans hpq.isInterrupted_eq, hqr.accepting_eq.trans hpq.accepting_eq⟩

/-! ## Turns -/

/-- A queue that hands out tasks, and is as open as the one at hand, can take its place. -/
theorem grows_withQueue (hs : p.queue.Sound p.clock) {ts : List (Task (Job α))}
    {queue : TaskQueue (Job α)} (hout : TaskQueue.HandsOut p.clock ts p.queue queue)
    (hclosed : queue.closed = p.queue.closed) : Grows p { p with queue := queue } :=
  { Grows.refl hs with
    sound := hout.sound
    closed := fun h => hclosed.trans h
    still_open := fun _ h => hclosed.trans h
    settings := hout.toSameSettings }

/-- So can a queue that a worker has looked at. -/
theorem carries_withQueue (hs : p.queue.Sound p.clock) {queue : TaskQueue (Job α)}
    {found : Option (Task (Job α))} (h : TaskQueue.Looks p.clock p.queue (queue, found)) :
    Carries p { p with queue := queue } :=
  { grows_withQueue hs h.handsOut h.closed_eq with
    closed_eq := h.closed_eq
    isInterrupted_eq := h.isInterrupted_eq
    accepting_eq := rfl }

theorem Ends.carries (hs : p.queue.Sound p.clock) (h : p.Ends t o q) : Carries p q := by
  obtain ⟨metrics, breaker, log, -, rfl⟩ := h
  exact { Carries.refl hs with delivered_suffix := List.suffix_cons _ _ }

theorem Proceeds.carries (hs : p.queue.Sound p.clock) {actions : List Action} {w : Worker α}
    (h : p.Proceeds t actions q w) : Carries p q := by
  cases h with
  | sleeps htokens _ _ _ => exact { Carries.refl hs with tokens := htokens }
  | @ends c _ _ htokens _ hends =>
      have hc : Carries p { p with tokens := c } := { Carries.refl hs with tokens := htokens }
      exact hc.trans (hends.carries hs)

theorem TakesOn.carries (hs : p.queue.Sound p.clock) {queue : TaskQueue (Job α)} {w : Worker α}
    (hlooks : TaskQueue.Looks p.clock p.queue (queue, some t)) (h : p.TakesOn queue t q w) :
    Carries p q := by
  have hsound := hlooks.handsOut.sound
  have htake : ∀ take breaker log, Carries p (p.withTake queue take breaker log) :=
    fun take breaker log =>
      { carries_withQueue hs hlooks with takes_suffix := List.suffix_cons _ _ }
  cases h with
  | cancels _ hends => exact (htake _ _ _).trans (hends.carries hsound)
  | refuses _ _ _ _ hends => exact (htake _ _ _).trans (hends.carries hsound)
  | starts _ _ _ _ hproceeds => exact (htake _ _ _).trans (hproceeds.carries hsound)

theorem Turned.carries (hs : p.queue.Sound p.clock) {index : Nat} {w w' : Worker α}
    (h : p.Turned index w q w') : Carries p q := by
  cases h with
  | rests _ => exact Carries.refl hs
  | goesOn _ _ hproceeds => exact hproceeds.carries hs
  | misses _ _ _ hlooks _ _ => exact { carries_withQueue hs hlooks with }
  | takes _ _ hlooks htakes => exact htakes.carries hs hlooks

theorem carries_turnAt (hs : p.queue.Sound p.clock) (index : Nat) : Carries p (p.turnAt index) := by
  rcases turnAt_cases hs index with ⟨-, heq⟩ | ⟨w, p', w', -, hturned, heq⟩
  · rw [heq]
    exact Carries.refl hs
  · rw [heq]
    have h := hturned.carries hs
    exact { h with length_eq := List.length_set.trans h.length_eq }

theorem Work.carries (hs : p.queue.Sound p.clock) (h : Work p q) : Carries p q := by
  cases h with
  | turn index => exact carries_turnAt hs index
  | tick now hle => exact { Carries.refl hs with sound := hs.mono hle, clock_le := hle }

/-- What holds of turns and of the passing of time holds of any number of them. -/
theorem Works.carries (hs : p.queue.Sound p.clock) (h : p.Works q) : Carries p q := by
  induction h with
  | refl => exact Carries.refl hs
  | tail _ hlast ih => exact ih.trans (hlast.carries ih.sound)

/-- Settling takes no time. -/
theorem clock_settle (hs : p.queue.Sound p.clock) : p.settle.clock = p.clock :=
  (keeps_settle (I := fun q => q.queue.Sound q.clock ∧ q.clock = p.clock)
    (fun _ index h => ⟨(carries_turnAt h.1 index).sound, (clock_turnAt h.1 index).trans h.2⟩)
    ⟨hs, rfl⟩).2

/-! ## Requests -/

theorem Submits.grows (hs : p.queue.Sound p.clock) (h : p.Submits t q) : Grows p q := by
  cases h with
  | refused fault breaker log =>
      exact { Grows.refl hs with answers_suffix := List.suffix_cons _ _ }
  | accepted breaker log hpush =>
      exact { Grows.refl hs with
        sound := (hs.push_of_ok hpush).1
        closed := fun h => (TaskQueue.push_closed t).trans h
        still_open := fun _ h => (TaskQueue.push_closed t).trans h
        settings := hs.sameSettings_push t
        answers_suffix := List.suffix_cons _ _ }

theorem grows_cancelRemoved (hs : p.queue.Sound p.clock) (removed : List (Task (Job α))) :
    Grows p (p.cancelRemoved removed) := by
  rw [cancelRemoved_eq]
  induction removed generalizing p with
  | nil => exact Grows.refl hs
  | cons t rest ih =>
      have hone : Grows p (p.cancelUntaken t) :=
        { Grows.refl hs with delivered_suffix := List.suffix_cons _ _ }
      exact hone.trans (ih hs)

theorem Step.grows (hs : p.queue.Sound p.clock) (h : Step p q) : Grows p q := by
  cases h with
  | work hwork => exact (hwork.carries hs).toGrows
  | submitAt readyAt s => exact (submits_submitAt p readyAt s).grows hs
  | freshToken => exact { Grows.refl hs with tokens := Cancellations.extends_fresh _ }
  | cancel t => exact { Grows.refl hs with tokens := Cancellations.extends_cancel _ t }
  | tellBreaker _ | note _ _ => exact { Grows.refl hs with }
  | sample c => exact grows_withQueue hs (hs.withContention c) rfl
  | interrupt _ => exact grows_withQueue hs hs.interrupt rfl
  | refill kind _ => exact grows_withQueue hs (hs.refill kind).1 rfl
  | refuse =>
      exact { Grows.refl hs with
        accepting := fun h => absurd h (by simp)
        still_open := fun h => absurd h (by simp) }
  | shut hrefusing =>
      have hout := hs.shut
      exact { Grows.refl hs with
        sound := hout.sound
        closed := fun _ => rfl
        still_open := fun h => absurd (h.symm.trans hrefusing) (by simp)
        settings := hout.toSameSettings }
  | clear graceful hclosed =>
      have hout := hs.clear graceful
      have hone := grows_withQueue hs hout (TaskQueue.clear_closed graceful)
      exact hone.trans (grows_cancelRemoved hout.sound _)
  | strand =>
      have hout := hs.drain.1
      have hone := grows_withQueue hs hout rfl
      have hjoined : Grows p { p with queue := p.queue.drain.1, joined := true } :=
        { hone with }
      exact hjoined.trans (grows_cancelRemoved hout.sound _)

/-- No run takes anything back. -/
theorem Reaches.grows (hs : p.queue.Sound p.clock) (h : p.Reaches q) : Grows p q := by
  induction h with
  | refl => exact Grows.refl hs
  | tail _ hlast ih => exact ih.trans (hlast.grows ih.sound)

/-! ## Requests of several steps -/

theorem reaches_switch (hs : p.queue.Sound p.clock) (kind : StrategyKind) :
    p.Reaches (p.switch kind).1 := by
  unfold switch
  split
  · rename_i hcan
    have hopen := (TaskQueue.canSwitch_iff.1 hcan).1
    -- workers have their turns between the interrupt and the exchange
    let roused := { p with queue := p.queue.interrupt }.rouse
    have hrouse : Works { p with queue := p.queue.interrupt } roused := works_rouse _
    have hclosed : roused.queue.closed = false :=
      (hrouse.carries hs.interrupt.sound).closed_eq.trans hopen
    exact ((Step.interrupt p hopen).reaches.trans hrouse.reaches).trans
      (Step.refill roused kind hclosed).reaches
  · exact Reaches.refl p

theorem reaches_closeQueue (hs : p.queue.Sound p.clock) (hrefusing : p.accepting = false)
    (graceful : Bool) : p.Reaches (p.closeQueue graceful) := by
  unfold closeQueue
  split
  · exact Reaches.refl p
  · let roused := { p with queue := p.queue.shut }.rouse
    have hrouse : Works { p with queue := p.queue.shut } roused := works_rouse _
    have hclosed : roused.queue.closed = true := (hrouse.carries hs.shut.sound).closed_eq
    exact ((Step.shut p hrefusing).reaches.trans hrouse.reaches).trans
      (Step.clear roused graceful hclosed).reaches

theorem reaches_close (hs : p.queue.Sound p.clock) (graceful : Bool) :
    p.Reaches (p.close graceful) := by
  unfold close
  split
  · have hclose := reaches_closeQueue (p := { p with accepting := false }) hs rfl graceful
    exact (Step.refuse p).reaches.trans hclose
  · exact Reaches.refl p

theorem reaches_abandon (hs : p.queue.Sound p.clock) : p.Reaches p.abandon := by
  unfold abandon
  split
  · exact (reaches_close hs false).trans (Step.note _ _ _).reaches
  · exact Reaches.refl p

theorem reaches_join (p : Pool α) : p.Reaches p.join := by
  unfold join
  split
  · exact Reaches.refl p
  · exact (Step.strand p).reaches

end Pool

end Dispatch
