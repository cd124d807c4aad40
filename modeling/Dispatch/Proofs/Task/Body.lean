import Dispatch.Task.Cell
/-!
# What bodies do

Tokens are only ever cancelled. A body that sleeps wakes up later than now and has no more time to
let pass than its actions had, and a body gives up only if its token is cancelled.
-/

namespace Dispatch

/-! ## Tokens -/

namespace Cancellations

variable {c c' : Cancellations}

/-- Whether every token that is cancelled in one record is so in the other one. -/
def Extends (c' c : Cancellations) : Prop := ∀ t, c.isCancelled t = true → c'.isCancelled t = true

theorem Extends.refl (c : Cancellations) : c.Extends c := fun _ h => h

theorem Extends.trans {c'' : Cancellations} (h' : c''.Extends c') (h : c'.Extends c) :
    c''.Extends c :=
  fun t ht => h' t (h t ht)

theorem extends_cancel (c : Cancellations) (t : Token) : (c.cancel t).Extends c := by
  intro u hu
  unfold cancel
  split
  · exact hu
  · simp only [isCancelled, List.contains_iff_mem, List.mem_cons] at hu ⊢
    exact Or.inr hu

@[simp] theorem isCancelled_cancel (c : Cancellations) (t : Token) :
    (c.cancel t).isCancelled t = true := by
  unfold cancel
  split
  · assumption
  · simp [isCancelled]

theorem extends_fresh (c : Cancellations) : c.fresh.1.Extends c := fun _ h => h

theorem Extends.asksToStop (h : c'.Extends c) {own : Option Token}
    (hstop : c.asksToStop own = true) : c'.asksToStop own = true := by
  cases own with
  | none => exact hstop
  | some t => exact h t hstop

end Cancellations

/-! ## Actions -/

namespace Progress

variable {now : Instant} {own : Option Token}

/-- Whether the tokens and the progress of a body can come of actions at an instant. -/
def ComesOf (now : Instant) (own : Option Token) (actions : List Action) (c : Cancellations) :
    Cancellations × Progress → Prop
  | (c', .sleeping wakeAt rest) =>
    c'.Extends c ∧ now < wakeAt ∧ wakeAt.since now + Action.total rest ≤ Action.total actions
  | (c', .done) => c'.Extends c
  | (c', .gaveUp) => c'.Extends c ∧ c'.asksToStop own = true

/-- What can come of actions that need less time, with more tokens cancelled, can come of these. -/
theorem ComesOf.weaken {actions rest : List Action} {c c' : Cancellations}
    {r : Cancellations × Progress} (h : ComesOf now own rest c' r) (htokens : c'.Extends c)
    (htime : Action.total rest ≤ Action.total actions) : ComesOf now own actions c r := by
  obtain ⟨c'', progress⟩ := r
  cases progress with
  | sleeping wakeAt left => exact ⟨h.1.trans htokens, h.2.1, Nat.le_trans h.2.2 htime⟩
  | done => exact Cancellations.Extends.trans h htokens
  | gaveUp => exact ⟨h.1.trans htokens, h.2⟩

@[simp] theorem total_cons (action : Action) (rest : List Action) :
    Action.total (action :: rest) = action.duration + Action.total rest := rfl

theorem comesOf_sleeping {d : Duration} {actions rest : List Action} {c : Cancellations}
    (hpos : d ≠ 0) (htime : d + Action.total rest ≤ Action.total actions) :
    ComesOf now own actions c (c, .sleeping (now + d) rest) := by
  refine ⟨Cancellations.Extends.refl c, ?_, ?_⟩
  · simp only [Instant, Duration] at *
    omega
  · have hsince : Instant.since (now + d) now = d := by
      simp only [Instant, Duration, Instant.since] at *
      omega
    rwa [hsince]

theorem comesOf_ofActions (actions : List Action) (c : Cancellations) :
    ComesOf now own actions c (ofActions now own actions c) := by
  -- the tokens vary, since a body may cancel some of them on its way
  induction actions generalizing c with
  | nil => exact Cancellations.Extends.refl c
  | cons action rest ih =>
      have hrest : Action.total rest ≤ Action.total (action :: rest) := by simp
      have hgoOn := (ih c).weaken (Cancellations.Extends.refl c) hrest
      cases action with
      | sleep d =>
          unfold ofActions
          split
          · exact hgoOn
          · exact comesOf_sleeping ‹_› (by simp [Action.duration])
      | cancel t => exact (ih _).weaken (Cancellations.extends_cancel c t) hrest
      | check =>
          unfold ofActions
          split
          · exact ⟨Cancellations.Extends.refl c, ‹_›⟩
          · exact hgoOn
      | poll times d =>
          cases times with
          | zero => exact hgoOn
          | succ n =>
              unfold ofActions
              split
              · exact ⟨Cancellations.Extends.refl c, ‹_›⟩
              split
              · exact hgoOn
              · refine comesOf_sleeping ‹_› ?_
                simp only [Duration, total_cons, Action.duration, Nat.succ_mul]
                omega

end Progress

/-! ## Cells -/

namespace Cell

variable {α : Type}

/-- Whether a cell holds an outcome, with the status that belongs to it. -/
def HasEnded (o : Outcome α) (ended : Cell α × JobStatus) : Prop :=
  ended.1.delivered = some o ∧ ended.2 = .ofOutcome o

theorem hasEnded_run (e : Ending α) : HasEnded e.outcome (ofEnding e).run := ⟨rfl, rfl⟩

theorem hasEnded_abandon (c : Cell α) (reason : Fault) :
    HasEnded (.ofFault reason) (c.abandon reason) := ⟨rfl, rfl⟩

end Cell

end Dispatch
