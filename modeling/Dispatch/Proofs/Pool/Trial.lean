import Dispatch.Proofs.Pool.OpenCircuit
import Dispatch.Proofs.Pool.Punctual
/-!
# What closes a half open circuit

While the circuit is half open, the breaker counts successes, and closes the circuit when they are
enough. It does not know when a body that has succeeded was started. So each success that it counts was
delivered on trial, but it may be that of a body which was started before the circuit opened. Only while
the circuit is open no body is started.
-/

namespace Dispatch

variable {α : Type}

namespace Breaker

variable {b : Breaker} {now : Instant} {n : Nat}

/-- Whether a call can never close a circuit. -/
def Call.NeverCloses (c : Call) : Prop := c ≠ .success ∧ c ≠ .reset

/-- The successes that are counted on trial. -/
def onTrial (b : Breaker) : Nat := if b.circuit = .halfOpen then b.successes else 0

/-- Whether so many successes were counted on trial, or were enough to close the circuit. -/
structure TriedBy (b : Breaker) (n : Nat) : Prop where
  successes_eq : b.circuit = .halfOpen → b.successes = n
  threshold_le : b.circuit = .closed → b.config.successThreshold ≤ n

/-- A trial starts without successes. -/
theorem triedBy_asked (h : b.circuit ≠ .closed) (asks : Bool) :
    (b.asked now asks).TriedBy b.onTrial := by
  have hself : b.TriedBy b.onTrial :=
    ⟨fun htrial => (if_pos htrial).symm, fun hclosed => absurd hclosed h⟩
  unfold asked
  split
  · by_cases htries : b.TriesNext now
    · rw [acquire_of_triesNext htries, onTrial, if_neg (by simp [htries.1])]
      exact ⟨fun _ => rfl, fun hclosed => absurd hclosed (by simp)⟩
    · obtain ⟨_, heq⟩ := acquire_of_not_triesNext htries
      rw [heq]
      exact { hself with }
  · exact hself

theorem TriedBy.success (h : b.TriedBy n) : b.onSuccess.TriedBy (n + 1) := by
  by_cases hcloses : b.ClosesNext
  · rw [onSuccess_of_closesNext hcloses]
    refine ⟨fun htrial => absurd htrial (by simp [close]), fun _ => ?_⟩
    exact h.successes_eq hcloses.1 ▸ hcloses.2
  · rw [onSuccess_of_not_closesNext hcloses]
    refine ⟨fun htrial => ?_, fun hclosed => Nat.le_succ_of_le (h.threshold_le hclosed)⟩
    exact (if_pos htrial).trans (congrArg (· + 1) (h.successes_eq htrial))

theorem TriedBy.failure (h : b.TriedBy n) : (b.onFailure now).TriedBy n := by
  by_cases hopens : b.OpensNext
  · rw [onFailure_of_opensNext hopens]
    constructor
    · intro htrial
      simp [openAt] at htrial
    · intro hclosed
      simp [openAt] at hclosed
  · rw [onFailure_of_not_opensNext hopens]
    exact { h with }

/-- Outcomes that the breaker is told of count as successes if they are values. -/
theorem TriedBy.told (h : b.TriedBy n) (ended : List (Nat × Outcome α)) :
    (b.told now ended).TriedBy (n + ended.countP (·.2.isCompleted)) := by
  induction ended with
  | nil => exact h
  | cons d rest ih =>
      show ((b.told now rest).learn now (.ofOutcome d.2)).TriedBy _
      rw [List.countP_cons]
      rcases learn_cases (b.told now rest) now d.2 with ⟨hvalue, heq⟩ | ⟨hvalue, heq | heq⟩ <;>
        rw [heq, hvalue]
      · exact ih.success
      · exact ih.failure
      · exact ih

end Breaker

namespace Pool

variable {p q r a : Pool α} {t : Task (Job α)} {allowed : Breaker.Call → Prop}

/-! ## Successes on trial -/

/-- What happens while the circuit is not closed delivers all successes that are counted on trial. -/
theorem Happens.triedBy (hs : p.queue.Sound p.clock) (h : Happens Breaker.Call.NeverCloses p q)
    (hne : p.breaker.circuit ≠ .closed) : ∃ ended, q.delivered = ended ++ p.delivered ∧
      q.breaker.TriedBy (p.breaker.onTrial + ended.countP (·.2.isCompleted)) := by
  rcases h.deals_or_call hs with ⟨asks, ended, hdeals⟩ | ⟨c, hallowed, rfl⟩
  · refine ⟨ended, hdeals.delivered_eq, ?_⟩
    rw [hdeals.breaker_eq]
    exact (Breaker.triedBy_asked hne asks).told ended
  · refine ⟨[], rfl, ?_⟩
    cases c with
    | acquire => exact Breaker.triedBy_asked hne true
    | failure =>
        have htried : p.breaker.TriedBy p.breaker.onTrial :=
          @Breaker.triedBy_asked p.breaker p.clock hne false
        exact htried.failure
    | success => exact absurd rfl hallowed.1
    | reset => exact absurd rfl hallowed.2

/-- The states of a trial that follows on a state in which the circuit is open: the circuit is half
open, and was so in all states in between. -/
inductive Trial (a : Pool α) : Pool α → Prop where
  | starts {q : Pool α} (h : Happens Breaker.Call.NeverCloses a q)
      (htrial : q.breaker.circuit = .halfOpen) : Trial a q
  | goesOn {q r : Pool α} (hq : Trial a q) (h : Happens Breaker.Call.NeverCloses q r)
      (htrial : r.breaker.circuit = .halfOpen) : Trial a r

theorem Trial.circuit_eq (h : a.Trial q) : q.breaker.circuit = .halfOpen := by
  cases h <;> assumption

theorem Trial.reaches (h : a.Trial q) : a.Reaches q := by
  induction h with
  | starts h _ => exact h.step.reaches
  | goesOn _ h _ ih => exact ih.trans h.step.reaches

theorem Trial.successes_eq (hs : a.queue.Sound a.clock) (hopened : a.breaker.circuit = .opened)
    (h : a.Trial q) : ∃ ended, q.delivered = ended ++ a.delivered ∧
      q.breaker.onTrial = ended.countP (·.2.isCompleted) := by
  have hcount : ∀ {m : Nat} {q : Pool α}, q.breaker.circuit = .halfOpen →
      q.breaker.TriedBy m → q.breaker.onTrial = m := fun htrial htried =>
    (if_pos htrial).trans (htried.successes_eq htrial)
  induction h with
  | starts h htrial =>
      obtain ⟨ended, hdelivered, htried⟩ := h.triedBy hs (by simp [hopened])
      refine ⟨ended, hdelivered, (hcount htrial htried).trans ?_⟩
      rw [Breaker.onTrial, if_neg (by simp [hopened]), Nat.zero_add]
  | @goesOn q r hq h htrial ih =>
      obtain ⟨earlier, hearlier, hbefore⟩ := ih
      obtain ⟨ended, hdelivered, htried⟩ :=
        h.triedBy (hq.reaches.grows hs).sound (by simp [hq.circuit_eq])
      refine ⟨ended ++ earlier, ?_, (hcount htrial htried).trans ?_⟩
      · rw [hdelivered, hearlier, List.append_assoc]
      · rw [hbefore, List.countP_append, Nat.add_comm]

/-- The numbers of the tasks that have returned a value since a state of a pool. -/
def completedSince (a r : Pool α) : List Nat :=
  ((r.delivered.take (r.delivered.length - a.delivered.length)).filter (·.2.isCompleted)).map
    Prod.fst

theorem completedSince_eq {ended : List (Nat × Outcome α)}
    (h : r.delivered = ended ++ a.delivered) :
    completedSince a r = (ended.filter (·.2.isCompleted)).map Prod.fst := by
  rw [completedSince, h, List.length_append, Nat.add_sub_cancel, List.take_left]

/-- Whether a step closes a circuit that was open in a state and half open since then. -/
structure ClosesTrial (a q r : Pool α) : Prop where
  opened : a.breaker.circuit = .opened
  trial : q = a ∨ a.Trial q
  step : Happens Breaker.Call.NeverCloses q r
  closed : r.breaker.circuit = .closed

/-- Before the circuit closes, it is open or half open with the successes since then. -/
theorem ClosesTrial.onTrial_eq (hs : a.queue.Sound a.clock) (h : a.ClosesTrial q r) :
    q.breaker.circuit ≠ .closed ∧ ∃ ended, q.delivered = ended ++ a.delivered ∧
      q.breaker.onTrial = ended.countP (·.2.isCompleted) := by
  rcases h.trial with rfl | htrial
  · exact ⟨by simp [h.opened], [], rfl, if_neg (by simp [h.opened])⟩
  · exact ⟨by simp [htrial.circuit_eq], htrial.successes_eq hs h.opened⟩

theorem ClosesTrial.reaches (h : a.ClosesTrial q r) : a.Reaches q := by
  rcases h.trial with rfl | htrial
  · exact Reaches.refl q
  · exact htrial.reaches

/-- A trial is closed only after so many tasks have returned a value. -/
theorem ClosesTrial.threshold_le (hs : a.queue.Sound a.clock) (h : a.ClosesTrial q r) :
    r.breaker.config.successThreshold ≤ (completedSince a r).length := by
  obtain ⟨hne, earlier, hearlier, hcount⟩ := h.onTrial_eq hs
  obtain ⟨ended, hdelivered, htried⟩ := h.step.triedBy (h.reaches.grows hs).sound hne
  rw [hearlier, ← List.append_assoc] at hdelivered
  have hle := htried.threshold_le h.closed
  rw [hcount, Nat.add_comm, ← List.countP_append] at hle
  rwa [completedSince_eq hdelivered, List.length_map, ← List.countP_eq_length_filter]

/-! ## Where a trial comes from -/

/-- A closed circuit does not become half open in one step. -/
theorem Happens.ne_halfOpen (hs : p.queue.Sound p.clock) (h : Happens allowed p q)
    (hclosed : p.breaker.circuit = .closed) : q.breaker.circuit ≠ .halfOpen := by
  have hne : ∀ b c, c ≠ .acquire → b.circuit ≠ .halfOpen →
      (Breaker.call b p.clock c).circuit ≠ .halfOpen := by
    intro b c hc hb
    cases hcircuit : b.circuit with
    | closed =>
        rw [Breaker.circuit_call_of_closed hcircuit]
        split <;> simp
    | halfOpen => contradiction
    | opened =>
        rw [Breaker.circuit_call_of_opened hcircuit, if_neg fun h : c = .acquire ∧ _ => hc h.1]
        split <;> simp
  rcases h.deals_or_call hs with ⟨asks, ended, hdeals⟩ | ⟨c, -, rfl⟩
  · rw [hdeals.breaker_eq, Breaker.asked_of_closed hclosed]
    exact Breaker.keeps_told (I := fun b => b.circuit ≠ .halfOpen)
      (fun b => hne b .success (by simp)) (fun b => hne b .failure (by simp)) (by simp [hclosed])
      ended
  · show (p.breaker.call p.clock c).circuit ≠ .halfOpen
    rw [Breaker.circuit_call_of_closed hclosed]
    split <;> simp

/-- A run that comes to a half open circuit has come to a trial. -/
theorem Runs.exists_trial (hs : p.queue.Sound p.clock)
    (hruns : p.Runs Breaker.Call.NeverCloses q) (hp : p.breaker.circuit = .closed)
    (htrial : q.breaker.circuit = .halfOpen) : ∃ a, p.Runs Breaker.Call.NeverCloses a ∧
      a.breaker.circuit = .opened ∧ a.Trial q := by
  induction hruns with
  | refl => simp [hp] at htrial
  | @tail m q hfirst hlast ih =>
      cases hcircuit : m.breaker.circuit with
      | closed =>
          have hsound := ((Runs.reaches hfirst).grows hs).sound
          exact absurd htrial (hlast.ne_halfOpen hsound hcircuit)
      | opened => exact ⟨m, hfirst, hcircuit, .starts hlast htrial⟩
      | halfOpen =>
          obtain ⟨a, hruns, hopened, hm⟩ := ih hcircuit
          exact ⟨a, hruns, hopened, hm.goesOn hlast htrial⟩

/-- A step at which the circuit closes closes a trial. -/
theorem Runs.exists_closesTrial (hs : p.queue.Sound p.clock)
    (hruns : p.Runs Breaker.Call.NeverCloses q) (hp : p.breaker.circuit = .closed)
    (hstep : Happens Breaker.Call.NeverCloses q r) (hbefore : q.breaker.circuit ≠ .closed)
    (hafter : r.breaker.circuit = .closed) :
    ∃ a, p.Runs Breaker.Call.NeverCloses a ∧ a.ClosesTrial q r := by
  cases hcircuit : q.breaker.circuit with
  | closed => contradiction
  | opened => exact ⟨q, hruns, hcircuit, .inl rfl, hstep, hafter⟩
  | halfOpen =>
      obtain ⟨a, ha, hopened, htrial⟩ := hruns.exists_trial hs hp hcircuit
      exact ⟨a, ha, hopened, .inr htrial, hstep, hafter⟩

/-! ## When the bodies were started -/

/-- A circuit that is open before and after a step has opened anew, or nothing was started. -/
theorem Happens.reopens_or_unstarted (hs : p.queue.Sound p.clock) (h : Happens allowed p q)
    {since : Instant} (hp : p.breaker.OpenSince since) (hq : q.breaker.circuit = .opened) :
    q.breaker.openedAt = some p.clock ∨ q.breaker.openedAt = some since ∧
      ∀ take ∈ q.takes, take ∉ p.takes → take.started = false := by
  let I : Breaker → Prop := fun b =>
    b.circuit = .opened → b.openedAt = some p.clock ∨ b.openedAt = some since
  have heither : q.breaker.openedAt = some p.clock ∨ q.breaker.openedAt = some since := by
    refine h.keeps_breaker (I := I) hs (fun b c _ hb hafter => ?_) (fun _ => .inr hp.openedAt_eq) hq
    by_cases hopened : b.circuit = .opened
    · rw [(Breaker.opening_call_of_opened hopened hafter).1]
      exact hb hopened
    · exact .inl (Breaker.openedAt_call_of_ne hopened hafter)
  refine heither.elim .inl fun hsince => ?_
  rcases h.deals_or_call hs with ⟨asks, ended, hdeals⟩ | ⟨c, -, rfl⟩
  · by_cases hpass : asks = true ∧ (p.breaker.acquire p.clock).2 = .ok ()
    · -- the circuit was half open in between, so that it has opened since
      refine .inl ?_
      have htries := Breaker.triesNext_of_acquire hp.circuit_eq hpass.2
      rw [hdeals.breaker_eq, Breaker.asked, if_pos hpass.1] at hq ⊢
      refine Breaker.keeps_told (I := fun b => b.circuit = .opened → b.openedAt = some p.clock)
        (fun _ hb => Breaker.opensNow_call hb .success) (fun _ hb => Breaker.opensNow_call hb .failure)
        ?_ ended hq
      rw [Breaker.acquire_of_triesNext htries]
      exact fun hopened => absurd hopened (by simp)
    · exact .inr ⟨hsince, fun take htake hnew =>
        Bool.eq_false_iff.2 fun hstarted => hpass (hdeals.passes htake hnew hstarted)⟩
  · exact .inr ⟨hsince, fun take htake hnew => absurd htake hnew⟩

/-- Whether no body on record was started while the circuit is open. -/
def SparesOpen (p : Pool α) : Prop :=
  p.breaker.circuit = .opened → ∃ since, p.breaker.openedAt = some since ∧
    ∀ take ∈ p.takes, take.started = true → take.takenAt ≤ since

theorem Happens.sparesOpen (hs : p.queue.Sound p.clock) (hpunctual : p.Punctual)
    (hstep : Happens allowed p q) (h : p.SparesOpen) : q.SparesOpen := by
  intro hq
  have hnow : ∀ take ∈ q.takes, take.takenAt ≤ p.clock := by
    rcases hstep.step.takes_cases hs with heq | ⟨_, _, _, -, -, heq⟩ <;> rw [heq]
    · exact hpunctual.takenAt_le
    · exact List.forall_mem_cons.2 ⟨Int.le_refl _, hpunctual.takenAt_le⟩
  by_cases hp : p.breaker.circuit = .opened
  · obtain ⟨since, hsince, hle⟩ := h hp
    rcases hstep.reopens_or_unstarted hs ⟨hp, hsince⟩ hq with heq | ⟨heq, hunstarted⟩
    · exact ⟨p.clock, heq, fun take htake _ => hnow take htake⟩
    · refine ⟨since, heq, fun take htake hstarted => ?_⟩
      by_cases hold : take ∈ p.takes
      · exact hle take hold hstarted
      · exact absurd (hunstarted take htake hold) (by simp [hstarted])
  · have hsince := hstep.openSince hs ⟨hq, fun hopened => absurd hopened hp⟩
    exact ⟨p.clock, hsince.openedAt_eq, fun take htake _ => hnow take htake⟩

theorem Runs.sparesOpen (hkept : p.Kept) (hpunctual : p.Punctual) (h : p.SparesOpen)
    (hruns : p.Runs allowed q) : q.SparesOpen := by
  induction hruns with
  | refl => exact h
  | tail hfirst hlast ih =>
      obtain ⟨hm, hpunctual⟩ := (Runs.reaches hfirst).punctual hkept hpunctual
      exact hlast.sparesOpen hm.balanced.sound hpunctual ih

end Pool

end Dispatch
