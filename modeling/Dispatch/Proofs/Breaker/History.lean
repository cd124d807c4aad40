import Dispatch.Proofs.Breaker.Calls
/-!
# The breaker and its history

A breaker holds a few counts and an instant, and no record of its calls. The main statement of this
module says that these are nevertheless what the whole history amounts to: the failures in a row, the
successes of the present trial, the instant at which the circuit opened and how often it did so. The
circuit itself changes at no other call than the one at which the history calls for it. Results may
come late, in any state of the circuit.
-/

namespace Dispatch

/-- Usable settings of a breaker are those without a zero. -/
theorem BreakerConfig.validate_eq_ok_iff {c : BreakerConfig} : c.validate = .ok () ↔
    0 < c.failureThreshold ∧ 0 < c.successThreshold ∧ 0 < c.resetTimeout := by
  have htimeout : 0 < c.resetTimeout ↔ 0 < c.resetTimeoutMs :=
    Nat.mul_pos_iff_of_pos_right (by decide)
  rw [htimeout, validate]
  repeat' split
  all_goals simp_all [Nat.pos_iff_ne_zero]

namespace Breaker

/-- What happens to a breaker. -/
inductive Event where
  | call (c : Call)
  /-- Time passes. -/
  | advance (d : Duration)
deriving DecidableEq, Repr

/-- The instant at the end of a history, which lists the latest event first. -/
def clockAfter (start : Instant) : List Event → Instant
  | [] => start
  | .call _ :: earlier => clockAfter start earlier
  | .advance d :: earlier => clockAfter start earlier + d

/-- The breaker that a history leaves behind. -/
def after (config : BreakerConfig) (start : Instant) : List Event → Breaker
  | [] => { config := config }
  | .call c :: earlier => (after config start earlier).call (clockAfter start earlier) c
  | .advance _ :: earlier => after config start earlier

/-- The failures since the latest of the start, a success and a reset. -/
def failuresInRow : List Event → Nat
  | [] => 0
  | .call .success :: _ | .call .reset :: _ => 0
  | .call .failure :: earlier => failuresInRow earlier + 1
  | _ :: earlier => failuresInRow earlier

/-- The successes since the circuit has come to be half open; none if it is not. -/
def trialSuccesses (config : BreakerConfig) (start : Instant) : List Event → Nat
  | [] => 0
  | e :: earlier =>
    if (after config start earlier).circuit = .halfOpen ∧
        (after config start (e :: earlier)).circuit = .halfOpen then
      trialSuccesses config start earlier + if e = .call .success then 1 else 0
    else 0

/-- The instants at which the circuit has opened, the latest first. -/
def openings (config : BreakerConfig) (start : Instant) : List Event → List Instant
  | [] => []
  | e :: earlier =>
    if (after config start earlier).circuit ≠ .opened ∧
        (after config start (e :: earlier)).circuit = .opened then
      clockAfter start earlier :: openings config start earlier
    else openings config start earlier

variable {config : BreakerConfig} {start : Instant} {history : List Event}

/-! ## The parts of a longer history -/

theorem trialSuccesses_of_same {e : Event}
    (h : (after config start (e :: history)).circuit = (after config start history).circuit)
    (hzero : (after config start history).circuit ≠ .halfOpen →
      trialSuccesses config start history = 0) :
    trialSuccesses config start (e :: history) = trialSuccesses config start history +
      if (after config start history).circuit = .halfOpen ∧ e = .call .success then 1 else 0 := by
  by_cases htrial : (after config start history).circuit = .halfOpen
  · rw [trialSuccesses, if_pos ⟨htrial, h.trans htrial⟩]
    simp [htrial]
  · rw [trialSuccesses, if_neg fun hboth => htrial hboth.1]
    simp [htrial, hzero htrial]

theorem trialSuccesses_of_ne {e : Event}
    (h : (after config start (e :: history)).circuit ≠ (after config start history).circuit) :
    trialSuccesses config start (e :: history) = 0 :=
  if_neg fun hboth => h (hboth.2.trans hboth.1.symm)

theorem openings_of_opened {e : Event}
    (hbefore : (after config start history).circuit ≠ .opened)
    (hafter : (after config start (e :: history)).circuit = .opened) :
    openings config start (e :: history) =
      clockAfter start history :: openings config start history :=
  if_pos ⟨hbefore, hafter⟩

theorem openings_of_same {e : Event}
    (h : (after config start (e :: history)).circuit = (after config start history).circuit) :
    openings config start (e :: history) = openings config start history :=
  if_neg fun hboth => hboth.1 (h.symm.trans hboth.2)

theorem openings_of_not_opened {e : Event}
    (h : (after config start (e :: history)).circuit ≠ .opened) :
    openings config start (e :: history) = openings config start history :=
  if_neg fun hboth => h hboth.2

/-! ## What the counts amount to -/

/-- Whether a breaker has counted so many failures in a row, so many successes on trial and these
openings. -/
structure Counts (config : BreakerConfig) (inRow onTrial : Nat) (opened : List Instant)
    (b : Breaker) : Prop where
  config_eq : b.config = config
  threshold_pos : 0 < config.failureThreshold
  failures_eq : b.failures = min inRow failureLimit
  inRow_lt : b.circuit = .closed → inRow < config.failureThreshold
  successes_eq : b.successes = onTrial
  onTrial_lt : onTrial < config.successThreshold
  onTrial_zero : b.circuit ≠ .halfOpen → onTrial = 0
  openedAt_eq : b.openedAt = if b.circuit = .closed then none else opened.head?
  opened_ne : b.circuit ≠ .closed → opened ≠ []
  timesOpened_eq : b.timesOpened = opened.length

variable {inRow onTrial : Nat} {opened : List Instant} {b : Breaker} {now : Instant}

theorem counts_start (hvalid : config.validate = .ok ()) :
    Counts config 0 0 [] { config := config } where
  config_eq := rfl
  threshold_pos := (BreakerConfig.validate_eq_ok_iff.1 hvalid).1
  failures_eq := (Nat.zero_min failureLimit).symm
  inRow_lt := fun _ => (BreakerConfig.validate_eq_ok_iff.1 hvalid).1
  successes_eq := rfl
  onTrial_lt := (BreakerConfig.validate_eq_ok_iff.1 hvalid).2.1
  onTrial_zero := fun _ => rfl
  openedAt_eq := rfl
  opened_ne := fun h => absurd rfl h
  timesOpened_eq := rfl

/-- A trial starts with no success. -/
theorem Counts.tries (h : b.Counts config inRow onTrial opened) (htries : b.TriesNext now) :
    (b.acquire now).1.Counts config inRow 0 opened := by
  rw [acquire_of_triesNext htries]
  exact
    { h with
      inRow_lt := fun hclosed => absurd hclosed (by simp)
      successes_eq := rfl
      onTrial_lt := Nat.zero_lt_of_lt h.onTrial_lt
      onTrial_zero := fun _ => rfl
      openedAt_eq := h.openedAt_eq.trans (by simp [htries.1])
      opened_ne := fun _ => h.opened_ne (by simp [htries.1]) }

/-- A request that starts no trial leaves all that is counted here as it is. -/
theorem Counts.passes (h : b.Counts config inRow onTrial opened) (hpasses : ¬b.TriesNext now) :
    (b.acquire now).1.Counts config inRow onTrial opened := by
  obtain ⟨rejections, heq⟩ := acquire_of_not_triesNext hpasses
  rw [heq]
  exact { h with }

theorem Counts.closes (h : b.Counts config inRow onTrial opened) :
    Counts config 0 0 opened { b.close with failures := 0 } where
  config_eq := h.config_eq
  threshold_pos := h.threshold_pos
  failures_eq := (Nat.zero_min failureLimit).symm
  inRow_lt := fun _ => h.threshold_pos
  successes_eq := rfl
  onTrial_lt := Nat.zero_lt_of_lt h.onTrial_lt
  onTrial_zero := fun _ => rfl
  openedAt_eq := rfl
  opened_ne := fun hne => absurd rfl hne
  timesOpened_eq := h.timesOpened_eq

/-- A success that does not close the circuit counts only on trial. -/
theorem Counts.success (h : b.Counts config inRow onTrial opened) (hcloses : ¬b.ClosesNext) :
    b.onSuccess.Counts config 0 (onTrial + if b.circuit = .halfOpen then 1 else 0) opened := by
  rw [onSuccess_of_not_closesNext hcloses]
  refine { h with
    failures_eq := (Nat.zero_min failureLimit).symm
    inRow_lt := fun _ => h.threshold_pos
    successes_eq := ?_
    onTrial_lt := ?_
    onTrial_zero := fun hne => ?_ }
  · show (if b.circuit = .halfOpen then b.successes + 1 else b.successes) = _
    rw [h.successes_eq]
    split <;> rfl
  · by_cases htrial : b.circuit = .halfOpen
    · rw [if_pos htrial, ← h.successes_eq, ← h.config_eq]
      exact Nat.not_le.1 fun hle => hcloses ⟨htrial, hle⟩
    · rw [if_neg htrial]
      exact h.onTrial_lt
  · rw [if_neg hne]
    exact h.onTrial_zero hne

theorem Counts.failuresNext_eq (h : b.Counts config inRow onTrial opened) :
    b.failuresNext = min (inRow + 1) failureLimit := by
  rw [failuresNext, h.failures_eq]
  omega

/-- A circuit that opens does so now. -/
theorem Counts.opens (h : b.Counts config inRow onTrial opened) (hopens : b.OpensNext) :
    (b.onFailure now).Counts config (inRow + 1) 0 (now :: opened) := by
  rw [onFailure_of_opensNext hopens]
  exact
    { config_eq := h.config_eq
      threshold_pos := h.threshold_pos
      failures_eq := h.failuresNext_eq
      inRow_lt := fun hclosed => absurd hclosed (by simp [openAt])
      successes_eq := rfl
      onTrial_lt := Nat.zero_lt_of_lt h.onTrial_lt
      onTrial_zero := fun _ => rfl
      openedAt_eq := rfl
      opened_ne := fun _ => List.cons_ne_nil now opened
      timesOpened_eq := congrArg (· + 1) h.timesOpened_eq }

/-- Below the limit of the count, a threshold is reached by the count as it is by the failures. -/
theorem Counts.threshold_le_iff (h : b.Counts config inRow onTrial opened)
    (hlimit : config.failureThreshold ≤ failureLimit) :
    b.config.failureThreshold ≤ b.failuresNext ↔ config.failureThreshold ≤ inRow + 1 := by
  rw [h.config_eq, h.failuresNext_eq]
  omega

theorem Counts.failure (h : b.Counts config inRow onTrial opened) (hopens : ¬b.OpensNext)
    (hlimit : config.failureThreshold ≤ failureLimit) :
    (b.onFailure now).Counts config (inRow + 1) onTrial opened := by
  rw [onFailure_of_not_opensNext hopens]
  refine { h with
    failures_eq := h.failuresNext_eq
    inRow_lt := fun hclosed => ?_ }
  exact Nat.not_le.1 fun hle => hopens (.inr ⟨hclosed, (h.threshold_le_iff hlimit).2 hle⟩)

/-! ## The whole history -/

/-- Whether the counts of the breaker that a history leaves behind are those of the history. -/
def Counted (config : BreakerConfig) (start : Instant) (history : List Event) : Prop :=
  (after config start history).Counts config (failuresInRow history)
    (trialSuccesses config start history) (openings config start history)

theorem Counted.onTrial_of_same (h : Counted config start history) {e : Event}
    (hsame : (after config start (e :: history)).circuit = (after config start history).circuit) :
    trialSuccesses config start (e :: history) = trialSuccesses config start history +
      if (after config start history).circuit = .halfOpen ∧ e = .call .success then 1 else 0 :=
  trialSuccesses_of_same hsame h.onTrial_zero

/-- What keeps the circuit as it is, and is no success, leaves the trial and the openings alone. -/
theorem Counted.of_same (h : Counted config start history) {e : Event}
    (hsame : (after config start (e :: history)).circuit = (after config start history).circuit)
    (hne : e ≠ .call .success)
    (hcounts : (after config start (e :: history)).Counts config (failuresInRow (e :: history))
      (trialSuccesses config start history) (openings config start history)) :
    Counted config start (e :: history) := by
  rw [Counted, h.onTrial_of_same hsame, openings_of_same hsame]
  simpa [hne] using hcounts

theorem Counted.acquire (h : Counted config start history) :
    Counted config start (.call .acquire :: history) := by
  let b := after config start history
  let now := clockAfter start history
  have hnext : after config start (.call .acquire :: history) = (b.acquire now).1 := rfl
  by_cases htries : b.TriesNext now
  · have hhalf : (b.acquire now).1.circuit = .halfOpen := by rw [acquire_of_triesNext htries]
    rw [Counted, trialSuccesses_of_ne (by rw [hnext, hhalf, htries.1]; simp),
      openings_of_not_opened (by rw [hnext, hhalf]; simp)]
    exact h.tries htries
  · refine h.of_same ?_ (by simp) (h.passes htries)
    obtain ⟨_, heq⟩ := acquire_of_not_triesNext htries
    rw [hnext, heq]

theorem Counted.success (h : Counted config start history) :
    Counted config start (.call .success :: history) := by
  let b := after config start history
  have hnext : after config start (.call .success :: history) = b.onSuccess := rfl
  by_cases hcloses : b.ClosesNext
  · have hclosed : b.onSuccess.circuit = .closed := by
      rw [onSuccess_of_closesNext hcloses]
      rfl
    rw [Counted, trialSuccesses_of_ne (by rw [hnext, hclosed, hcloses.1]; simp),
      openings_of_not_opened (by rw [hnext, hclosed]; simp), hnext, onSuccess_of_closesNext hcloses]
    exact h.closes
  · have hsame : (after config start (.call .success :: history)).circuit = b.circuit := by
      rw [hnext, onSuccess_of_not_closesNext hcloses]
    rw [Counted, h.onTrial_of_same hsame, openings_of_same hsame]
    simp only [and_true]
    exact Counts.success h hcloses

theorem Counted.failure (h : Counted config start history)
    (hlimit : config.failureThreshold ≤ failureLimit) :
    Counted config start (.call .failure :: history) := by
  let b := after config start history
  let now := clockAfter start history
  have hnext : after config start (.call .failure :: history) = b.onFailure now := rfl
  by_cases hopens : b.OpensNext
  · have hopened : (after config start (.call .failure :: history)).circuit = .opened := by
      rw [hnext, onFailure_of_opensNext hopens]
      rfl
    have hbefore : b.circuit ≠ .opened := by
      rcases hopens with hcircuit | ⟨hcircuit, -⟩ <;> simp [hcircuit]
    rw [Counted, trialSuccesses_of_ne (by rw [hopened]; exact hbefore.symm),
      openings_of_opened hbefore hopened]
    exact h.opens hopens
  · refine h.of_same ?_ (by simp) (Counts.failure h hopens hlimit)
    rw [hnext, onFailure_of_not_opensNext hopens]

theorem Counted.reset (h : Counted config start history) :
    Counted config start (.call .reset :: history) := by
  have hclosed : (after config start (.call .reset :: history)).circuit = .closed := rfl
  have htrial : trialSuccesses config start (.call .reset :: history) = 0 :=
    if_neg fun hboth => by simp [hclosed] at hboth
  rw [Counted, htrial, openings_of_not_opened (by rw [hclosed]; simp)]
  exact h.closes

/-- The counts of a breaker are those of its history, for thresholds that can be counted up to. -/
theorem counted (hvalid : config.validate = .ok ())
    (hlimit : config.failureThreshold ≤ failureLimit) (history : List Event) :
    Counted config start history := by
  induction history with
  | nil => exact counts_start hvalid
  | cons e earlier ih =>
      cases e with
      | advance d => exact ih.of_same rfl (by simp) ih
      | call c =>
          cases c with
          | acquire => exact ih.acquire
          | success => exact ih.success
          | failure => exact ih.failure hlimit
          | reset => exact ih.reset

/-- Whether a breaker is, after a history, in the state that the history calls for, and goes on from
there as the history calls for. -/
structure FollowsHistory (config : BreakerConfig) (start : Instant) (history : List Event) :
    Prop where
  /-- The failures in a row are counted, up to the limit of the count. -/
  failures_eq : (after config start history).failures = min (failuresInRow history) failureLimit
  /-- While the circuit is closed, all failures in a row are counted, and they are too few. -/
  failures_of_closed : (after config start history).circuit = .closed →
    (after config start history).failures = failuresInRow history ∧
      failuresInRow history < config.failureThreshold
  /-- A closed circuit opens at the failure that reaches the threshold, and changes at nothing else. -/
  next_of_closed : (after config start history).circuit = .closed → ∀ e,
    (after config start (e :: history)).circuit =
      if e = .call .failure ∧ failuresInRow (e :: history) = config.failureThreshold then .opened
      else .closed
  /-- An open circuit is left only by a reset, or by a request to let work through when the reset
  timeout has passed since it opened, which makes it half open. -/
  next_of_opened : (after config start history).circuit = .opened →
    ∃ since, (openings config start history).head? = some since ∧
      ∀ e, (after config start (e :: history)).circuit =
        if e = .call .reset then .closed
        else if e = .call .acquire ∧ since + config.resetTimeout ≤ clockAfter start history then
          .halfOpen
        else .opened
  /-- While the circuit is half open, the successes since it came to be so are counted, and they are
  too few. -/
  successes_of_halfOpen : (after config start history).circuit = .halfOpen →
    (after config start history).successes = trialSuccesses config start history ∧
      trialSuccesses config start history < config.successThreshold
  /-- A half open circuit opens at any failure, closes at a reset and at the success that reaches the
  threshold, and changes at nothing else. -/
  next_of_halfOpen : (after config start history).circuit = .halfOpen → ∀ e,
    (after config start (e :: history)).circuit =
      if e = .call .failure then .opened
      else if e = .call .reset ∨ e = .call .success ∧
          trialSuccesses config start history + 1 = config.successThreshold then .closed
      else .halfOpen
  /-- A half open circuit that opens does so now. -/
  openedAt_of_halfOpen : (after config start history).circuit = .halfOpen →
    (after config start (.call .failure :: history)).openedAt = some (clockAfter start history)
  /-- A half open circuit that closes by a success has no failures. -/
  failures_of_halfOpen : (after config start history).circuit = .halfOpen →
    (after config start (.call .success :: history)).failures = 0
  /-- The instant of an opening is held if and only if the circuit is not closed. -/
  openedAt_isSome : (after config start history).openedAt.isSome ↔
    (after config start history).circuit ≠ .closed
  /-- It is the latest one. -/
  openedAt_eq : (after config start history).circuit ≠ .closed →
    (after config start history).openedAt = (openings config start history).head?
  successes_eq_zero : (after config start history).circuit ≠ .halfOpen →
    (after config start history).successes = 0
  /-- All openings are counted. -/
  timesOpened_eq : (after config start history).timesOpened =
    (openings config start history).length

theorem Counted.openedAt_eq (h : Counted config start history)
    (hne : (after config start history).circuit ≠ .closed) :
    (after config start history).openedAt = (openings config start history).head? :=
  (Counts.openedAt_eq h).trans (if_neg hne)

theorem Counted.exists_opening (h : Counted config start history)
    (hne : (after config start history).circuit ≠ .closed) :
    ∃ since, (openings config start history).head? = some since :=
  Option.isSome_iff_exists.1 (List.isSome_head?.2 (Counts.opened_ne h hne))

theorem Counted.next_of_closed (h : Counted config start history)
    (hlimit : config.failureThreshold ≤ failureLimit)
    (hclosed : (after config start history).circuit = .closed) (e : Event) :
    (after config start (e :: history)).circuit =
      if e = .call .failure ∧ failuresInRow (e :: history) = config.failureThreshold then .opened
      else .closed := by
  cases e with
  | advance d => simp [after, hclosed]
  | call c =>
      refine (circuit_call_of_closed hclosed c).trans ?_
      cases c with
      | failure =>
          -- there were too few failures before this one
          have hlt := h.inRow_lt hclosed
          have hiff : (after config start history).config.failureThreshold ≤
              (after config start history).failuresNext ↔
                failuresInRow history + 1 = config.failureThreshold := by
            rw [h.threshold_le_iff hlimit]
            omega
          simp only [hiff, failuresInRow, true_and]
      | _ => simp

theorem Counted.next_of_opened (h : Counted config start history)
    (htimeout : 0 < config.resetTimeout)
    (hopened : (after config start history).circuit = .opened) {since : Instant}
    (hsince : (openings config start history).head? = some since) (e : Event) :
    (after config start (e :: history)).circuit =
      if e = .call .reset then .closed
      else if e = .call .acquire ∧ since + config.resetTimeout ≤ clockAfter start history then
        .halfOpen
      else .opened := by
  have hopenedAt := (h.openedAt_eq (by simp [hopened])).trans hsince
  have hnone : (after config start history).remaining? (clockAfter start history) = none ↔
      since + config.resetTimeout ≤ clockAfter start history := by
    have hconfig := Counts.config_eq h
    refine (remaining?_eq_none_iff hopenedAt (by rwa [hconfig])).trans ?_
    rw [hconfig]
  cases e with
  | advance d => simp [after, hopened]
  | call c =>
      refine (circuit_call_of_opened hopened c).trans ?_
      simp only [hnone, Event.call.injEq]

theorem Counted.next_of_halfOpen (h : Counted config start history)
    (htrial : (after config start history).circuit = .halfOpen) (e : Event) :
    (after config start (e :: history)).circuit =
      if e = .call .failure then .opened
      else if e = .call .reset ∨ e = .call .success ∧
          trialSuccesses config start history + 1 = config.successThreshold then .closed
      else .halfOpen := by
  have hlt := h.onTrial_lt
  have hiff : (after config start history).config.successThreshold ≤
      (after config start history).successes + 1 ↔
        trialSuccesses config start history + 1 = config.successThreshold := by
    rw [Counts.config_eq h, h.successes_eq]
    omega
  cases e with
  | advance d => simp [after, htrial]
  | call c =>
      refine (circuit_call_of_halfOpen htrial c).trans ?_
      simp only [hiff, Event.call.injEq]

/-- Whatever a breaker is asked and told, and whenever, its counts, its opening instant and its circuit
are those that the history calls for. The thresholds and the count of failures are held in 32 bits, so
that the count can reach every threshold there is. -/
theorem followsHistory (config : BreakerConfig) (start : Instant) (history : List Event)
    (hvalid : config.validate = .ok ()) (hlimit : config.failureThreshold ≤ failureLimit) :
    FollowsHistory config start history := by
  have h : Counted config start history := counted hvalid hlimit history
  have htimeout := (BreakerConfig.validate_eq_ok_iff.1 hvalid).2.2
  refine
    { failures_eq := Counts.failures_eq h
      failures_of_closed := fun hclosed => ?_
      next_of_closed := h.next_of_closed hlimit
      next_of_opened := fun hopened => ?_
      successes_of_halfOpen := fun _ => ⟨h.successes_eq, h.onTrial_lt⟩
      next_of_halfOpen := h.next_of_halfOpen
      openedAt_of_halfOpen := fun htrial => ?_
      failures_of_halfOpen := fun _ => ?_
      openedAt_isSome := ?_
      openedAt_eq := h.openedAt_eq
      successes_eq_zero := fun hne => h.successes_eq.trans (h.onTrial_zero hne)
      timesOpened_eq := h.timesOpened_eq }
  · have hlt := h.inRow_lt hclosed
    exact ⟨(Counts.failures_eq h).trans (Nat.min_eq_left (by omega)), hlt⟩
  · obtain ⟨since, hsince⟩ := h.exists_opening (by simp [hopened])
    exact ⟨since, hsince, h.next_of_opened htimeout hopened hsince⟩
  · exact congrArg Breaker.openedAt (onFailure_of_opensNext (.inl htrial))
  · exact Counts.failures_eq h.success
  · by_cases hclosed : (after config start history).circuit = .closed
    · simp [Counts.openedAt_eq h, hclosed]
    · obtain ⟨since, hsince⟩ := h.exists_opening hclosed
      simp [h.openedAt_eq hclosed, hsince, hclosed]

/-- Settings at which two failures open the circuit for five milliseconds, and two successes close it. -/
def pairedConfig : BreakerConfig :=
  { failureThreshold := 2, successThreshold := 2, resetTimeoutMs := 5 }

/-- Two failures open the circuit; a late success and a late failure leave it open; a trial starts with
a success and fails. The latest event comes first. -/
def failedTrial : List Event :=
  [.call .failure, .call .success, .call .acquire, .advance 6000000, .call .failure, .call .success,
    .call .failure, .advance 1000000, .call .failure]

theorem failedTrial_followsHistory :
    pairedConfig.validate = .ok () ∧ pairedConfig.failureThreshold ≤ failureLimit ∧
      openings pairedConfig 0 failedTrial = [7000000, 1000000] ∧
      FollowsHistory pairedConfig 0 failedTrial :=
  ⟨rfl, by decide, by decide, followsHistory pairedConfig 0 failedTrial rfl (by decide)⟩

end Breaker

end Dispatch
