import Dispatch.Proofs.Breaker.History
/-!
# The hint that comes with a refusal

An open circuit refuses work for some time, and tells with every refusal how much of that time is left.
A caller can rely on this hint: whatever the breaker is told or asked meanwhile, as long as nobody resets
it, every request before the time is over is refused as well, and the first one from then on starts a
trial. To read the state or the counts of a breaker changes nothing, so it is no event of its history.
-/

namespace Dispatch

namespace Breaker

variable {config : BreakerConfig} {start since now : Instant} {history later : List Event}
  {b : Breaker}

theorem config_after (config : BreakerConfig) (start : Instant) (history : List Event) :
    (after config start history).config = config := by
  induction history with
  | nil => rfl
  | cons e earlier ih =>
      cases e with
      | advance d => exact ih
      | call c => exact (config_call _ _ c).trans ih

theorem le_clockAfter_advance (d : Duration) :
    clockAfter start history ≤ clockAfter start (.advance d :: history) :=
  Int.le_add_of_nonneg_right (Int.natCast_nonneg d)

/-! ## When an open circuit has opened -/

/-- The circuit is open since the latest opening of the history, whatever the thresholds are. -/
theorem exists_openSince (hopened : (after config start history).circuit = .opened) :
    ∃ since, (openings config start history).head? = some since ∧
      since ≤ clockAfter start history ∧ (after config start history).OpenSince since := by
  induction history with
  | nil => contradiction
  | cons e earlier ih =>
      cases e with
      | advance d =>
          obtain ⟨since, hsince, hle, hopen⟩ := ih hopened
          refine ⟨since, ?_, Int.le_trans hle (le_clockAfter_advance d), hopen⟩
          rw [openings_of_same (e := .advance d) rfl]
          exact hsince
      | call c =>
          by_cases hbefore : (after config start earlier).circuit = .opened
          · obtain ⟨since, hsince, hle, hopen⟩ := ih hbefore
            refine ⟨since, ?_, hle, hopened, ?_⟩
            · rw [openings_of_same (hopened.trans hbefore.symm)]
              exact hsince
            · exact (opening_call_of_opened hbefore hopened).1.trans hopen.openedAt_eq
          · refine ⟨clockAfter start earlier, ?_, Int.le_refl _, hopened, ?_⟩
            · rw [openings_of_opened hbefore hopened]
              rfl
            · exact openedAt_call_of_ne hbefore hopened

theorem clockAfter_append_le (start : Instant) (later history : List Event) :
    clockAfter start history ≤ clockAfter start (later ++ history) := by
  induction later with
  | nil => exact Int.le_refl _
  | cons e earlier ih =>
      cases e with
      | advance d => exact Int.le_trans ih (le_clockAfter_advance d)
      | call c => exact ih

/-! ## Until the time is over -/

/-- Whether after a history nobody resets the breaker, and nobody asks it to let work through from a
deadline on. What comes after the history is listed with the latest event first, too. -/
structure Patient (start deadline : Instant) (history later : List Event) : Prop where
  noReset : .call .reset ∉ later
  /-- Each request is made before the deadline. -/
  asked_lt : ∀ before, .call .acquire :: before <:+ later →
    clockAfter start (before ++ history) < deadline

theorem Patient.tail {deadline : Instant} {e : Event}
    (h : Patient start deadline history (e :: later)) : Patient start deadline history later where
  noReset := fun hmem => h.noReset (List.mem_cons_of_mem e hmem)
  asked_lt := fun before hsuffix => h.asked_lt before (hsuffix.trans (List.suffix_cons e later))

/-- A request before the deadline is counted as refused, and no result is. -/
theorem rejections_call (h : b.OpenSince since) (hle : since ≤ now) {c : Call} (hc : c ≠ .reset)
    (hasked : c = .acquire → now < since + b.config.resetTimeout) :
    (b.call now c).rejections = b.rejections + if c = .acquire then 1 else 0 := by
  cases c with
  | acquire =>
      obtain ⟨_, -, heq⟩ := h.acquire_eq hle (hasked rfl)
      rw [call, heq]
      rfl
  | success =>
      rw [call, onSuccess_of_not_closesNext (by simp [ClosesNext, h.circuit_eq])]
      rfl
  | failure =>
      rw [call, onFailure_of_not_opensNext (by simp [OpensNext, h.circuit_eq])]
      rfl
  | reset => contradiction

/-- Whatever comes after a history while requests are patient, the circuit stays open, and each of the
requests is counted as refused. -/
theorem OpenSince.after_append (h : (after config start history).OpenSince since)
    (hle : since ≤ clockAfter start history)
    (hpatient : Patient start (since + config.resetTimeout) history later) :
    (after config start (later ++ history)).OpenSince since ∧
      (after config start (later ++ history)).rejections =
        (after config start history).rejections + later.count (.call .acquire) := by
  induction later with
  | nil => exact ⟨h, rfl⟩
  | cons e earlier ih =>
      obtain ⟨hopen, hcount⟩ := ih hpatient.tail
      cases e with
      | advance d => exact ⟨hopen, by simpa [after] using hcount⟩
      | call c =>
          have hsince := Int.le_trans hle (clockAfter_append_le start earlier history)
          have hc : c ≠ .reset := fun heq => hpatient.noReset (heq ▸ List.mem_cons_self)
          have hasked : c = .acquire → clockAfter start (earlier ++ history) <
              since + (after config start (earlier ++ history)).config.resetTimeout := by
            intro heq
            rw [config_after]
            exact hpatient.asked_lt earlier (heq ▸ List.suffix_refl _)
          refine ⟨hopen.call hsince hasked hc, ?_⟩
          rw [List.cons_append, after, rejections_call hopen hsince hc hasked, hcount,
            List.count_cons, Nat.add_assoc]
          simp

/-! ## The hint -/

/-- Whether a breaker, whose circuit is open since an instant, answers a request as its reset timeout
calls for. -/
structure Hints (b : Breaker) (since now : Instant) (timeout : Duration) : Prop where
  /-- The request is refused if and only if the timeout has not passed yet. -/
  refused_iff : (∃ left, (b.acquire now).2 = .error (.circuitOpen left)) ↔ now < since + timeout
  /-- The hint is what is left of the timeout. -/
  left_eq : ∀ left, (b.acquire now).2 = .error (.circuitOpen left) →
    0 < left ∧ left ≤ timeout ∧ (left : Int) = since + timeout - now
  /-- A request that is refused changes nothing but the count of refusals. -/
  refused : now < since + timeout → (b.acquire now).1 = { b with rejections := b.rejections + 1 }
  /-- One that is not refused starts a trial. -/
  tried : since + timeout ≤ now →
    b.acquire now = ({ b with circuit := .halfOpen, successes := 0 }, .ok ())

theorem left_bounds {left timeout : Nat} {now since : Int}
    (hleft : (left : Int) = since + timeout - now) (hle : since ≤ now)
    (hlt : now < since + timeout) : 0 < left ∧ left ≤ timeout := by
  omega

theorem OpenSince.hints (h : b.OpenSince since) (hle : since ≤ now)
    (htimeout : 0 < b.config.resetTimeout) : b.Hints since now b.config.resetTimeout := by
  by_cases hlt : now < since + b.config.resetTimeout
  · obtain ⟨left, hleft, heq⟩ := h.acquire_eq hle hlt
    obtain ⟨hpos, hbound⟩ := left_bounds hleft hle hlt
    refine ⟨⟨fun _ => hlt, fun _ => ⟨left, congrArg Prod.snd heq⟩⟩, fun left' hanswer => ?_,
      fun _ => congrArg Prod.fst heq, fun hge => absurd hlt (Int.not_lt.2 hge)⟩
    obtain rfl : left = left' := by simpa [heq] using hanswer
    exact ⟨hpos, hbound, hleft⟩
  · have hnone := (remaining?_eq_none_iff h.openedAt_eq htimeout).2 (Int.not_lt.1 hlt)
    have heq := acquire_of_triesNext ⟨h.circuit_eq, hnone⟩
    exact ⟨⟨fun ⟨_, hanswer⟩ => by simp [heq] at hanswer, fun hbefore => absurd hbefore hlt⟩,
      fun _ hanswer => by simp [heq] at hanswer, fun hbefore => absurd hbefore hlt, fun _ => heq⟩

/-- An open circuit was opened at the latest opening of its history. From then on, whatever the breaker is
told, each request is refused until the reset timeout has passed, with a hint that says exactly how long
that is still; the first one from then on starts a trial. -/
theorem openCircuit_hints (config : BreakerConfig) (start : Instant) (history : List Event)
    (htimeout : 0 < config.resetTimeout)
    (hopened : (after config start history).circuit = .opened) :
    ∃ since, (openings config start history).head? = some since ∧
      since ≤ clockAfter start history ∧
      ∀ later, Patient start (since + config.resetTimeout) history later →
        (after config start (later ++ history)).rejections =
            (after config start history).rejections + later.count (.call .acquire) ∧
          (after config start (later ++ history)).Hints since
            (clockAfter start (later ++ history)) config.resetTimeout := by
  obtain ⟨since, hsince, hle, hopen⟩ := exists_openSince hopened
  refine ⟨since, hsince, hle, fun later hpatient => ?_⟩
  obtain ⟨hstill, hcount⟩ := hopen.after_append hle hpatient
  have hle' := Int.le_trans hle (clockAfter_append_le start later history)
  have hconfig := config_after config start (later ++ history)
  have hhints := hstill.hints hle' (by rwa [hconfig])
  rw [hconfig] at hhints
  exact ⟨hcount, hhints⟩

/-- Two failures, the second of which opens the circuit. -/
def bothFailed : List Event := [.call .failure, .advance 1000000, .call .failure]

/-- Results that come late, the last of them when the reset timeout has just passed, and two requests, the
last of them a nanosecond before that. -/
def lateResults : List Event :=
  [.call .failure, .advance 1, .call .acquire, .advance 2999999, .call .success, .call .acquire,
    .advance 2000000]

theorem patient_lateResults : Patient 0 6000000 bothFailed lateResults where
  noReset := by decide
  asked_lt := by
    intro before hsuffix
    simp only [lateResults, List.suffix_cons_iff, List.cons.injEq, reduceCtorEq, false_and,
      false_or, Event.call.injEq, true_and, List.suffix_nil, or_false] at hsuffix
    rcases hsuffix with rfl | rfl <;> decide

theorem lateResults_hints : 0 < pairedConfig.resetTimeout ∧
    (after pairedConfig 0 bothFailed).circuit = .opened ∧
    Patient 0 6000000 bothFailed lateResults ∧
    (after pairedConfig 0 (lateResults ++ bothFailed)).rejections = 2 ∧
    (after pairedConfig 0 (lateResults ++ bothFailed)).Hints 1000000 6000000 5000000 := by
  have hopened : (after pairedConfig 0 bothFailed).circuit = .opened := by decide
  obtain ⟨since, hsince, -, hall⟩ := openCircuit_hints pairedConfig 0 bothFailed (by decide) hopened
  obtain rfl : 1000000 = since := by
    have hopening : (openings pairedConfig 0 bothFailed).head? = some 1000000 := by decide
    simpa [hopening] using hsince
  obtain ⟨hcount, hhints⟩ := hall lateResults patient_lateResults
  exact ⟨by decide, hopened, patient_lateResults, hcount, hhints⟩

end Breaker

end Dispatch
