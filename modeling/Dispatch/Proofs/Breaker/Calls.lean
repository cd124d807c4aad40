import Dispatch.Breaker
/-!
# What a call to a breaker amounts to

A breaker is asked to let work through, told how work ended, or reset. This module says once what
each of these calls does in each state of the circuit; what a breaker keeps is read off from there.
-/

namespace Dispatch

namespace Breaker

/-- A call to a breaker. -/
inductive Call where
  /-- Asks to let work through. -/
  | acquire
  | success
  | failure
  | reset
deriving DecidableEq, Repr

/-- The breaker after a call at an instant. -/
def call (b : Breaker) (now : Instant) : Call → Breaker
  | .acquire => (b.acquire now).1
  | .success => b.onSuccess
  | .failure => b.onFailure now
  | .reset => b.reset

variable {b b' : Breaker} {now since : Instant}

/-! ## Requests to let work through -/

theorem left_eq_zero_iff {timeout : Nat} {now since : Int} (htimeout : 0 < timeout) :
    timeout - (now - since).toNat = 0 ↔ since + timeout ≤ now := by
  omega

theorem cast_left_eq {timeout : Nat} {now since : Int} (hle : since ≤ now)
    (hne : timeout - (now - since).toNat ≠ 0) :
    ((timeout - (now - since).toNat : Nat) : Int) = since + timeout - now := by
  omega

theorem timeout_pos {timeout : Nat} {now since : Int} (hle : since ≤ now)
    (hlt : now < since + timeout) : 0 < timeout := by
  omega

/-- An open circuit lets work through from the reset timeout on. -/
theorem remaining?_eq_none_iff (hopened : b.openedAt = some since)
    (htimeout : 0 < b.config.resetTimeout) :
    b.remaining? now = none ↔ since + b.config.resetTimeout ≤ now := by
  have hleft : b.config.resetTimeout - now.since since = 0 ↔ since + b.config.resetTimeout ≤ now :=
    left_eq_zero_iff htimeout
  rw [← hleft, remaining?, hopened, Option.bind_some]
  by_cases hzero : b.config.resetTimeout - now.since since = 0 <;> simp [hzero]

/-- Until then it refuses work, for what is left of the reset timeout. -/
theorem left_of_remaining? (hopened : b.openedAt = some since) (hle : since ≤ now)
    {left : Duration} (h : b.remaining? now = some left) :
    (left : Int) = since + b.config.resetTimeout - now := by
  rw [remaining?, hopened, Option.bind_some] at h
  by_cases hzero : b.config.resetTimeout - now.since since = 0
  · simp [hzero] at h
  · simp only [hzero, if_false, Option.some.injEq] at h
    rw [← h]
    exact cast_left_eq hle hzero

/-- Whether the next request to let work through starts a trial. -/
def TriesNext (b : Breaker) (now : Instant) : Prop := b.circuit = .opened ∧ b.remaining? now = none

theorem acquire_of_triesNext (h : b.TriesNext now) :
    b.acquire now = ({ b with circuit := .halfOpen, successes := 0 }, .ok ()) := by
  rw [acquire, if_pos h.1, h.2]

/-- An open circuit that lets work through starts a trial. -/
theorem triesNext_of_acquire (hopened : b.circuit = .opened) (h : (b.acquire now).2 = .ok ()) :
    b.TriesNext now := by
  refine ⟨hopened, ?_⟩
  cases hleft : b.remaining? now with
  | none => rfl
  | some left => simp [acquire, hopened, hleft] at h

/-- A request that starts no trial is at most counted as refused. -/
theorem acquire_of_not_triesNext (h : ¬b.TriesNext now) :
    ∃ rejections, (b.acquire now).1 = { b with rejections := rejections } := by
  unfold acquire
  split
  · rename_i hopened
    split
    · exact ⟨_, rfl⟩
    · rename_i hnone
      exact absurd ⟨hopened, hnone⟩ h
  · exact ⟨_, rfl⟩

/-! ## Successes and failures -/

/-- Whether the next success closes the circuit. -/
def ClosesNext (b : Breaker) : Prop :=
  b.circuit = .halfOpen ∧ b.config.successThreshold ≤ b.successes + 1

theorem onSuccess_of_closesNext (h : b.ClosesNext) :
    b.onSuccess = { b.close with failures := 0 } := by
  rw [onSuccess, if_pos h.1, if_pos h.2]
  rfl

/-- A success that does not close the circuit counts only on trial. -/
theorem onSuccess_of_not_closesNext (h : ¬b.ClosesNext) : b.onSuccess =
    { b with
      failures := 0
      successes := if b.circuit = .halfOpen then b.successes + 1 else b.successes } := by
  unfold onSuccess
  by_cases htrial : b.circuit = .halfOpen
  · rw [if_pos htrial, if_neg (fun hle => h ⟨htrial, hle⟩), if_pos htrial]
  · rw [if_neg htrial, if_neg htrial]

/-- The failures that are counted after one more. -/
def failuresNext (b : Breaker) : Nat := min (b.failures + 1) failureLimit

/-- Whether the next failure opens the circuit. -/
def OpensNext (b : Breaker) : Prop :=
  b.circuit = .halfOpen ∨ b.circuit = .closed ∧ b.config.failureThreshold ≤ b.failuresNext

theorem onFailure_of_opensNext (h : b.OpensNext) :
    b.onFailure now = { b.openAt now with failures := b.failuresNext } := by
  rcases h with htrial | ⟨hclosed, hle⟩
  · simp only [onFailure, htrial]
    rfl
  · simp only [onFailure, hclosed]
    exact if_pos hle

/-- A failure that does not open the circuit is counted. -/
theorem onFailure_of_not_opensNext (h : ¬b.OpensNext) :
    b.onFailure now = { b with failures := b.failuresNext } := by
  cases hcircuit : b.circuit with
  | closed =>
      simp only [onFailure, hcircuit]
      rw [← hcircuit]
      exact if_neg fun hle => h (.inr ⟨hcircuit, hle⟩)
  | halfOpen => exact absurd (.inl hcircuit) h
  | opened =>
      simp only [onFailure, hcircuit]
      rw [← hcircuit]
      rfl

/-! ## What a call makes of the circuit -/

/-- A closed circuit opens at a failure too many, and at nothing else. -/
theorem circuit_call_of_closed (h : b.circuit = .closed) (c : Call) : (b.call now c).circuit =
    if c = .failure ∧ b.config.failureThreshold ≤ b.failuresNext then .opened else .closed := by
  cases c with
  | acquire =>
      obtain ⟨_, heq⟩ := acquire_of_not_triesNext (show ¬b.TriesNext now by simp [TriesNext, h])
      simp [call, heq, h]
  | success => simp [call, onSuccess_of_not_closesNext (b := b) (by simp [ClosesNext, h]), h]
  | failure =>
      by_cases hle : b.config.failureThreshold ≤ b.failuresNext
      · simp [call, onFailure_of_opensNext (.inr ⟨h, hle⟩), openAt, hle]
      · simp [call, onFailure_of_not_opensNext (b := b) (by simp [OpensNext, h, hle]), h, hle]
  | reset => simp [call, reset, close]

/-- An open circuit closes at a reset, and a request starts a trial once nothing is left of the reset
timeout. Results leave the circuit open. -/
theorem circuit_call_of_opened (h : b.circuit = .opened) (c : Call) : (b.call now c).circuit =
    if c = .reset then .closed
    else if c = .acquire ∧ b.remaining? now = none then .halfOpen else .opened := by
  cases c with
  | acquire =>
      by_cases hnone : b.remaining? now = none
      · simp [call, acquire_of_triesNext ⟨h, hnone⟩, hnone]
      · obtain ⟨_, heq⟩ := acquire_of_not_triesNext
          (show ¬b.TriesNext now by simp [TriesNext, hnone])
        simp [call, heq, h, hnone]
  | success => simp [call, onSuccess_of_not_closesNext (b := b) (by simp [ClosesNext, h]), h]
  | failure => simp [call, onFailure_of_not_opensNext (b := b) (by simp [OpensNext, h]), h]
  | reset => simp [call, reset, close]

/-- A half open circuit opens at any failure, and closes at a reset and at the last success that it
takes. -/
theorem circuit_call_of_halfOpen (h : b.circuit = .halfOpen) (c : Call) : (b.call now c).circuit =
    if c = .failure then .opened
    else if c = .reset ∨ c = .success ∧ b.config.successThreshold ≤ b.successes + 1 then .closed
    else .halfOpen := by
  cases c with
  | acquire =>
      obtain ⟨_, heq⟩ := acquire_of_not_triesNext (show ¬b.TriesNext now by simp [TriesNext, h])
      simp [call, heq, h]
  | success =>
      by_cases hle : b.config.successThreshold ≤ b.successes + 1
      · simp [call, onSuccess_of_closesNext ⟨h, hle⟩, close, hle]
      · simp [call, onSuccess_of_not_closesNext (b := b) (by simp [ClosesNext, hle]), h, hle]
  | failure => simp [call, onFailure_of_opensNext (.inl h), openAt]
  | reset => simp [call, reset, close]

/-! ## What a call leaves as it is -/

@[simp] theorem config_call (b : Breaker) (now : Instant) (c : Call) :
    (b.call now c).config = b.config := by
  cases c with
  | acquire =>
      by_cases htries : b.TriesNext now
      · rw [call, acquire_of_triesNext htries]
      · obtain ⟨_, heq⟩ := acquire_of_not_triesNext htries
        rw [call, heq]
  | success =>
      by_cases hcloses : b.ClosesNext
      · rw [call, onSuccess_of_closesNext hcloses]
        rfl
      · rw [call, onSuccess_of_not_closesNext hcloses]
  | failure =>
      by_cases hopens : b.OpensNext
      · rw [call, onFailure_of_opensNext hopens]
        rfl
      · rw [call, onFailure_of_not_opensNext hopens]
  | reset => rfl

/-- A circuit that is left open does not open anew. -/
theorem opening_call_of_opened (h : b.circuit = .opened) {c : Call}
    (hafter : (b.call now c).circuit = .opened) :
    (b.call now c).openedAt = b.openedAt ∧ (b.call now c).timesOpened = b.timesOpened := by
  cases c with
  | acquire =>
      by_cases htries : b.TriesNext now
      · rw [call, acquire_of_triesNext htries]
        exact ⟨rfl, rfl⟩
      · obtain ⟨_, heq⟩ := acquire_of_not_triesNext htries
        rw [call, heq]
        exact ⟨rfl, rfl⟩
  | success =>
      rw [call, onSuccess_of_not_closesNext (by simp [ClosesNext, h])]
      exact ⟨rfl, rfl⟩
  | failure =>
      rw [call, onFailure_of_not_opensNext (by simp [OpensNext, h])]
      exact ⟨rfl, rfl⟩
  | reset => simp [call, reset, close] at hafter

/-- A circuit that opens does so now. -/
theorem openedAt_call_of_ne (h : b.circuit ≠ .opened) {c : Call}
    (hafter : (b.call now c).circuit = .opened) : (b.call now c).openedAt = some now := by
  cases c with
  | acquire =>
      obtain ⟨_, heq⟩ := acquire_of_not_triesNext fun htries : b.TriesNext now => h htries.1
      rw [call, heq] at hafter
      exact absurd hafter h
  | success =>
      by_cases hcloses : b.ClosesNext
      · rw [call, onSuccess_of_closesNext hcloses] at hafter
        contradiction
      · rw [call, onSuccess_of_not_closesNext hcloses] at hafter
        exact absurd hafter h
  | failure =>
      by_cases hopens : b.OpensNext
      · rw [call, onFailure_of_opensNext hopens]
        rfl
      · rw [call, onFailure_of_not_opensNext hopens] at hafter
        exact absurd hafter h
  | reset => simp [call, reset, close] at hafter

/-- If the circuit was not open before an instant, or opened at it, then so it is after a call. -/
theorem opensNow_call (h : b.circuit = .opened → b.openedAt = some now) (c : Call)
    (hafter : (b.call now c).circuit = .opened) : (b.call now c).openedAt = some now := by
  by_cases hopened : b.circuit = .opened
  · rw [(opening_call_of_opened hopened hafter).1, h hopened]
  · exact openedAt_call_of_ne hopened hafter

/-! ## Open circuits -/

/-- Whether the circuit is open since an instant. -/
structure OpenSince (b : Breaker) (since : Instant) : Prop where
  circuit_eq : b.circuit = .opened
  openedAt_eq : b.openedAt = some since

/-- Whether two breakers are the same but for the count of refusals. -/
def SameButRefusals (b b' : Breaker) : Prop :=
  ∃ rejections, b' = { b with rejections := rejections }

/-- Before the reset timeout has passed, work is refused for what is left of it, and nothing but the
refusal is counted. -/
theorem OpenSince.acquire_eq (h : b.OpenSince since) (hle : since ≤ now)
    (hlt : now < since + b.config.resetTimeout) :
    ∃ left : Duration, (left : Int) = since + b.config.resetTimeout - now ∧
      b.acquire now =
        ({ b with rejections := b.rejections + 1 }, .error (.circuitOpen left)) := by
  have htimeout : 0 < b.config.resetTimeout := timeout_pos hle hlt
  cases hleft : b.remaining? now with
  | none =>
      have := (remaining?_eq_none_iff h.openedAt_eq htimeout).1 hleft
      exact absurd hlt (Int.not_lt.2 this)
  | some left =>
      refine ⟨left, left_of_remaining? h.openedAt_eq hle hleft, ?_⟩
      rw [Breaker.acquire, if_pos h.circuit_eq, hleft]

theorem OpenSince.acquire (h : b.OpenSince since) (hle : since ≤ now)
    (hlt : now < since + b.config.resetTimeout) :
    ∃ left : Duration, (left : Int) = since + b.config.resetTimeout - now ∧
      (b.acquire now).2 = .error (.circuitOpen left) ∧ b.SameButRefusals (b.acquire now).1 := by
  obtain ⟨left, hleft, heq⟩ := h.acquire_eq hle hlt
  rw [heq]
  exact ⟨left, hleft, rfl, _, rfl⟩

/-- Nothing but a reset, or a request after the reset timeout has passed, changes the circuit. -/
theorem OpenSince.call (h : b.OpenSince since) (hle : since ≤ now) {c : Call}
    (hasked : c = .acquire → now < since + b.config.resetTimeout) (hc : c ≠ .reset) :
    (b.call now c).OpenSince since := by
  have hafter : (b.call now c).circuit = .opened := by
    cases c with
    | acquire =>
        obtain ⟨_, -, -, rejections, heq⟩ := h.acquire hle (hasked rfl)
        rw [Breaker.call, heq]
        exact h.circuit_eq
    | reset => contradiction
    | _ => simp [circuit_call_of_opened h.circuit_eq]
  exact ⟨hafter, (opening_call_of_opened h.circuit_eq hafter).1.trans h.openedAt_eq⟩

end Breaker

end Dispatch
