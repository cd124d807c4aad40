import Dispatch.Proofs.Pool.Circuit
/-!
# An open circuit stops execution

From the step at which the circuit opens until the reset timeout has passed, no body is started and no
task is admitted, unless the breaker is reset. Bodies that were started before may end in that time; what
they come to is counted, but does not change the circuit.
-/

namespace Dispatch

variable {α : Type}

namespace Pool

variable {p q r a : Pool α} {t : Task (Job α)} {allowed : Breaker.Call → Prop} {since : Instant}
  {timeout : Duration}

/-! ## What happens to the breaker -/

/-- What every call that can be made keeps holds of the breaker after whatever happens. -/
theorem Happens.keeps_breaker {I : Breaker → Prop} (hs : p.queue.Sound p.clock)
    (hcall : ∀ b c, c ≠ .reset ∨ allowed c → I b → I (b.call p.clock c))
    (h : Happens allowed p q) (hp : I p.breaker) : I q.breaker := by
  rcases h.deals_or_call hs with ⟨asks, ended, hdeals⟩ | ⟨c, hallowed, rfl⟩
  · rw [hdeals.breaker_eq]
    exact Breaker.keeps_asked_told (fun b c hc => hcall b c (.inl hc)) hp asks ended
  · exact hcall p.breaker c (.inr hallowed) hp

theorem Runs.config_eq (hs : p.queue.Sound p.clock) (h : p.Runs allowed q) :
    q.breaker.config = p.breaker.config := by
  induction h with
  | refl => rfl
  | tail hfirst hlast ih =>
      have hm := (Runs.reaches hfirst).grows hs
      refine hlast.keeps_breaker (I := fun b => b.config = p.breaker.config) hm.sound ?_ ih
      intro b c _ hb
      rw [Breaker.config_call, hb]

/-- Whether a step opens the circuit. A step that starts a trial and fails it opens the circuit anew. -/
structure Opens (p q : Pool α) : Prop where
  opened : q.breaker.circuit = .opened
  anew : p.breaker.circuit = .opened → q.breaker.timesOpened ≠ p.breaker.timesOpened

/-- A circuit that is opened by a step is open since the present instant. -/
theorem Happens.openSince (hs : p.queue.Sound p.clock) (h : Happens allowed p q)
    (hopens : p.Opens q) : q.breaker.OpenSince p.clock := by
  -- what is open after some calls was open all the time, or was opened by one of them
  let I : Breaker → Prop := fun b => b.circuit = .opened →
    (p.breaker.circuit = .opened ∧ b.timesOpened = p.breaker.timesOpened) ∨
      b.openedAt = some p.clock
  have hkept : I q.breaker := by
    refine h.keeps_breaker hs (fun b c _ hb hafter => ?_) fun hopened => .inl ⟨hopened, rfl⟩
    by_cases hopened : b.circuit = .opened
    · obtain ⟨hat, htimes⟩ := Breaker.opening_call_of_opened hopened hafter
      rw [hat, htimes]
      exact hb hopened
    · exact .inr (Breaker.openedAt_call_of_ne hopened hafter)
  rcases hkept hopens.opened with ⟨hbefore, htimes⟩ | hat
  · exact absurd htimes (hopens.anew hbefore)
  · exact ⟨hopens.opened, hat⟩

/-! ## The time for which the circuit stays open -/

/-- Whether the circuit of a pool is open since an instant and stays so for some time. -/
structure ShutFor (p : Pool α) (since : Instant) (timeout : Duration) : Prop where
  sound : p.queue.Sound p.clock
  openSince : p.breaker.OpenSince since
  timeout_eq : p.breaker.config.resetTimeout = timeout
  since_le : since ≤ p.clock

theorem ShutFor.lt_reset (h : p.ShutFor since timeout) (hlt : p.clock < since + timeout) :
    p.clock < since + p.breaker.config.resetTimeout := by
  rwa [h.timeout_eq]

/-- Whatever happens before the time is over leaves the circuit open. -/
theorem ShutFor.happens (h : p.ShutFor since timeout) (hlt : p.clock < since + timeout)
    (hstep : Happens (· ≠ .reset) p q) : q.ShutFor since timeout := by
  have hgrows := hstep.step.grows h.sound
  let I : Breaker → Prop := fun b => b.OpenSince since ∧ b.config.resetTimeout = timeout
  have hkept : I q.breaker := by
    refine hstep.keeps_breaker h.sound (fun b c hc hb => ?_) ⟨h.openSince, h.timeout_eq⟩
    have hlt' : p.clock < since + b.config.resetTimeout := by rwa [hb.2]
    exact ⟨hb.1.call h.since_le (fun _ => hlt') (hc.elim id id), by rw [Breaker.config_call, hb.2]⟩
  exact ⟨hgrows.sound, hkept.1, hkept.2, Int.le_trans h.since_le hgrows.clock_le⟩

/-- No body is started before the time is over. -/
theorem ShutFor.unstarted (h : p.ShutFor since timeout) (hlt : p.clock < since + timeout)
    (hstep : Happens allowed p q) {take : Take α} (htake : take ∈ q.takes)
    (hnew : take ∉ p.takes) : take.started = false := by
  obtain ⟨_, -, hrefuse, -⟩ := h.openSince.acquire h.since_le (h.lt_reset hlt)
  rcases hstep.deals_or_call h.sound with ⟨asks, ended, hdeals⟩ | ⟨c, -, rfl⟩
  · refine Bool.eq_false_iff.2 fun hstarted => ?_
    -- a body is started only if the breaker lets it through
    have hpass := (hdeals.passes htake hnew hstarted).2
    exact absurd (hrefuse.symm.trans hpass) (by simp)
  · exact absurd htake hnew

theorem ShutFor.runs (h : q.ShutFor since timeout) (hruns : q.Runs (· ≠ .reset) r)
    (hlt : r.clock < since + timeout) : r.ShutFor since timeout := by
  induction hruns with
  | refl => exact h
  | @tail m r hfirst hlast ih =>
      have hle := (hlast.step.grows ((Runs.reaches hfirst).grows h.sound).sound).clock_le
      have hm : m.clock < since + timeout := Int.lt_of_le_of_lt hle hlt
      exact (ih hm).happens hm hlast

/-- A body that was started since then was started after the time was over. -/
theorem ShutFor.unstarted_of_runs (h : q.ShutFor since timeout)
    (hruns : q.Runs (· ≠ .reset) r) {take : Take α} (htake : take ∈ r.takes)
    (hnew : take ∉ q.takes) (hlt : take.takenAt < since + timeout) : take.started = false := by
  induction hruns with
  | refl => exact absurd htake hnew
  | @tail m r hfirst hlast ih =>
      have hm := ((Runs.reaches hfirst).grows h.sound).sound
      by_cases hold : take ∈ m.takes
      · exact ih hold
      · -- the take is that of the last step, and so is its instant
        have htakenAt := (hlast.step.taken_of_new hm htake hold).1
        have hclock : m.clock < since + timeout := htakenAt ▸ hlt
        exact (h.runs hfirst hclock).unstarted hclock hlast htake hold

/-! ## Refusals -/

theorem outcome?_of_delivered {o : Outcome α} {rest : List (Nat × Outcome α)}
    (h : p.delivered = (t.id, o) :: rest) : p.outcome? t.id = some o := by
  rw [outcome?, h]
  exact List.lookup_cons_self

/-- A task that is taken before the time is over ends without a start: it is cancelled if its token is,
and refused otherwise. -/
theorem ShutFor.taken (h : p.ShutFor since timeout) (hlt : p.clock < since + timeout) {index : Nat}
    (htaken : p.taken? index = some t) : ∃ left : Duration, (left : Int) = since + timeout - p.clock ∧
      (p.turnAt index).takes = ⟨t, p.clock, false⟩ :: p.takes ∧
      (p.turnAt index).outcome? t.id = some
        (if p.tokens.asksToStop t.body.token then .cancelled else .failed (.circuitOpen left)) ∧
      p.breaker.SameButRefusals (p.turnAt index).breaker := by
  obtain ⟨left, hleft, hanswer, hsame⟩ := h.openSince.acquire h.since_le (h.lt_reset hlt)
  rw [h.timeout_eq] at hleft
  obtain ⟨queue, p', w', hlooks, htakes, heq⟩ := turned_takes_of_taken? h.sound htaken
  rw [heq]
  refine ⟨left, hleft, ?_⟩
  cases htakes with
  | cancels hstop hends =>
      rw [if_pos hstop]
      refine ⟨hends.takes_eq, outcome?_of_delivered hends.delivered_eq, p.breaker.rejections, ?_⟩
      exact hends.breaker_eq
  | refuses breaker log hstop hrefuse hends hbreaker =>
      obtain rfl : left = _ := by
        have := hanswer.symm.trans hrefuse
        simpa using this
      rw [if_neg (by simp [hstop])]
      refine ⟨hends.takes_eq, outcome?_of_delivered hends.delivered_eq, ?_⟩
      rw [← hbreaker] at hsame
      exact hends.breaker_eq ▸ hsame
  | starts _ _ _ hpass => exact absurd (hanswer.symm.trans hpass) (by simp)

/-- So is a submission before the time is over. -/
theorem ShutFor.submitAt (h : p.ShutFor since timeout) (hlt : p.clock < since + timeout)
    (readyAt : Instant) (s : Submission α) :
    ∃ left : Duration, (left : Int) = since + timeout - p.clock ∧
      (p.submitAt readyAt s).2 =
        .error (if p.accepting then .circuitOpen left else .shuttingDown) ∧
      (p.submitAt readyAt s).1.queue = p.queue ∧
      p.breaker.SameButRefusals (p.submitAt readyAt s).1.breaker := by
  obtain ⟨left, hleft, hanswer, hsame⟩ := h.openSince.acquire h.since_le (h.lt_reset hlt)
  rw [h.timeout_eq] at hleft
  refine ⟨left, hleft, ?_⟩
  rw [(deals_submitAt p readyAt s).breaker_eq]
  unfold Pool.submitAt accept acquire
  by_cases haccepting : p.accepting = true
  · simp only [haccepting, if_true]
    cases hacquire : p.breaker.acquire p.clock with
    | mk b answer =>
        rw [hacquire] at hanswer hsame
        obtain rfl : answer = .error (.circuitOpen left) := hanswer
        refine ⟨rfl, rfl, ?_⟩
        simpa [Breaker.told, Breaker.asked, hacquire] using hsame
  · simp only [haccepting, if_false, Bool.false_eq_true]
    exact ⟨rfl, rfl, p.breaker.rejections, rfl⟩

/-- What only cancels and refuses tells the breaker nothing. -/
theorem ShutFor.unmoved (h : p.ShutFor since timeout) (hlt : p.clock < since + timeout)
    (hstep : Happens (fun _ => False) p q) {ended : List (Nat × Outcome α)}
    (hdelivered : q.delivered = ended ++ p.delivered)
    (hended : ∀ d ∈ ended, d.2 = .cancelled ∨ ∃ left, d.2 = .failed (.circuitOpen left)) :
    p.breaker.SameButRefusals q.breaker := by
  obtain ⟨_, -, -, hsame⟩ := h.openSince.acquire h.since_le (h.lt_reset hlt)
  rcases hstep.deals_or_call h.sound with ⟨asks, ended', hdeals⟩ | ⟨c, hfalse, -⟩
  · obtain rfl := List.append_cancel_right (hdelivered.symm.trans hdeals.delivered_eq)
    rw [hdeals.breaker_eq, Breaker.told_eq_self _ _ hended, Breaker.asked]
    split
    · exact hsame
    · exact ⟨p.breaker.rejections, rfl⟩
  · exact absurd hfalse id

/-! ## From the opening on -/

/-- Whether an open circuit stops execution, from a state of a pool on and as long as nobody resets the
breaker, until some time has passed since it opened. -/
structure StopsFor (q : Pool α) (since : Instant) (timeout : Duration) : Prop where
  /-- The circuit stays open, and since the same instant. -/
  openSince : ∀ r, q.Runs (· ≠ .reset) r → r.clock < since + timeout → r.breaker.OpenSince since
  /-- No body is started. -/
  unstarted : ∀ r, q.Runs (· ≠ .reset) r → ∀ take ∈ r.takes, take ∉ q.takes →
    take.takenAt < since + timeout → take.started = false
  /-- A task that is taken ends without a start: it is cancelled if its token is, and refused
  otherwise. This changes nothing in the breaker but the count of refusals. -/
  taken : ∀ r, q.Runs (· ≠ .reset) r → r.clock < since + timeout →
    ∀ index t, r.taken? index = some t → ∃ left : Duration, (left : Int) = since + timeout - r.clock ∧
      (r.turnAt index).takes = ⟨t, r.clock, false⟩ :: r.takes ∧
      (r.turnAt index).outcome? t.id = some
        (if r.tokens.asksToStop t.body.token then .cancelled else .failed (.circuitOpen left)) ∧
      r.breaker.SameButRefusals (r.turnAt index).breaker
  /-- A submission is refused, and neither changes the queue nor, but for the count of refusals, the
  breaker. -/
  submitAt : ∀ r, q.Runs (· ≠ .reset) r → r.clock < since + timeout →
    ∀ readyAt s, ∃ left : Duration, (left : Int) = since + timeout - r.clock ∧
      (r.submitAt readyAt s).2 =
        .error (if r.accepting then .circuitOpen left else .shuttingDown) ∧
      (r.submitAt readyAt s).1.queue = r.queue ∧
      r.breaker.SameButRefusals (r.submitAt readyAt s).1.breaker
  /-- Whatever delivers cancellations and refusals only, or nothing, changes nothing in the breaker but
  the count of refusals. -/
  unmoved : ∀ r r', q.Runs (· ≠ .reset) r → r.clock < since + timeout →
    Happens (fun _ => False) r r' → ∀ ended, r'.delivered = ended ++ r.delivered →
    (∀ d ∈ ended, d.2 = .cancelled ∨ ∃ left, d.2 = .failed (.circuitOpen left)) →
    r.breaker.SameButRefusals r'.breaker

theorem ShutFor.stopsFor (h : q.ShutFor since timeout) : q.StopsFor since timeout where
  openSince := fun _ hruns hlt => (h.runs hruns hlt).openSince
  unstarted := fun _ hruns _ htake hnew hlt => h.unstarted_of_runs hruns htake hnew hlt
  taken := fun _ hruns hlt _ _ htaken => (h.runs hruns hlt).taken hlt htaken
  submitAt := fun _ hruns hlt readyAt s => (h.runs hruns hlt).submitAt hlt readyAt s
  unmoved := fun _ _ hruns hlt hstep _ hdelivered hended =>
    (h.runs hruns hlt).unmoved hlt hstep hdelivered hended

end Pool

end Dispatch
