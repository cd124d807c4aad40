import Dispatch.Pool.Start
import Dispatch.Proofs.Pool.Channels
import Dispatch.Recurring
/-!
# What the channels do not change

Outcomes come in at the handles, and nothing looks at what has come in. Two pools that are the same but
for the channels of some tasks therefore stay so, whatever happens to both of them: whether the handle of a
task is still there changes neither what a turn or a request does, nor what comes in at other handles.
-/

namespace Dispatch

variable {α : Type}

/-- Whether channels are the same but for those of some tasks. -/
structure Channels.SameBut (ids : List Nat) (c c' : Channels α) : Prop where
  lookup_eq : ∀ id, id ∉ ids → c'.arrived.lookup id = c.arrived.lookup id
  dropped_iff : ∀ id, id ∉ ids → (id ∈ c'.dropped ↔ id ∈ c.dropped)

namespace Channels.SameBut

variable {ids : List Nat} {c c' c'' : Channels α}

theorem refl (ids : List Nat) (c : Channels α) : SameBut ids c c :=
  ⟨fun _ _ => rfl, fun _ _ => Iff.rfl⟩

theorem symm (h : SameBut ids c c') : SameBut ids c' c :=
  ⟨fun id hid => (h.lookup_eq id hid).symm, fun id hid => (h.dropped_iff id hid).symm⟩

theorem trans (h : SameBut ids c c') (h' : SameBut ids c' c'') : SameBut ids c c'' :=
  ⟨fun id hid => (h'.lookup_eq id hid).trans (h.lookup_eq id hid),
    fun id hid => (h'.dropped_iff id hid).trans (h.dropped_iff id hid)⟩

/-- An outcome that is sent makes a difference only where the handle is there in one case only. -/
theorem send (h : SameBut ids c c') (id : Nat) (o : Outcome α) :
    SameBut ids (c.send id o).1 (c'.send id o).1 := by
  refine ⟨fun other hother => ?_, by simpa using h.dropped_iff⟩
  by_cases heq : other = id
  · subst heq
    by_cases hdropped : other ∈ c.dropped
    · have hdropped' := (h.dropped_iff other hother).2 hdropped
      rw [send_of_mem_dropped hdropped, send_of_mem_dropped hdropped']
      exact h.lookup_eq other hother
    · have hdropped' := mt (h.dropped_iff other hother).1 hdropped
      rw [lookup_send_self hdropped, lookup_send_self hdropped']
  · rw [lookup_send_of_ne heq, lookup_send_of_ne heq]
    exact h.lookup_eq other hother

theorem drop (h : SameBut ids c c') (id : Nat) : SameBut ids (c.drop id) (c'.drop id) := by
  refine ⟨h.lookup_eq, fun other hother => ?_⟩
  simp only [Channels.drop, List.mem_cons, h.dropped_iff other hother]

/-- A handle that is dropped in one case only makes a difference for itself. -/
theorem drop_right {id : Nat} (hid : id ∈ ids) (h : SameBut ids c c') :
    SameBut ids c (c'.drop id) := by
  refine ⟨h.lookup_eq, fun other hother => ?_⟩
  have hne : other ≠ id := fun heq => hother (heq ▸ hid)
  simp only [Channels.drop, List.mem_cons, hne, false_or, h.dropped_iff other hother]

end Channels.SameBut

namespace Pool

variable {p q r : Pool α} {ids : List Nat}

/-- Whether two pools are the same but for the channels of some tasks. -/
def SameBut (ids : List Nat) (p q : Pool α) : Prop :=
  ∃ c, q = { p with channels := c } ∧ p.channels.SameBut ids c

namespace SameBut

theorem refl (ids : List Nat) (p : Pool α) : SameBut ids p p :=
  ⟨p.channels, rfl, Channels.SameBut.refl ids _⟩

theorem symm (h : SameBut ids p q) : SameBut ids q p := by
  obtain ⟨c, rfl, hc⟩ := h
  exact ⟨p.channels, rfl, hc.symm⟩

theorem trans (h : SameBut ids p q) (h' : SameBut ids q r) : SameBut ids p r := by
  obtain ⟨c, rfl, hc⟩ := h
  obtain ⟨c', rfl, hc'⟩ := h'
  exact ⟨c', rfl, hc.trans hc'⟩

theorem foldl {β : Type} {f : Pool α → β → Pool α}
    (hf : ∀ {p q : Pool α}, SameBut ids p q → ∀ b, SameBut ids (f p b) (f q b)) (l : List β)
    (h : SameBut ids p q) : SameBut ids (l.foldl f p) (l.foldl f q) := by
  induction l generalizing p q with
  | nil => exact h
  | cons b rest ih => exact ih (hf h b)

/-! ## Handles -/

theorem dropHandle (h : SameBut ids p q) (id : Nat) :
    SameBut ids (p.dropHandle id) (q.dropHandle id) := by
  obtain ⟨c, rfl, hc⟩ := h
  exact ⟨_, rfl, hc.drop id⟩

theorem dropHandle_right {id : Nat} (hid : id ∈ ids) (h : SameBut ids p q) :
    SameBut ids p (q.dropHandle id) := by
  obtain ⟨c, rfl, hc⟩ := h
  exact ⟨_, rfl, hc.drop_right hid⟩

theorem outcome?_eq (h : SameBut ids p q) (id : Nat) : q.outcome? id = p.outcome? id := by
  obtain ⟨c, rfl, -⟩ := h
  rfl

/-- What is found in the other channels is the same. -/
theorem receive_eq (h : SameBut ids p q) {handle : Handle} (hid : handle.id ∉ ids) :
    handle.receive q = handle.receive p := by
  obtain ⟨c, rfl, hc⟩ := h
  unfold Handle.receive
  simp only [hc.lookup_eq _ hid]
  rfl

/-! ## Admission -/

theorem note (h : SameBut ids p q) (level : Level) (message : String) :
    SameBut ids (p.note level message) (q.note level message) := by
  obtain ⟨c, rfl, hc⟩ := h
  exact ⟨c, rfl, hc⟩

theorem withBreaker (h : SameBut ids p q) (b : Breaker) :
    SameBut ids (p.withBreaker b) (q.withBreaker b) := by
  obtain ⟨c, rfl, hc⟩ := h
  exact ⟨c, rfl, hc⟩

theorem noteTake (h : SameBut ids p q) (t : Task (Job α)) (started : Bool) :
    SameBut ids (p.noteTake t started) (q.noteTake t started) := by
  obtain ⟨c, rfl, hc⟩ := h
  exact ⟨c, rfl, hc⟩

theorem withQueue (h : SameBut ids p q) (queue : TaskQueue (Job α)) :
    SameBut ids { p with queue := queue } { q with queue := queue } := by
  obtain ⟨c, rfl, hc⟩ := h
  exact ⟨c, rfl, hc⟩

theorem withTokens (h : SameBut ids p q) (tokens : Cancellations) :
    SameBut ids { p with tokens := tokens } { q with tokens := tokens } := by
  obtain ⟨c, rfl, hc⟩ := h
  exact ⟨c, rfl, hc⟩

theorem submitAt (h : SameBut ids p q) (readyAt : Instant) (s : Submission α) :
    SameBut ids (p.submitAt readyAt s).1 (q.submitAt readyAt s).1 ∧
      (q.submitAt readyAt s).2 = (p.submitAt readyAt s).2 := by
  obtain ⟨c, rfl, hc⟩ := h
  unfold Pool.submitAt accept acquire enqueue
  simp only
  cases p.accepting with
  | false => exact ⟨⟨c, rfl, hc⟩, rfl⟩
  | true =>
      simp only [if_true]
      rcases p.breaker.acquire p.clock with ⟨b, _ | _⟩
      · exact ⟨⟨c, rfl, hc⟩, rfl⟩
      · simp only [Pool.withBreaker]
        rcases p.queue.push p.clock _ with ⟨queue, _ | _⟩
        · exact ⟨⟨c, rfl, hc⟩, rfl⟩
        · exact ⟨⟨c, rfl, hc⟩, rfl⟩

/-! ## Ends of tasks -/

theorem deliver (h : SameBut ids p q) (id : Nat) (cell : Cell α) :
    SameBut ids (p.deliver id cell) (q.deliver id cell) := by
  obtain ⟨c, rfl, hc⟩ := h
  unfold Pool.deliver
  cases cell.delivered with
  | none => exact ⟨c, rfl, hc⟩
  | some o => exact ⟨_, rfl, hc.send id o⟩

theorem account (h : SameBut ids p q) (t : Task (Job α)) (status : JobStatus) :
    SameBut ids (p.account t status) (q.account t status) := by
  obtain ⟨c, rfl, hc⟩ := h
  cases status <;> exact ⟨c, rfl, hc⟩

theorem finish (h : SameBut ids p q) (t : Task (Job α)) (ended : Cell α × JobStatus) :
    SameBut ids (p.finish t ended) (q.finish t ended) := by
  obtain ⟨c, heq, hc⟩ := (h.account t ended.2).deliver t.id ended.1
  unfold Pool.finish
  simp only [heq]
  exact ⟨c, rfl, hc⟩

theorem cancelRemoved (h : SameBut ids p q) (removed : List (Task (Job α))) :
    SameBut ids (p.cancelRemoved removed) (q.cancelRemoved removed) := by
  refine foldl (fun h t => SameBut.deliver ?_ t.id _) removed h
  obtain ⟨c, rfl, hc⟩ := h
  exact ⟨c, rfl, hc⟩

/-! ## Turns -/

theorem proceed (h : SameBut ids p q) (t : Task (Job α)) (actions : List Action) :
    SameBut ids (p.proceed t actions).1 (q.proceed t actions).1 ∧
      (q.proceed t actions).2 = (p.proceed t actions).2 := by
  obtain ⟨c, rfl, hc⟩ := h
  unfold Pool.proceed
  simp only
  rcases Progress.ofActions p.clock t.body.token actions p.tokens with ⟨tokens, progress⟩
  have htokens : SameBut ids { p with tokens := tokens }
      { p with tokens := tokens, channels := c } := ⟨c, rfl, hc⟩
  cases progress with
  | sleeping wakeAt rest => exact ⟨htokens, rfl⟩
  | done => exact ⟨htokens.finish t _, rfl⟩
  | gaveUp => exact ⟨htokens.finish t _, rfl⟩

theorem takeOn (h : SameBut ids p q) (t : Task (Job α)) :
    SameBut ids (p.takeOn t).1 (q.takeOn t).1 ∧ (q.takeOn t).2 = (p.takeOn t).2 := by
  obtain ⟨c, rfl, hc⟩ := h
  have hactive : SameBut ids { p with active := p.active + 1 }
      { p with active := p.active + 1, channels := c } := ⟨c, rfl, hc⟩
  unfold Pool.takeOn
  simp only
  split
  · exact ⟨(hactive.noteTake t false).finish t _, rfl⟩
  · unfold acquire
    simp only
    rcases p.breaker.acquire p.clock with ⟨b, fault | _⟩
    · exact ⟨((hactive.withBreaker b).noteTake t false).finish t _, rfl⟩
    · exact ((hactive.withBreaker b).noteTake t true).proceed t _

theorem afterLook (h : SameBut ids p q) (index : Nat)
    (look : TaskQueue (Job α) × Option (Task (Job α))) :
    SameBut ids (p.afterLook index look).1 (q.afterLook index look).1 ∧
      (q.afterLook index look).2 = (p.afterLook index look).2 := by
  obtain ⟨queue, _ | t⟩ := look
  · unfold Pool.afterLook
    simp only
    split
    · exact ⟨(h.withQueue queue).note _ _, rfl⟩
    · split
      · exact ⟨h.withQueue queue, rfl⟩
      · exact ⟨h.withQueue queue.sleep, rfl⟩
  · exact (h.withQueue queue).takeOn t

theorem turn (h : SameBut ids p q) (index : Nat) (w : Worker α) :
    SameBut ids (p.turn index w).1 (q.turn index w).1 ∧
      (q.turn index w).2 = (p.turn index w).2 := by
  have hsame : q.clock = p.clock ∧ q.queue = p.queue := by
    obtain ⟨c, rfl, -⟩ := h
    exact ⟨rfl, rfl⟩
  cases w with
  | seeking =>
      unfold Pool.turn
      rw [hsame.1, hsame.2]
      exact h.afterLook index _
  | waiting =>
      unfold Pool.turn
      rw [hsame.1, hsame.2]
      exact h.afterLook index _
  | busy run =>
      simp only [Pool.turn, hsame.1]
      split
      · exact h.proceed run.task run.rest
      · exact ⟨h, rfl⟩
  | stopped => exact ⟨h, rfl⟩

theorem workers_eq (h : SameBut ids p q) : q.workers = p.workers := by
  obtain ⟨c, rfl, -⟩ := h
  rfl

theorem turnAt (h : SameBut ids p q) (index : Nat) :
    SameBut ids (p.turnAt index) (q.turnAt index) := by
  unfold Pool.turnAt
  rw [h.workers_eq]
  split
  · exact h
  · rename_i w _
    obtain ⟨⟨c, hpool, hc⟩, hworker⟩ := h.turn index w
    simp only [hpool, hworker]
    exact ⟨c, rfl, hc⟩

theorem sweep (h : SameBut ids p q) : SameBut ids p.sweep q.sweep := by
  unfold Pool.sweep
  rw [h.workers_eq]
  exact foldl turnAt _ h

theorem pending_eq (h : SameBut ids p q) : q.pending = p.pending := by
  obtain ⟨c, rfl, -⟩ := h
  rfl

theorem settle (h : SameBut ids p q) : SameBut ids p.settle q.settle := by
  fun_induction Pool.settle p generalizing q with
  | @case1 p swept hless ih =>
      have hsettle : q.settle = q.sweep.settle := by
        conv_lhs => rw [Pool.settle]
        exact if_pos (by rwa [h.sweep.pending_eq, h.pending_eq])
      rw [hsettle]
      exact ih h.sweep
  | @case2 p swept hdone =>
      have hsettle : q.settle = q.sweep := by
        rw [Pool.settle]
        exact if_neg (by rwa [h.sweep.pending_eq, h.pending_eq])
      rw [hsettle]
      exact h.sweep

theorem rouse (h : SameBut ids p q) : SameBut ids p.rouse q.rouse := by
  unfold Pool.rouse
  rw [h.workers_eq]
  refine foldl (fun h index => ?_) _ h
  rw [h.workers_eq]
  split
  · exact h.turnAt index
  · exact h

/-! ## Requests -/

theorem closeQueue (h : SameBut ids p q) (graceful : Bool) :
    SameBut ids (p.closeQueue graceful) (q.closeQueue graceful) := by
  obtain ⟨c, rfl, hc⟩ := h
  have hshut : SameBut ids { p with queue := p.queue.shut }
      { p with queue := p.queue.shut, channels := c } := ⟨c, rfl, hc⟩
  unfold Pool.closeQueue
  simp only
  split
  · exact ⟨c, rfl, hc⟩
  · have hroused := hshut.rouse
    generalize { p with queue := p.queue.shut }.rouse = roused at hroused
    generalize { p with queue := p.queue.shut, channels := c }.rouse = roused' at hroused
    obtain ⟨c', rfl, hc'⟩ := hroused
    have hcleared : SameBut ids { roused with queue := (roused.queue.clear graceful roused.clock).1 }
        { roused with
          queue := (roused.queue.clear graceful roused.clock).1
          channels := c' } := ⟨c', rfl, hc'⟩
    exact hcleared.cancelRemoved _

theorem close (h : SameBut ids p q) (graceful : Bool) :
    SameBut ids (p.close graceful) (q.close graceful) := by
  obtain ⟨c, rfl, hc⟩ := h
  have hrefuses : SameBut ids { p with accepting := false }
      { p with accepting := false, channels := c } := ⟨c, rfl, hc⟩
  unfold Pool.close
  simp only
  split
  · exact hrefuses.closeQueue graceful
  · exact ⟨c, rfl, hc⟩

theorem abandon (h : SameBut ids p q) : SameBut ids p.abandon q.abandon := by
  have haccepting : q.accepting = p.accepting := by
    obtain ⟨c, rfl, -⟩ := h
    rfl
  unfold Pool.abandon
  rw [haccepting]
  split
  · exact (h.close false).note _ _
  · exact h

theorem join (h : SameBut ids p q) : SameBut ids p.join q.join := by
  obtain ⟨c, rfl, hc⟩ := h
  have hdrained : SameBut ids { p with queue := p.queue.drain.1, joined := true }
      { p with queue := p.queue.drain.1, joined := true, channels := c } := ⟨c, rfl, hc⟩
  unfold Pool.join
  simp only
  split
  · exact ⟨c, rfl, hc⟩
  · exact hdrained.cancelRemoved _

theorem switch (h : SameBut ids p q) (kind : StrategyKind) :
    SameBut ids (p.switch kind).1 (q.switch kind).1 ∧ (q.switch kind).2 = (p.switch kind).2 := by
  obtain ⟨c, rfl, hc⟩ := h
  have hinterrupted : SameBut ids { p with queue := p.queue.interrupt }
      { p with queue := p.queue.interrupt, channels := c } := ⟨c, rfl, hc⟩
  unfold Pool.switch
  simp only
  split
  · have hroused := hinterrupted.rouse
    generalize { p with queue := p.queue.interrupt }.rouse = roused at hroused
    generalize { p with queue := p.queue.interrupt, channels := c }.rouse = roused' at hroused
    obtain ⟨c', rfl, hc'⟩ := hroused
    exact ⟨⟨c', rfl, hc'⟩, rfl⟩
  · exact ⟨⟨c, rfl, hc⟩, rfl⟩

theorem submitEntry (h : SameBut ids p q) (entry : RecurringEntry α) :
    SameBut ids (Recurring.submitEntry p entry).1 (Recurring.submitEntry q entry).1 ∧
      (Recurring.submitEntry q entry).2 = (Recurring.submitEntry p entry).2 := by
  have hclock : q.clock = p.clock := by
    obtain ⟨c, rfl, -⟩ := h
    rfl
  have hsubmit := h.submitAt p.clock entry.submission
  unfold Recurring.submitEntry Pool.submit
  rw [hclock]
  generalize p.submitAt p.clock entry.submission = done at hsubmit
  generalize q.submitAt p.clock entry.submission = done' at hsubmit
  obtain ⟨p', _ | _⟩ := done <;> obtain ⟨q', answer⟩ := done' <;> obtain ⟨hpool, rfl⟩ := hsubmit
  · exact ⟨hpool.note _ _, rfl⟩
  · exact ⟨hpool, rfl⟩

theorem submitAll (h : SameBut ids p q) (entries : List (RecurringEntry α)) :
    SameBut ids (Recurring.submitAll p entries).1 (Recurring.submitAll q entries).1 ∧
      (Recurring.submitAll q entries).2 = (Recurring.submitAll p entries).2 := by
  induction entries generalizing p q with
  | nil => exact ⟨h, rfl⟩
  | cons entry rest ih =>
      obtain ⟨hone, hanswer⟩ := h.submitEntry entry
      obtain ⟨hrest, hcount⟩ := ih hone
      unfold Recurring.submitAll
      simp only
      exact ⟨hrest, by rw [hanswer, hcount]⟩

/-! ## Steps -/

/-- Whatever happens to a pool happens likewise to one that is the same but for some channels. -/
theorem step {p' : Pool α} (h : SameBut ids p q) (hstep : Step p p') :
    ∃ q', Step q q' ∧ SameBut ids p' q' := by
  cases hstep with
  | work hwork =>
      cases hwork with
      | turn index => exact ⟨_, .work (.turn q index), h.turnAt index⟩
      | tick now hle =>
          obtain ⟨c, rfl, hc⟩ := h
          exact ⟨_, .work (.tick _ now hle), c, rfl, hc⟩
  | submitAt readyAt s => exact ⟨_, .submitAt q readyAt s, (h.submitAt readyAt s).1⟩
  | note level message => exact ⟨_, .note q level message, h.note level message⟩
  | freshToken =>
      obtain ⟨c, rfl, hc⟩ := h
      exact ⟨_, .freshToken _, c, rfl, hc⟩
  | cancel t =>
      obtain ⟨c, rfl, hc⟩ := h
      exact ⟨_, .cancel _ t, c, rfl, hc⟩
  | tellBreaker change =>
      obtain ⟨c, rfl, hc⟩ := h
      exact ⟨_, .tellBreaker _ change, c, rfl, hc⟩
  | sample contention =>
      obtain ⟨c, rfl, hc⟩ := h
      exact ⟨_, .sample _ contention, c, rfl, hc⟩
  | interrupt hopen =>
      obtain ⟨c, rfl, hc⟩ := h
      exact ⟨_, .interrupt _ hopen, c, rfl, hc⟩
  | refill kind hopen =>
      obtain ⟨c, rfl, hc⟩ := h
      exact ⟨_, .refill _ kind hopen, c, rfl, hc⟩
  | refuse =>
      obtain ⟨c, rfl, hc⟩ := h
      exact ⟨_, .refuse _, c, rfl, hc⟩
  | shut hrefusing =>
      obtain ⟨c, rfl, hc⟩ := h
      exact ⟨_, .shut _ hrefusing, c, rfl, hc⟩
  | clear graceful hclosed =>
      obtain ⟨c, rfl, hc⟩ := h
      have hcleared : SameBut ids { p with queue := (p.queue.clear graceful p.clock).1 }
          { p with queue := (p.queue.clear graceful p.clock).1, channels := c } := ⟨c, rfl, hc⟩
      exact ⟨_, .clear _ graceful hclosed, hcleared.cancelRemoved _⟩
  | strand =>
      obtain ⟨c, rfl, hc⟩ := h
      have hdrained : SameBut ids { p with queue := p.queue.drain.1, joined := true }
          { p with queue := p.queue.drain.1, joined := true, channels := c } := ⟨c, rfl, hc⟩
      exact ⟨_, .strand _, hdrained.cancelRemoved _⟩

end SameBut

/-- Whether a pool can become another one while handles of some tasks are dropped, at any time between two
steps. -/
def ReachesDropping (ids : List Nat) : Pool α → Pool α → Prop :=
  Relation.ReflTransGen fun p q => Step p q ∨ ∃ id ∈ ids, q = p.dropHandle id

theorem Reaches.dropping (h : p.Reaches q) : p.ReachesDropping ids q := by
  induction h with
  | refl => exact .refl
  | tail _ hlast ih => exact ih.tail (.inl hlast)

/-- Whatever happens while handles are dropped happens likewise if they are not. -/
theorem SameBut.exists_reaches {p' : Pool α} (h : SameBut ids p q)
    (hreaches : p.ReachesDropping ids p') : ∃ q', q.Reaches q' ∧ SameBut ids p' q' := by
  induction hreaches with
  | refl => exact ⟨q, Reaches.refl q, h⟩
  | tail _ hlast ih =>
      obtain ⟨q', hq', hsame⟩ := ih
      rcases hlast with hstep | ⟨id, hid, rfl⟩
      · obtain ⟨q'', hstep', hsame'⟩ := hsame.step hstep
        exact ⟨q'', hq'.trans hstep'.reaches, hsame'⟩
      · exact ⟨q', hq', (hsame.symm.dropHandle_right hid).symm⟩

end Pool

end Dispatch
