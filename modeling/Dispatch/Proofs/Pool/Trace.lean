import Dispatch.Proofs.Pool.Balance
/-!
# What workers did with the tasks they took

No task is taken twice, so no body is started twice. What was delivered for a taken task is what its
body came to if it was started, and a cancellation or a refusal by the circuit otherwise; a task that
was not taken has only ever been cancelled.
-/

namespace Dispatch

variable {α : Type}

/-- Whether an outcome is one that a worker gives to a task, by whether it started the body. -/
def Take.Allows (c : Cancellations) (take : Take α) (o : Outcome α) : Prop :=
  if take.started then Pool.CanEnd take.task c o
  else o = .cancelled ∨ ∃ retryAfter, o = .failed (.circuitOpen retryAfter)

theorem Take.Allows.mono {c c' : Cancellations} {take : Take α} {o : Outcome α}
    (h : take.Allows c o) (htokens : c'.Extends c) : take.Allows c' o := by
  unfold Take.Allows at h ⊢
  split
  · rename_i hstarted
    rw [if_pos hstarted] at h
    exact h.imp_right fun hcancelled => ⟨hcancelled.1, htokens.asksToStop hcancelled.2⟩
  · rename_i hstarted
    rwa [if_neg hstarted] at h

namespace Pool

variable {p q : Pool α} {t : Task (Job α)} {o : Outcome α} {under rest : List (Task (Job α))}

/-- Whether a worker has started the body of a task. -/
def HasStarted (p : Pool α) (t : Task (Job α)) : Prop :=
  ∃ take ∈ p.takes, take.task = t ∧ take.started = true

/-- Whether the record of what was taken is in order while the workers have some tasks. -/
structure Traced (under : List (Task (Job α))) (p : Pool α) : Prop where
  active_eq : p.active = under.length
  takes_nodup : (p.takes.map (·.task.id)).Nodup
  takes_accepted : ∀ take ∈ p.takes, take.task ∈ p.accepted
  takes_left : ∀ take ∈ p.takes,
    take.task.id ∈ under.map Task.id ∨ take.task.id ∈ p.delivered.map Prod.fst
  under_taken : ∀ t ∈ under, ∃ take ∈ p.takes, take.task = t
  allows : ∀ take ∈ p.takes, ∀ o, (take.task.id, o) ∈ p.delivered → take.Allows p.tokens o
  untaken : ∀ d ∈ p.delivered, d.1 ∉ p.takes.map (·.task.id) → d.2 = .cancelled

theorem Traced.perm (h : p.Traced under) {under' : List (Task (Job α))}
    (hperm : under.Perm under') : p.Traced under' where
  active_eq := hperm.length_eq ▸ h.active_eq
  takes_nodup := h.takes_nodup
  takes_accepted := h.takes_accepted
  takes_left := fun take ht =>
    (h.takes_left take ht).imp_left (hperm.map Task.id).mem_iff.1
  under_taken := fun t ht => h.under_taken t (hperm.mem_iff.2 ht)
  allows := h.allows
  untaken := h.untaken

theorem Traced.withTokens (h : p.Traced under) {c : Cancellations} (hc : c.Extends p.tokens) :
    { p with tokens := c }.Traced under :=
  { h with allows := fun take ht o ho => (h.allows take ht o ho).mono hc }

/-- A take is determined by the number of its task. -/
theorem Traced.take_eq (h : p.Traced under) {take take' : Take α} (ht : take ∈ p.takes)
    (ht' : take' ∈ p.takes) (hid : take.task.id = take'.task.id) : take = take' :=
  List.inj_on_of_nodup_map h.takes_nodup ht ht' hid

/-- The tasks that the queue holds and those of a removal were not taken. -/
theorem Traced.not_mem_takes (h : p.Traced under) (held : List (Task (Job α)))
    (hb : p.Balanced (held ++ under)) (ht : t ∈ p.queue.tasks ++ held) :
    t.id ∉ p.takes.map (·.task.id) := by
  intro hmem
  obtain ⟨take, htake, hid⟩ := List.mem_map.1 hmem
  have hnodup := hb.places_nodup
  rw [← List.append_assoc, List.map_append, List.append_assoc, List.nodup_append] at hnodup
  have hleft : take.task.id ∈ under.map Task.id ++ p.delivered.map Prod.fst :=
    List.mem_append.2 (h.takes_left take htake)
  exact hnodup.2.2 _ (List.mem_map_of_mem ht) _ hleft hid.symm

/-- The tasks that the queue holds and those under way have no outcome yet. -/
theorem Balanced.not_mem_delivered (hb : p.Balanced under) (ht : t ∈ p.queue.tasks ++ under) :
    t.id ∉ p.delivered.map Prod.fst := by
  intro hmem
  have hnodup := hb.places_nodup
  rw [List.nodup_append] at hnodup
  exact hnodup.2.2 _ (List.mem_map_of_mem ht) _ hmem rfl

/-! ## What a turn keeps -/

theorem Traced.withTake (h : p.Traced rest) (hb : p.Balanced rest) {queue : TaskQueue (Job α)}
    (hout : TaskQueue.HandsOut p.clock [t] p.queue queue) (started : Bool) (breaker : Breaker)
    (log : LogBook) :
    (p.withTake queue ⟨t, p.clock, started⟩ breaker log).Traced (t :: rest) := by
  have hheld : t ∈ p.queue.tasks := hout.tasks_perm.mem_iff.2 List.mem_cons_self
  have huntaken : t.id ∉ p.takes.map (·.task.id) :=
    h.not_mem_takes [] hb (by rwa [List.append_nil])
  have hundelivered := hb.not_mem_delivered (List.mem_append_left rest hheld)
  exact
    { active_eq := congrArg (· + 1) h.active_eq
      takes_nodup := List.nodup_cons.2 ⟨huntaken, h.takes_nodup⟩
      takes_accepted := List.forall_mem_cons.2
        ⟨hb.mem_accepted t (List.mem_append_left rest hheld), h.takes_accepted⟩
      takes_left := List.forall_mem_cons.2 ⟨.inl List.mem_cons_self, fun take ht =>
        (h.takes_left take ht).imp_left (List.mem_cons_of_mem t.id)⟩
      under_taken := List.forall_mem_cons.2 ⟨⟨_, List.mem_cons_self, rfl⟩, fun u hu =>
        (h.under_taken u hu).imp fun take htake => ⟨List.mem_cons_of_mem _ htake.1, htake.2⟩⟩
      allows := List.forall_mem_cons.2
        ⟨fun o ho => absurd (List.mem_map_of_mem ho) hundelivered, h.allows⟩
      untaken := fun d hd hnot => h.untaken d hd fun hmem => hnot (List.mem_cons_of_mem t.id hmem) }

/-- The end of a task with an outcome that its take allows. -/
theorem Ends.traced (h : p.Traced (t :: rest))
    (hallows : ∀ take ∈ p.takes, take.task = t → take.Allows p.tokens o) (hends : p.Ends t o q) :
    q.Traced rest := by
  obtain ⟨metrics, breaker, log, -, rfl⟩ := hends
  obtain ⟨mine, hmine, htask⟩ := h.under_taken t List.mem_cons_self
  refine { h with
    active_eq := by
      show p.active - 1 = rest.length
      rw [h.active_eq, List.length_cons, Nat.add_sub_cancel]
    takes_left := fun take ht => ?_
    under_taken := fun u hu => h.under_taken u (List.mem_cons_of_mem t hu)
    allows := fun take ht o' ho => ?_
    untaken := List.forall_mem_cons.2 ⟨fun hnot => ?_, h.untaken⟩ }
  · rcases h.takes_left take ht with hunder | hdelivered
    · rcases List.mem_cons.1 hunder with hid | hunder
      · exact .inr (hid ▸ List.mem_cons_self)
      · exact .inl hunder
    · exact .inr (List.mem_cons_of_mem t.id hdelivered)
  · rcases List.mem_cons.1 ho with heq | ho
    · obtain ⟨hid, rfl⟩ := Prod.mk.inj heq
      -- a take of the number that was just delivered is the one of this task
      have hsame : take = mine := h.take_eq ht hmine (hid.trans (congrArg Task.id htask).symm)
      exact hallows take ht (hsame ▸ htask)
    · exact h.allows take ht o' ho
  · exact absurd (List.mem_map.2 ⟨mine, hmine, congrArg Task.id htask⟩) hnot

theorem Proceeds.traced (h : p.Traced (t :: rest)) (hstarted : p.HasStarted t)
    {actions : List Action} {w : Worker α} (hproceeds : p.Proceeds t actions q w) :
    q.Traced (w.task?.toList ++ rest) := by
  cases hproceeds with
  | sleeps htokens htask _ _ =>
      subst htask
      exact h.withTokens htokens
  | @ends c o _ htokens hcan hends =>
      refine hends.traced (h.withTokens htokens) fun take ht htask => ?_
      obtain ⟨mine, hmine, hsame, htrue⟩ := hstarted
      have heq : take = mine := h.take_eq ht hmine (congrArg Task.id (htask.trans hsame.symm))
      rw [Take.Allows, if_pos (heq ▸ htrue), htask]
      exact hcan

/-- A task that ends without a start is cancelled, or refused by the circuit. -/
theorem Ends.traced_unstarted (h : p.Traced rest) (hb : p.Balanced rest)
    {queue : TaskQueue (Job α)} (hout : TaskQueue.HandsOut p.clock [t] p.queue queue)
    {breaker : Breaker} {log : LogBook}
    (ho : o = .cancelled ∨ ∃ retryAfter, o = .failed (.circuitOpen retryAfter))
    (hends : (p.withTake queue ⟨t, p.clock, false⟩ breaker log).Ends t o q) : q.Traced rest := by
  have htake := h.withTake hb hout false breaker log
  refine hends.traced htake fun take ht htask => ?_
  have heq := htake.take_eq ht List.mem_cons_self (congrArg Task.id htask)
  rw [heq]
  exact ho

theorem TakesOn.traced (h : p.Traced rest) (hb : p.Balanced rest) {queue : TaskQueue (Job α)}
    {w : Worker α} (hlooks : TaskQueue.Looks p.clock p.queue (queue, some t))
    (htakes : p.TakesOn queue t q w) : q.Traced (w.task?.toList ++ rest) := by
  have hout : TaskQueue.HandsOut p.clock [t] p.queue queue := hlooks.handsOut
  cases htakes with
  | cancels _ hends => exact hends.traced_unstarted h hb hout (.inl rfl)
  | refuses _ _ _ _ hends => exact hends.traced_unstarted h hb hout (.inr ⟨_, rfl⟩)
  | starts breaker log _ _ hproceeds =>
      have hstarted : (p.withTake queue ⟨t, p.clock, true⟩ breaker log).HasStarted t :=
        ⟨_, List.mem_cons_self, rfl, rfl⟩
      exact hproceeds.traced (h.withTake hb hout true breaker log) hstarted

theorem Turned.traced {index : Nat} {w w' : Worker α} (h : p.Traced (w.task?.toList ++ rest))
    (hb : p.Balanced (w.task?.toList ++ rest)) (hstarted : ∀ t ∈ w.task?, p.HasStarted t)
    (hturned : p.Turned index w q w') : q.Traced (w'.task?.toList ++ rest) := by
  cases hturned with
  | rests _ => exact h
  | goesOn hw _ hproceeds =>
      subst hw
      exact hproceeds.traced h (hstarted _ rfl)
  | misses _ hw _ _ htask _ =>
      rw [hw] at h
      rw [htask]
      exact { h with }
  | takes hw _ hlooks htakes =>
      rw [hw] at h hb
      exact htakes.traced h hb hlooks

/-! ## Started bodies -/

theorem HasStarted.grows (h : p.HasStarted t) (hgrows : p.Grows q) : q.HasStarted t :=
  h.imp fun _ htake => ⟨hgrows.takes_suffix.mem htake.1, htake.2⟩

/-- The body that a worker is left with was started. -/
theorem Proceeds.hasStarted {actions : List Action} {w : Worker α} (h : p.HasStarted t)
    (hproceeds : p.Proceeds t actions q w) : ∀ u ∈ w.task?, q.HasStarted u := by
  cases hproceeds with
  | sleeps _ htask _ _ =>
      intro u hu
      cases hu
      exact htask ▸ h
  | ends _ _ _ => simp [Worker.task?]

theorem Turned.hasStarted {index : Nat} {w w' : Worker α}
    (h : ∀ t ∈ w.task?, p.HasStarted t) (hturned : p.Turned index w q w') :
    ∀ t ∈ w'.task?, q.HasStarted t := by
  cases hturned with
  | rests _ => exact h
  | goesOn hw _ hproceeds =>
      subst hw
      exact hproceeds.hasStarted (h _ rfl)
  | misses _ _ _ _ htask _ => simp [htask]
  | takes _ _ _ htakes =>
      cases htakes with
      | cancels _ _ => simp [Worker.task?]
      | refuses _ _ _ _ _ => simp [Worker.task?]
      | starts breaker log _ _ hproceeds =>
          refine hproceeds.hasStarted ?_
          exact ⟨_, List.mem_cons_self, rfl, rfl⟩

/-! ## What a step keeps -/

/-- Whether the books of a pool and its record of what was taken are in order. -/
structure Kept (p : Pool α) : Prop where
  balanced : p.Balanced p.running
  traced : p.Traced p.running
  running_started : ∀ t ∈ p.running, p.HasStarted t

theorem kept_turnAt (h : p.Kept) (index : Nat) : (p.turnAt index).Kept := by
  have hbalanced := balanced_turnAt h.balanced index
  rcases turnAt_running h.balanced.sound index with
    heq | ⟨w, p', w', workers, rest, hturned, heq, hbefore, hafter⟩
  · rw [heq]
    exact h
  · have hstarted : ∀ t ∈ w.task?.toList ++ rest, p.HasStarted t := fun t ht =>
      h.running_started t (hbefore.mem_iff.2 ht)
    have hmine : ∀ t ∈ w.task?, p.HasStarted t := fun t ht =>
      hstarted t (List.mem_append_left rest (Option.mem_toList.2 ht))
    -- the turn is looked at with the task of its worker in front of the others
    have htraced := (hturned.traced (h.traced.perm hbefore) (h.balanced.perm hbefore) hmine).perm
      hafter.symm
    refine ⟨hbalanced, ?_, fun t ht => ?_⟩
    · rw [heq] at htraced ⊢
      exact { htraced with }
    · have hstill : p'.HasStarted t := by
        rcases List.mem_append.1 (hafter.mem_iff.1 ht) with ht | ht
        · exact hturned.hasStarted hmine t (Option.mem_toList.1 ht)
        · exact (hstarted t (List.mem_append_right _ ht)).grows
            (hturned.carries h.balanced.sound).toGrows
      rw [heq]
      exact hstill

theorem Submits.traced (h : p.Traced under) (hsubmits : p.Submits t q) : q.Traced under := by
  cases hsubmits with
  | refused fault breaker log => exact { h with }
  | accepted breaker log hpush =>
      exact { h with
        takes_accepted := fun take ht => List.mem_cons_of_mem t (h.takes_accepted take ht) }

/-- Tasks that were removed from the queue were not taken, and are cancelled. -/
theorem traced_cancelRemoved {removed : List (Task (Job α))} (h : p.Traced under)
    (hb : p.Balanced (removed ++ under)) : (p.cancelRemoved removed).Traced under := by
  rw [cancelRemoved_eq]
  induction removed generalizing p with
  | nil => exact h
  | cons t rest ih =>
      -- a removed task was still in the queue, so no worker had it
      have huntaken : t.id ∉ p.takes.map (·.task.id) :=
        h.not_mem_takes _ hb (List.mem_append_right _ List.mem_cons_self)
      have hone := hb.countsEnd (Metrics.countsEnd_recordCancelled p.metrics 0)
      refine ih ?_ { hone with }
      exact { h with
        takes_left := fun take ht =>
          (h.takes_left take ht).imp_right (List.mem_cons_of_mem t.id)
        allows := fun take ht o ho => by
          rcases List.mem_cons.1 ho with heq | ho
          · exact absurd (List.mem_map.2 ⟨take, ht, congrArg Prod.fst heq⟩) huntaken
          · exact h.allows take ht o ho
        untaken := List.forall_mem_cons.2 ⟨fun _ => rfl, h.untaken⟩ }

/-- Tasks that the queue hands out to a removal are cancelled, and nothing else changes. -/
theorem Kept.cancelRemoved (h : p.Kept) {queue : TaskQueue (Job α)}
    {removed : List (Task (Job α))} (joined : Bool)
    (hout : TaskQueue.HandsOut p.clock removed p.queue queue) :
    ({ p with queue := queue, joined := joined }.cancelRemoved removed).Kept := by
  have hone := h.balanced.handsOut hout
  have hb : { p with queue := queue, joined := joined }.Balanced (removed ++ p.running) :=
    { hone with }
  have ht : { p with queue := queue, joined := joined }.Traced p.running := { h.traced with }
  refine ⟨?_, ?_, ?_⟩
  · rw [running_cancelRemoved]
    exact balanced_cancelRemoved hb
  · rw [running_cancelRemoved]
    exact traced_cancelRemoved ht hb
  · rw [running_cancelRemoved]
    unfold HasStarted
    rw [cancelRemoved_takes]
    exact h.running_started

/-- A queue with the same tasks can take the place of the one at hand. -/
theorem Kept.withQueue (h : p.Kept) {queue : TaskQueue (Job α)}
    (hout : TaskQueue.HandsOut p.clock [] p.queue queue) : { p with queue := queue }.Kept :=
  ⟨h.balanced.handsOut hout, { h.traced with }, h.running_started⟩

/-- A step keeps the books and the record in order. -/
theorem Step.kept (hstep : Step p q) (h : p.Kept) : q.Kept := by
  cases hstep with
  | work hwork =>
      cases hwork with
      | turn index => exact kept_turnAt h index
      | tick now hle =>
          have hb := h.balanced
          exact ⟨{ hb with sound := hb.sound.mono hle }, { h.traced with }, h.running_started⟩
  | submitAt readyAt s =>
      have hsubmits := submits_submitAt p readyAt s
      have hrunning : (p.submitAt readyAt s).1.running = p.running := by
        rw [running, hsubmits.workers_eq]
        rfl
      refine ⟨?_, ?_, ?_⟩ <;> rw [hrunning]
      · exact hsubmits.balanced h.balanced rfl
      · exact hsubmits.traced h.traced
      · exact fun t ht => (h.running_started t ht).grows (hsubmits.grows h.balanced.sound)
  | cancel t =>
      exact ⟨{ h.balanced with }, h.traced.withTokens (Cancellations.extends_cancel _ t),
        h.running_started⟩
  | freshToken | tellBreaker _ | note _ _ | refuse =>
      -- none of these touches a field that the books or the record speak about
      exact ⟨{ h.balanced with }, { h.traced with }, h.running_started⟩
  | sample c => exact h.withQueue (h.balanced.sound.withContention c)
  | interrupt _ => exact h.withQueue h.balanced.sound.interrupt
  | refill kind _ => exact h.withQueue (h.balanced.sound.refill kind).1
  | shut _ => exact h.withQueue h.balanced.sound.shut
  | clear graceful _ => exact h.cancelRemoved p.joined (h.balanced.sound.clear graceful)
  | strand => exact h.cancelRemoved true h.balanced.sound.drain.1

/-- A run keeps them in order. -/
theorem Reaches.kept (hreaches : p.Reaches q) (h : p.Kept) : q.Kept :=
  hreaches.keeps Step.kept h

end Pool

end Dispatch
