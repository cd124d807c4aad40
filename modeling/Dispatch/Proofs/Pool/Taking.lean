import Dispatch.Proofs.Pool.Trace
/-!
# How tasks leave the queue

Without a request a task leaves the queue only in the turn of a worker that takes it. The turn puts
on record whether the body was started, and an outcome that was given without a start is delivered
there and then. A task with an outcome is never taken.
-/

namespace Dispatch

variable {α : Type}

namespace Pool

variable {p q : Pool α} {t : Task (Job α)} {index : Nat}

/-- What a turn does if it takes a task. -/
theorem turned_takes_of_taken? (hs : p.queue.Sound p.clock) (h : p.taken? index = some t) :
    ∃ queue p' w', TaskQueue.Looks p.clock p.queue (queue, some t) ∧ p.TakesOn queue t p' w' ∧
      p.turnAt index = { p' with workers := p'.workers.set index w' } := by
  unfold taken? at h
  cases hw : p.workers[index]? with
  | none => simp [hw] at h
  | some w =>
      rw [hw, Option.bind_some] at h
      obtain ⟨p', w', hturned, heq⟩ : ∃ p' w', p.Turned index w p' w' ∧
          p.turnAt index = { p' with workers := p'.workers.set index w' } :=
        ⟨_, _, turned_turn hs index w, by simp only [turnAt, hw]⟩
      cases hturned with
      | rests hquiet => cases w <;> simp [look?] at h <;> exact absurd hquiet id
      | goesOn hrun => simp [hrun, look?] at h
      | misses _ _ hlook => simp [hlook] at h
      | takes _ hlook hlooks htakes =>
          obtain rfl := Option.some.inj (hlook.symm.trans h)
          exact ⟨_, _, _, hlooks, htakes, heq⟩

/-- A task that is taken was in the queue, and is ready. -/
theorem mem_of_taken? (hs : p.queue.Sound p.clock) (h : p.taken? index = some t) :
    t ∈ p.queue.tasks ∧ t.isReady p.clock = true := by
  obtain ⟨queue, _, _, hlooks, -, -⟩ := turned_takes_of_taken? hs h
  exact ⟨hlooks.handsOut.tasks_perm.mem_iff.2 List.mem_cons_self, hlooks.isReady t rfl⟩

/-- A task that leaves the queue in a turn is taken. -/
theorem taken?_of_left (hs : p.queue.Sound p.clock) (hbefore : t ∈ p.queue.tasks)
    (hafter : t ∉ (p.turnAt index).queue.tasks) : p.taken? index = some t := by
  rcases turnAt_cases hs index with ⟨-, heq⟩ | ⟨w, p', w', hw, hturned, heq⟩
  · rw [heq] at hafter
    exact absurd hbefore hafter
  · have hafter' : t ∉ p'.queue.tasks := by
      rw [heq] at hafter
      exact hafter
    have htaken : p.taken? index = (p.look? index w).bind Prod.snd := by
      rw [taken?, hw, Option.bind_some]
    cases hturned with
    | rests _ => exact absurd hbefore hafter'
    | goesOn _ _ hproceeds => exact absurd (hproceeds.queue_eq ▸ hbefore) hafter'
    | misses _ _ _ hlooks _ _ =>
        exact absurd (hlooks.handsOut.tasks_perm.mem_iff.1 hbefore) hafter'
    | takes _ hlook hlooks htakes =>
        rcases List.mem_cons.1 (hlooks.handsOut.tasks_perm.mem_iff.1 hbefore) with rfl | hmem
        · exact htaken.trans hlook
        · exact absurd (htakes.queue_eq ▸ hmem) hafter'

/-- If a task leaves the queue while nobody makes a request, some worker takes it in between. -/
theorem Works.exists_turn (hs : p.queue.Sound p.clock) (h : p.Works q)
    (hbefore : t ∈ p.queue.tasks) (hafter : t ∉ q.queue.tasks) :
    ∃ a index, p.Works a ∧ a.taken? index = some t ∧ (a.turnAt index).Works q := by
  induction h with
  | refl => exact absurd hbefore hafter
  | @tail m q hfirst hlast ih =>
      by_cases hmem : t ∈ m.queue.tasks
      · cases hlast with
        | turn index =>
            have hsound := (Works.carries hs hfirst).sound
            exact ⟨m, index, hfirst, taken?_of_left hsound hmem hafter, Works.refl _⟩
        | tick now hle => exact absurd hmem hafter
      · obtain ⟨a, index, hto, htaken, hfrom⟩ := ih hmem
        exact ⟨a, index, hto, htaken, hfrom.trans hlast.works⟩

/-! ## Tasks that are never taken -/

theorem Ends.takes_eq {o : Outcome α} (h : p.Ends t o q) : q.takes = p.takes := by
  obtain ⟨metrics, breaker, log, -, rfl⟩ := h
  rfl

theorem Proceeds.takes_eq {actions : List Action} {w : Worker α}
    (h : p.Proceeds t actions q w) : q.takes = p.takes := by
  cases h with
  | sleeps _ _ _ _ => rfl
  | ends _ _ hends => exact hends.takes_eq

/-- A turn takes at most one task, and puts on record that it does so. -/
theorem takes_turnAt (hs : p.queue.Sound p.clock) (index : Nat) :
    (p.turnAt index).takes = p.takes ∨
      ∃ t started, p.taken? index = some t ∧
        (p.turnAt index).takes = ⟨t, p.clock, started⟩ :: p.takes := by
  rcases turnAt_cases hs index with ⟨-, heq⟩ | ⟨w, p', w', hw, hturned, heq⟩
  · rw [heq]
    exact .inl rfl
  · rw [heq]
    cases hturned with
    | rests _ => exact .inl rfl
    | goesOn _ _ hproceeds => exact .inl hproceeds.takes_eq
    | misses _ _ _ _ _ _ => exact .inl rfl
    | @takes _ t _ _ _ hlook _ htakes =>
        have htaken : p.taken? index = some t := by
          rw [taken?, hw, Option.bind_some]
          exact hlook
        cases htakes with
        | cancels _ hends => exact .inr ⟨_, _, htaken, hends.takes_eq⟩
        | refuses _ _ _ _ hends => exact .inr ⟨_, _, htaken, hends.takes_eq⟩
        | starts _ _ _ _ hproceeds => exact .inr ⟨_, _, htaken, hproceeds.takes_eq⟩

/-- Nothing but the turn of a worker takes a task. -/
theorem Step.takes_cases (hs : p.queue.Sound p.clock) (h : Step p q) : q.takes = p.takes ∨
    ∃ index t started, q = p.turnAt index ∧ p.taken? index = some t ∧
      q.takes = ⟨t, p.clock, started⟩ :: p.takes := by
  cases h with
  | work hwork =>
      cases hwork with
      | tick now hle => exact .inl rfl
      | turn index =>
          refine (takes_turnAt hs index).imp_right fun htaken => ?_
          obtain ⟨t, started, htaken, heq⟩ := htaken
          exact ⟨index, t, started, rfl, htaken, heq⟩
  | submitAt readyAt s => exact .inl (submits_submitAt p readyAt s).takes_eq
  | clear _ _ => exact .inl (cancelRemoved_takes _)
  | strand => exact .inl (cancelRemoved_takes _)
  | _ => exact .inl rfl

/-- What a step puts on record as taken is taken now, by a worker in its turn. -/
theorem Step.taken_of_new (hs : p.queue.Sound p.clock) (h : Step p q) {take : Take α}
    (htake : take ∈ q.takes) (hnew : take ∉ p.takes) : take.takenAt = p.clock ∧
      ∃ index, q = p.turnAt index ∧ p.taken? index = some take.task := by
  rcases h.takes_cases hs with heq | ⟨index, t, started, hturn, htaken, heq⟩
  · exact absurd (heq ▸ htake) hnew
  · rw [heq] at htake
    obtain rfl := (List.mem_cons.1 htake).resolve_right hnew
    exact ⟨rfl, index, hturn, htaken⟩

/-- A task with an outcome that was not taken is not taken later either. -/
theorem Works.untaken (hkept : p.Kept) (h : p.Works q) {id : Nat}
    (hdelivered : id ∈ p.delivered.map Prod.fst) (huntaken : id ∉ p.takes.map (·.task.id)) :
    id ∉ q.takes.map (·.task.id) := by
  induction h with
  | refl => exact huntaken
  | @tail m q hfirst hlast ih =>
      cases hlast with
      | tick now hle => exact ih
      | turn index =>
          have hm : m.Kept := (Works.reaches hfirst).kept hkept
          have hgrows := (Works.carries hkept.balanced.sound hfirst).toGrows
          rcases takes_turnAt hm.balanced.sound index with heq | ⟨t, started, htaken, heq⟩
          · rwa [heq]
          · rw [heq, List.map_cons, List.mem_cons, not_or]
            refine ⟨fun hid => ?_, ih⟩
            -- a task that is taken is in the queue, and then has no outcome yet
            have hmem := (mem_of_taken? hm.balanced.sound htaken).1
            refine hm.balanced.not_mem_delivered (List.mem_append_left _ hmem) (hid ▸ ?_)
            exact (hgrows.delivered_suffix.map Prod.fst).mem hdelivered

end Pool

end Dispatch
