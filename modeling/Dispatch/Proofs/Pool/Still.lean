import Dispatch.Proofs.Pool.Growth
import Dispatch.Proofs.Queue.Idle
import Dispatch.Proofs.Sum
/-!
# Settled pools

A turn either leaves less to be done at the present instant, or it leaves its worker still and disturbs
no other one: a worker is still if it has stopped, sleeps beyond now, or waits at an open queue that
holds nothing that it may take. Workers are given turns as long as less is left to be done each time,
so that all workers of a settled pool are still.
-/

namespace Dispatch

variable {α : Type}

/-- A queue without its counts of lock operations and of sleeping workers. -/
def TaskQueue.bare {β : Type} (q : TaskQueue β) : TaskQueue β :=
  { q with strategy := q.strategy.bare }

/-- Whether the worker of a number can do nothing at an instant before something comes to the queue. -/
def Worker.IsStill (queue : TaskQueue (Job α)) (now : Instant) (index : Nat) : Worker α → Prop
  | .seeking => False
  | .waiting => queue.closed = false ∧ queue.strategy.HasNoneFor index now
  | .busy run => now < run.wakeAt
  | .stopped => True

theorem Worker.pending_of_isStill {queue : TaskQueue (Job α)} {now : Instant} {index : Nat}
    {w : Worker α} (h : w.IsStill queue now index) : w.pending now = 0 := by
  cases w with
  | seeking => exact absurd h id
  | waiting => rfl
  | busy run => exact if_neg (Int.not_le.2 h)
  | stopped => rfl

namespace Pool

variable {p q r : Pool α} {t : Task (Job α)} {index : Nat}

/-! ## How much is left to be done -/

/-- How much a worker and the queue leave to be done. -/
def cost (p : Pool α) (w : Worker α) : Nat :=
  3 * p.queue.size + p.queue.strategy.delayedCount + w.pending p.clock

theorem Proceeds.pending_le {actions : List Action} {w : Worker α}
    (h : p.Proceeds t actions q w) : w.pending q.clock ≤ 1 := by
  cases h with
  | sleeps _ _ hwake _ =>
      show (if _ ≤ p.clock then 2 else 0) ≤ 1
      rw [if_neg (Int.not_le.2 hwake)]
      exact Nat.zero_le 1
  | ends _ _ _ => exact Nat.le_refl 1

theorem TakesOn.pending_le {queue : TaskQueue (Job α)} {w : Worker α}
    (h : p.TakesOn queue t q w) : w.pending q.clock ≤ 1 := by
  cases h with
  | cancels _ _ => exact Nat.le_refl 1
  | refuses _ _ _ _ _ => exact Nat.le_refl 1
  | starts _ _ _ _ hproceeds => exact hproceeds.pending_le

/-- A body that is due counts twice, and whatever it leaves behind counts once at most. -/
theorem Proceeds.cost_lt {run : Run α} {w : Worker α} (hdue : run.wakeAt ≤ p.clock)
    (h : p.Proceeds t run.rest q w) : q.cost w < p.cost (.busy run) := by
  have htwo : (Worker.busy run).pending p.clock = 2 := if_pos hdue
  have hone := h.pending_le
  rw [cost, cost, h.queue_eq, htwo]
  omega

/-- A task counts three times, so that taking it leaves less to be done. -/
theorem TakesOn.cost_lt {queue : TaskQueue (Job α)} {w w' : Worker α}
    (hs : p.queue.Sound p.clock) (hlooks : TaskQueue.Looks p.clock p.queue (queue, some t))
    (h : p.TakesOn queue t q w') : q.cost w' < p.cost w := by
  have hsize : p.queue.size = 1 + queue.size := hlooks.handsOut.size_eq hs
  have hdelayed : queue.strategy.delayedCount ≤ p.queue.strategy.delayedCount :=
    hlooks.delayedCount_le
  have hone := h.pending_le
  rw [cost, cost, h.queue_eq, hsize]
  omega

/-! ## Turns that leave as much to be done -/

/-- Whether nothing has changed for the other workers: neither time has passed nor has a task come or
gone. -/
structure Undisturbed (p q : Pool α) : Prop where
  clock_eq : q.clock = p.clock
  bare_eq : q.queue.bare = p.queue.bare

theorem Undisturbed.refl (p : Pool α) : Undisturbed p p := ⟨rfl, rfl⟩

theorem Undisturbed.trans (hpq : Undisturbed p q) (hqr : Undisturbed q r) : Undisturbed p r :=
  ⟨hqr.clock_eq.trans hpq.clock_eq, hqr.bare_eq.trans hpq.bare_eq⟩

theorem Undisturbed.isStill {w : Worker α} (h : Undisturbed p q)
    (hstill : w.IsStill p.queue p.clock index) : w.IsStill q.queue q.clock index := by
  rw [h.clock_eq]
  cases w with
  | waiting =>
      have hclosed : q.queue.bare.closed = p.queue.bare.closed :=
        congrArg TaskQueue.closed h.bare_eq
      have hbare : q.queue.bare.strategy = p.queue.bare.strategy :=
        congrArg TaskQueue.strategy h.bare_eq
      exact ⟨hclosed.trans hstill.1, hstill.2.of_bare_eq hbare⟩
  | _ => exact hstill

/-- Whether what a worker does leaves less to be done, or leaves it still and the others undisturbed. -/
def Calms (p : Pool α) (index : Nat) (w : Worker α) (q : Pool α) (w' : Worker α) : Prop :=
  q.cost w' < p.cost w ∨
    q.cost w' ≤ p.cost w ∧ Undisturbed p q ∧ w'.IsStill q.queue q.clock index

/-- Whether waits are given up only because the queue is closed. -/
structure Orderly (p : Pool α) : Prop where
  sound : p.queue.Sound p.clock
  closed_of_interrupted : p.queue.strategy.isInterrupted = true → p.queue.closed = true

/-- A look that finds nothing leaves the worker waiting, or stopped. -/
theorem calms_afterLook_none (h : p.Orderly) {queue : TaskQueue (Job α)} {w : Worker α}
    (hlooks : TaskQueue.Looks p.clock p.queue (queue, none))
    (hmisses : Strategy.Misses index p.clock p.queue.strategy queue.strategy)
    (hqueue : queue = { p.queue with strategy := queue.strategy }) :
    p.Calms index w (p.afterLook index (queue, none)).1 (p.afterLook index (queue, none)).2 := by
  have hsize : queue.size = p.queue.size := by
    rw [hqueue]
    rfl
  have hclosed : queue.closed = p.queue.closed := hlooks.closed_eq
  have hdelayed : queue.strategy.delayedCount ≤ p.queue.strategy.delayedCount :=
    hlooks.delayedCount_le
  -- with as many delayed tasks as before, the queue holds what it held
  have hbare : queue.strategy.delayedCount = p.queue.strategy.delayedCount →
      queue.bare = p.queue.bare := fun heq => by
    rw [hqueue, TaskQueue.bare, hmisses.bare_eq heq]
    rfl
  have hcalms : ∀ (q : Pool α) (w' : Worker α), q.clock = p.clock → q.queue.size = queue.size →
      q.queue.strategy.delayedCount = queue.strategy.delayedCount →
      q.queue.bare = queue.bare → w'.IsStill q.queue q.clock index → p.Calms index w q w' := by
    intro q w' hclock hsizeEq hcount hbareEq hstill
    have hcost : q.cost w' = 3 * p.queue.size + queue.strategy.delayedCount := by
      rw [cost, Worker.pending_of_isStill hstill, hsizeEq, hcount, hsize, Nat.add_zero]
    rcases Nat.lt_or_eq_of_le hdelayed with hlt | heq
    · left
      rw [hcost, cost]
      omega
    · refine .inr ⟨?_, ⟨hclock, hbareEq.trans (hbare heq)⟩, hstill⟩
      rw [hcost, cost]
      omega
  unfold afterLook
  simp only
  split
  · exact hcalms _ _ rfl rfl rfl rfl trivial
  · rename_i hq
    have hopen : p.queue.closed ≠ true := hclosed ▸ hq
    split
    · rename_i hint
      exact absurd (h.closed_of_interrupted (hlooks.isInterrupted_eq ▸ hint)) hopen
    · have hsleep := Strategy.bare_sleep queue.strategy
      refine hcalms _ _ rfl rfl (Strategy.sameTasks_sleep queue.strategy).delayedCount_eq ?_ ⟨?_, ?_⟩
      · exact congrArg (fun s => { queue with strategy := s }) hsleep
      · exact Bool.eq_false_iff.2 hq
      · exact hmisses.hasNoneFor.of_bare_eq hsleep

theorem calms_afterLook (h : p.Orderly) {w : Worker α}
    {r : TaskQueue (Job α) × Option (Task (Job α))} (hlooks : TaskQueue.Looks p.clock p.queue r)
    (hmisses : r.2 = none → Strategy.Misses index p.clock p.queue.strategy r.1.strategy ∧
      r.1 = { p.queue with strategy := r.1.strategy }) :
    p.Calms index w (p.afterLook index r).1 (p.afterLook index r).2 := by
  obtain ⟨queue, found⟩ := r
  cases found with
  | some t => exact .inl ((takesOn_takeOn p queue t).cost_lt h.sound hlooks)
  | none => exact calms_afterLook_none h hlooks (hmisses rfl).1 (hmisses rfl).2

/-- A look is an attempt at a strategy that holds the same. -/
theorem exists_look?_eq {w : Worker α} {r : TaskQueue (Job α) × Option (Task (Job α))}
    (h : p.look? index w = some r) :
    ∃ s, Strategy.SameTasks p.queue.strategy s ∧ s.bare = p.queue.strategy.bare ∧
      r = p.queue.took (s.attempt index p.clock) := by
  cases w with
  | seeking =>
      cases h
      exact ⟨_, Strategy.sameTasks_enter _, Strategy.bare_enter _, rfl⟩
  | waiting =>
      cases h
      exact ⟨_, Strategy.sameTasks_rouse _, Strategy.bare_rouse _, rfl⟩
  | busy run => contradiction
  | stopped => contradiction

/-- A look that finds nothing changes nothing of a queue but its strategy. -/
theorem misses_look? (h : p.Orderly) {w : Worker α} {r : TaskQueue (Job α) × Option (Task (Job α))}
    (hlook : p.look? index w = some r) (hnone : r.2 = none) :
    Strategy.Misses index p.clock p.queue.strategy r.1.strategy ∧
      r.1 = { p.queue with strategy := r.1.strategy } := by
  obtain ⟨s, hsame, hbare, rfl⟩ := exists_look?_eq hlook
  exact h.sound.misses_took hsame hbare hnone

theorem calms_turn (h : p.Orderly) (index : Nat) (w : Worker α) :
    p.Calms index w (p.turn index w).1 (p.turn index w).2 := by
  have hrests : w.IsStill p.queue p.clock index → p.Calms index w p w := fun hstill =>
    .inr ⟨Nat.le_refl _, Undisturbed.refl p, hstill⟩
  cases w with
  | seeking => exact calms_afterLook h (h.sound.enter index) (misses_look? h (w := .seeking) rfl)
  | waiting => exact calms_afterLook h (h.sound.look index) (misses_look? h (w := .waiting) rfl)
  | stopped => exact hrests trivial
  | busy run =>
      by_cases hdue : run.wakeAt ≤ p.clock
      · rw [show p.turn index (.busy run) = p.proceed run.task run.rest from if_pos hdue]
        exact .inl ((proceeds_proceed p run.task run.rest).cost_lt hdue)
      · rw [show p.turn index (.busy run) = (p, .busy run) from if_neg hdue]
        exact hrests (Int.not_le.1 hdue)

/-! ## Several turns -/

/-- Whether the worker of a number is still, if there is one. -/
def StillAt (p : Pool α) (index : Nat) : Prop :=
  ∀ w, p.workers[index]? = some w → w.IsStill p.queue p.clock index

/-- Whether some turns leave less to be done, or nothing has come of them for the workers that have not
had them, while the others are still. -/
def CalmsAll (p : Pool α) (indices : List Nat) (q : Pool α) : Prop :=
  q.pending < p.pending ∨ q.pending ≤ p.pending ∧ Undisturbed p q ∧
    (∀ index ∈ indices, q.StillAt index) ∧
    ∀ index, index ∉ indices → q.workers[index]? = p.workers[index]?

theorem calmsAll_turnAt (h : p.Orderly) (index : Nat) : p.CalmsAll [index] (p.turnAt index) := by
  unfold turnAt
  split
  · rename_i hnone
    refine .inr ⟨Nat.le_refl _, Undisturbed.refl p, fun i hi w hw => ?_, fun _ _ => rfl⟩
    rw [List.mem_singleton.1 hi, hnone] at hw
    contradiction
  · rename_i w hw
    have hturned := turned_turn h.sound index w
    have hcalms := calms_turn h index w
    generalize p.turn index w = turned at hturned hcalms
    obtain ⟨p', w'⟩ := turned
    simp only at hturned hcalms ⊢
    have hworkers := hturned.sameFrame.workers_eq
    have hclock := hturned.sameFrame.clock_eq
    have hindex : index < p.workers.length := (List.getElem?_eq_some_iff.1 hw).1
    -- the other workers do not change, so that the two sums differ in one summand only
    have hbefore := sumOf_eraseIdx hw (Worker.pending p.clock)
    have hafter := sumOf_set hindex w' (Worker.pending p.clock)
    have hpending : ({ p' with workers := p'.workers.set index w' } : Pool α).pending =
        3 * p'.queue.size + p'.queue.strategy.delayedCount +
          sumOf (Worker.pending p.clock) (p.workers.set index w') := by
      rw [← hworkers, ← hclock]
      rfl
    unfold Calms cost at hcalms
    rw [hclock] at hcalms
    unfold CalmsAll
    rw [hpending, pending, hbefore, hafter]
    rcases hcalms with hlt | ⟨hle, hundisturbed, hstill⟩
    · left
      omega
    · refine .inr ⟨by omega, { hundisturbed with }, fun i hi u hu => ?_, fun other hother => ?_⟩
      · rw [List.mem_singleton.1 hi] at hu ⊢
        rw [show ({ p' with workers := p'.workers.set index w' } : Pool α).workers[index]? = some w'
          from List.getElem?_set_self (hworkers ▸ hindex)] at hu
        cases hu
        exact hclock ▸ hstill
      · show (p'.workers.set index w')[other]? = p.workers[other]?
        rw [List.getElem?_set_ne (Ne.symm (List.ne_of_not_mem_cons hother)), hworkers]

/-- A worker that has no turn is as still afterwards as it was before. -/
theorem CalmsAll.trans {indices others : List Nat} (hpq : p.CalmsAll indices q)
    (hqr : q.CalmsAll others r) : p.CalmsAll (indices ++ others) r := by
  rcases hpq with hlt | ⟨hle, hundisturbed, hstill, hsame⟩
  · rcases hqr with hlt' | ⟨hle', -⟩
    · exact .inl (Nat.lt_trans hlt' hlt)
    · exact .inl (Nat.lt_of_le_of_lt hle' hlt)
  · rcases hqr with hlt | ⟨hle', hundisturbed', hstill', hsame'⟩
    · exact .inl (Nat.lt_of_lt_of_le hlt hle)
    · refine .inr ⟨Nat.le_trans hle' hle, hundisturbed.trans hundisturbed', fun i hi => ?_,
        fun i hi => ?_⟩
      · by_cases hmem : i ∈ others
        · exact hstill' i hmem
        · have hfirst := hstill i ((List.mem_append.1 hi).resolve_right hmem)
          intro w hw
          rw [hsame' i hmem] at hw
          exact hundisturbed'.isStill (hfirst w hw)
      · rw [List.mem_append, not_or] at hi
        exact (hsame' i hi.2).trans (hsame i hi.1)

theorem Orderly.carries (h : p.Orderly) (hcarries : Carries p q) : q.Orderly :=
  ⟨hcarries.sound, fun hint => hcarries.closed
    (h.closed_of_interrupted (hcarries.isInterrupted_eq ▸ hint))⟩

theorem Works.orderly (hworks : p.Works q) (h : p.Orderly) : q.Orderly :=
  h.carries (hworks.carries h.sound)

theorem calmsAll_foldl_turnAt (h : p.Orderly) (indices : List Nat) :
    p.CalmsAll indices (indices.foldl turnAt p) := by
  induction indices generalizing p with
  | nil => exact .inr ⟨Nat.le_refl _, Undisturbed.refl p, by simp, fun _ _ => rfl⟩
  | cons index rest ih =>
      exact (calmsAll_turnAt h index).trans (ih ((works_turnAt p index).orderly h))

/-- All workers of a settled pool are still. -/
theorem stillAt_settle (h : p.Orderly) (index : Nat) : p.settle.StillAt index := by
  fun_induction settle p with
  | case1 p q _ ih => exact ih ((works_sweep p).orderly h)
  | case2 p q hdone =>
      have hlength := ((works_sweep p).carries h.sound).length_eq
      rcases calmsAll_foldl_turnAt h (List.range p.workers.length) with hlt | ⟨-, -, hstill, -⟩
      · exact absurd hlt hdone
      · intro w hw
        refine hstill index (List.mem_range.2 ?_) w hw
        rw [← hlength]
        exact (List.getElem?_eq_some_iff.1 hw).1

end Pool

end Dispatch
