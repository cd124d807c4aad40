import Dispatch.Proofs.Pool.Closing
import Dispatch.Proofs.Pool.Taking
/-!
# What a graceful close leads to

A close shuts the queue, gives the waiting workers a last look, and cancels what is not ready then.
What is ready is taken by workers, in the last looks or later, so that a pool whose workers have
stopped after a graceful close has an empty queue.
-/

namespace Dispatch

variable {α : Type}

namespace Pool

variable {p q : Pool α} {t : Task (Job α)}

/-! ## The stages of a close -/

/-- A task that is not ready stays in the queue while workers have their turns. -/
theorem mem_tasks_turnAt (hs : p.queue.Sound p.clock) (ht : t ∈ p.queue.tasks)
    (hready : t.isReady p.clock = false) (index : Nat) : t ∈ (p.turnAt index).queue.tasks := by
  by_contra hleft
  obtain ⟨queue, p', w', hlooks, -, -⟩ :=
    turned_takes_of_taken? hs (taken?_of_left hs ht hleft)
  rw [hlooks.isReady t rfl] at hready
  contradiction

/-- The pool whose queue was just closed. -/
def shutQueue (p : Pool α) : Pool α := { p with accepting := false, queue := p.queue.shut }

/-- The pool whose queue was just closed, after some turns of workers. -/
def shutAfter (p : Pool α) (turns : List Nat) : Pool α := turns.foldl turnAt p.shutQueue

/-- The pool whose tasks that were not ready are cancelled after these turns. -/
def cleared (p : Pool α) (turns : List Nat) : Pool α :=
  let shut := p.shutAfter turns
  { shut with queue := (shut.queue.clear true shut.clock).1 }.cancelRemoved
    (shut.queue.clear true shut.clock).2

/-- The last looks of waiting workers are some turns. -/
theorem exists_rouse_eq (p : Pool α) : ∃ turns : List Nat, p.rouse = turns.foldl turnAt p := by
  refine keeps_rouse (I := fun q => ∃ turns : List Nat, q = turns.foldl turnAt p) ?_ ⟨[], rfl⟩
  rintro q index ⟨turns, rfl⟩
  exact ⟨turns ++ [index], by rw [List.foldl_append, List.foldl_cons, List.foldl_nil]⟩

theorem exists_close_eq (haccepting : p.accepting = true) (hopen : p.queue.closed = false) :
    ∃ turns, p.close true = p.cleared turns := by
  obtain ⟨turns, hrouse⟩ := exists_rouse_eq p.shutQueue
  refine ⟨turns, ?_⟩
  unfold close closeQueue
  rw [if_pos haccepting, if_neg (by simp [hopen])]
  unfold cleared shutAfter
  rw [← hrouse]
  rfl

/-- A pool that was just closed is spent, and has all its tasks. -/
theorem spent_shutQueue (hs : p.queue.Sound p.clock) (hgated : p.Gated)
    (hopen : p.queue.closed = false) : p.shutQueue.Spent where
  sound := hs.shut.sound
  closed := rfl
  interrupted := Strategy.isInterrupted_interrupt _
  not_isReady := fun hmem => absurd (hgated.closed_of_stopped hmem) (by simp [hopen])

theorem tasks_shutQueue (p : Pool α) : p.shutQueue.queue.tasks = p.queue.tasks :=
  (Strategy.sameTasks_interrupt _).tasks_eq

theorem reaches_shutQueue (p : Pool α) : p.Reaches p.shutQueue :=
  (Step.refuse p).reaches.trans (Step.shut { p with accepting := false } rfl).reaches

theorem works_shutAfter (p : Pool α) (turns : List Nat) : p.shutQueue.Works (p.shutAfter turns) :=
  keeps_foldl (I := p.shutQueue.Works) (fun q index h => h.trans (works_turnAt q index)) turns
    (Works.refl _)

theorem reaches_shutAfter (p : Pool α) (turns : List Nat) : p.Reaches (p.shutAfter turns) :=
  (reaches_shutQueue p).trans (works_shutAfter p turns).reaches

/-- The last turns come at the instant of the close, and take no task that is not ready. -/
theorem spent_shutAfter (hs : p.queue.Sound p.clock) (hgated : p.Gated)
    (hopen : p.queue.closed = false) (turns : List Nat) :
    (p.shutAfter turns).Spent ∧ (p.shutAfter turns).clock = p.clock ∧
      ∀ t ∈ p.queue.tasks, t.isReady p.clock = false → t ∈ (p.shutAfter turns).queue.tasks := by
  refine keeps_foldl
    (I := fun q => q.Spent ∧ q.clock = p.clock ∧
      ∀ t ∈ p.queue.tasks, t.isReady p.clock = false → t ∈ q.queue.tasks)
    (fun q index h => ?_) turns ⟨spent_shutQueue hs hgated hopen, rfl, fun t ht _ => ?_⟩
  · obtain ⟨hspent, hclock, hall⟩ := h
    obtain ⟨hspent', hclock', -⟩ := hspent.turnAt index
    refine ⟨hspent', hclock'.trans hclock, fun t ht hready => ?_⟩
    exact mem_tasks_turnAt hspent.sound (hall t ht hready) (hclock ▸ hready) index
  · rw [tasks_shutQueue]
    exact ht

theorem step_cleared (hs : p.queue.Sound p.clock) (hgated : p.Gated)
    (hopen : p.queue.closed = false) (turns : List Nat) :
    Step (p.shutAfter turns) (p.cleared turns) :=
  Step.clear (p.shutAfter turns) true (spent_shutAfter hs hgated hopen turns).1.closed

theorem reaches_cleared (hs : p.queue.Sound p.clock) (hgated : p.Gated)
    (hopen : p.queue.closed = false) (turns : List Nat) : p.Reaches (p.cleared turns) :=
  (reaches_shutAfter p turns).trans (step_cleared hs hgated hopen turns).reaches

/-- What is left after the close is ready. -/
theorem closing_cleared (hs : p.queue.Sound p.clock) (hgated : p.Gated)
    (hopen : p.queue.closed = false) (turns : List Nat) : (p.cleared turns).Closing := by
  obtain ⟨hspent, -, -⟩ := spent_shutAfter hs hgated hopen turns
  obtain ⟨hout, -, hleft⟩ := hspent.sound.drainDelayed
  let shut := p.shutAfter turns
  have hqueue : (p.cleared turns).queue = (shut.queue.drainDelayed shut.clock).1 :=
    cancelRemoved_queue _
  have hclock : (p.cleared turns).clock = shut.clock := cancelRemoved_clock _
  have hworkers : (p.cleared turns).workers = shut.workers := cancelRemoved_workers _
  have hgrows := (step_cleared hs hgated hopen turns).grows hspent.sound
  refine ⟨⟨hgrows.sound, hgrows.closed hspent.closed, ?_, fun hmem t ht => ?_⟩, fun t ht => ?_⟩
  · rw [hqueue]
    exact (Strategy.isInterrupted_drainDelayed _).trans hspent.interrupted
  · rw [hqueue] at ht
    rw [hclock]
    have hmem' : t ∈ shut.queue.tasks :=
      hout.tasks_perm.mem_iff.2 (List.mem_append_right _ ht)
    exact hspent.not_isReady (hworkers ▸ hmem) t hmem'
  · rw [hqueue] at ht
    rw [hclock]
    exact (List.mem_filter.1 (hleft.mem_iff.1 ht)).2

theorem mem_delivered_cancelRemoved (hs : p.queue.Sound p.clock)
    {removed : List (Task (Job α))} (ht : t ∈ removed) :
    (t.id, .cancelled) ∈ (p.cancelRemoved removed).delivered := by
  induction removed generalizing p with
  | nil => contradiction
  | cons u rest ih =>
      rcases List.mem_cons.1 ht with rfl | ht
      · exact (grows_cancelRemoved (p := p.cancelUntaken t) hs rest).delivered_suffix.mem
          List.mem_cons_self
      · exact ih (p := p.cancelUntaken u) hs ht

/-- What is not ready at the close is cancelled, and was not taken. -/
theorem cancelled_cleared (hkept : p.Kept) (hgated : p.Gated) (hopen : p.queue.closed = false)
    (turns : List Nat) (ht : t ∈ p.queue.tasks) (hready : t.isReady p.clock = false) :
    (t.id, .cancelled) ∈ (p.cleared turns).delivered ∧
      t.id ∉ (p.cleared turns).takes.map (·.task.id) := by
  obtain ⟨hspent, hclock, hall⟩ := spent_shutAfter hkept.balanced.sound hgated hopen turns
  let shut := p.shutAfter turns
  have hmem : t ∈ shut.queue.tasks := hall t ht hready
  have hshut : shut.Kept := (reaches_shutAfter p turns).kept hkept
  have hcancel : t ∈ (shut.queue.clear true shut.clock).2 := by
    obtain ⟨-, htaken, -⟩ := hspent.sound.drainDelayed
    refine htaken.mem_iff.2 (List.mem_filter.2 ⟨hmem, ?_⟩)
    rw [hclock, hready]
    rfl
  refine ⟨mem_delivered_cancelRemoved (hspent.sound.clear true).sound hcancel, ?_⟩
  have htakes : (p.cleared turns).takes = shut.takes := cancelRemoved_takes _
  rw [htakes]
  refine hshut.traced.not_mem_takes [] hshut.balanced ?_
  rwa [List.append_nil]

/-- What is ready at the close and not taken in the last turns is left. -/
theorem mem_tasks_cleared (hs : p.queue.Sound p.clock) (hgated : p.Gated)
    (hopen : p.queue.closed = false) (turns : List Nat)
    (ht : t ∈ (p.shutAfter turns).queue.tasks) (hready : t.isReady p.clock = true) :
    t ∈ (p.cleared turns).queue.tasks := by
  obtain ⟨hspent, hclock, -⟩ := spent_shutAfter hs hgated hopen turns
  obtain ⟨-, -, hleft⟩ := hspent.sound.drainDelayed
  rw [cleared, cancelRemoved_queue]
  exact hleft.mem_iff.2 (List.mem_filter.2 ⟨ht, hclock ▸ hready⟩)

/-! ## The tasks of the queue after a close -/

/-- What is not ready at the close is cancelled there, and is not taken later. -/
theorem untaken_of_works (hkept : p.Kept) (hgated : p.Gated) (hopen : p.queue.closed = false)
    {turns : List Nat} (hworks : (p.cleared turns).Works q) (ht : t ∈ p.queue.tasks)
    (hready : t.isReady p.clock = false) :
    (t.id, .cancelled) ∈ q.delivered ∧ t.id ∉ q.takes.map (·.task.id) := by
  obtain ⟨hdelivered, huntaken⟩ := cancelled_cleared hkept hgated hopen turns ht hready
  have hcleared := (reaches_cleared hkept.balanced.sound hgated hopen turns).kept hkept
  have hcarries := hworks.carries hcleared.balanced.sound
  refine ⟨hcarries.delivered_suffix.mem hdelivered, ?_⟩
  exact hworks.untaken hcleared (List.mem_map_of_mem hdelivered) huntaken

/-- What is ready at the close and has left the queue later was taken in between. -/
theorem exists_turn_of_works (hs : p.queue.Sound p.clock) (hgated : p.Gated)
    (hopen : p.queue.closed = false) {turns : List Nat} (hworks : (p.cleared turns).Works q)
    (ht : t ∈ p.queue.tasks) (hready : t.isReady p.clock = true) (hleft : t ∉ q.queue.tasks) :
    ∃ a index, p.Reaches a ∧ a.taken? index = some t ∧ (a.turnAt index).Reaches q := by
  by_cases hlook : t ∈ (p.shutAfter turns).queue.tasks
  · -- the task was left by the last turns, and is taken after the close
    have hsound := (closing_cleared hs hgated hopen turns).sound
    have hmem := mem_tasks_cleared hs hgated hopen turns hlook hready
    obtain ⟨a, index, hto, htaken, hfrom⟩ := hworks.exists_turn hsound hmem hleft
    exact ⟨a, index, (reaches_cleared hs hgated hopen turns).trans hto.reaches, htaken,
      hfrom.reaches⟩
  · -- the task is taken in one of the last turns
    have hsound := (spent_shutQueue hs hgated hopen).sound
    have hmem : t ∈ p.shutQueue.queue.tasks := by rwa [tasks_shutQueue]
    obtain ⟨a, index, hto, htaken, hfrom⟩ :=
      (works_shutAfter p turns).exists_turn hsound hmem hlook
    refine ⟨a, index, (reaches_shutQueue p).trans hto.reaches, htaken, ?_⟩
    exact (hfrom.reaches.trans (step_cleared hs hgated hopen turns).reaches).trans hworks.reaches

end Pool

end Dispatch
