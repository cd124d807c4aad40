import Dispatch.Proofs.Pool.Taking
import Dispatch.Proofs.Queue.Single
/-!
# The order in which one worker takes tasks

Where there is one backlog only, a worker takes the task that is the least in the order of urgency
among all that are ready, however they have come into the queue. Tasks of one priority that are ready
when they are submitted are therefore taken in the order of their submissions.
-/

namespace Dispatch

variable {α : Type}

namespace Pool

variable {p q : Pool α} {t u : Task (Job α)} {index : Nat}

/-- A worker that looks at a queue with one backlog finds the next task. -/
theorem isNext_look? (hs : p.queue.Sound p.clock) (hone : p.queue.Undivided) {w : Worker α}
    {r : TaskQueue (Job α) × Option (Task (Job α))} (h : p.look? index w = some r) :
    Task.IsNext p.clock p.queue.tasks r.2 := by
  cases w with
  | seeking =>
      cases h
      exact hs.isNext_enter hone index
  | waiting =>
      cases h
      exact hs.isNext_look hone index
  | busy run => contradiction
  | stopped => contradiction

theorem isNext_of_taken? (hs : p.queue.Sound p.clock) (hone : p.queue.Undivided)
    (h : p.taken? index = some t) : Task.IsNext p.clock p.queue.tasks (some t) := by
  obtain ⟨r, hr, hfound⟩ := Option.bind_eq_some_iff.1 h
  obtain ⟨w, -, hlook⟩ := Option.bind_eq_some_iff.1 hr
  exact hfound ▸ isNext_look? hs hone hlook

/-- Whether a step takes at most one task, and only one that is the least in the order of urgency
among the queued tasks that are ready. -/
def TakesNext (p q : Pool α) : Prop :=
  q.takes = p.takes ∨ ∃ take, q.takes = take :: p.takes ∧ take.takenAt = p.clock ∧
    take.task ∈ p.queue.tasks ∧ take.task.readyAt ≤ p.clock ∧
    ∀ u ∈ p.queue.tasks, u.readyAt ≤ p.clock → take.task.urgency ≤ u.urgency

theorem Step.takesNext (hs : p.queue.Sound p.clock) (hone : p.queue.Undivided)
    (hstep : Step p q) : p.TakesNext q := by
  refine (hstep.takes_cases hs).imp_right fun h => ?_
  obtain ⟨index, t, started, -, htaken, heq⟩ := h
  obtain ⟨hmem, hready, hleast⟩ := isNext_of_taken? hs hone htaken
  exact ⟨_, heq, rfl, hmem, Task.isReady_iff.1 hready, fun u hu hnow =>
    Task.not_isMoreUrgent_iff.1 (hleast u hu (Task.isReady_iff.2 hnow))⟩

/-- Whether no ready task is left behind by a worker that finds nothing: all queued tasks get ready
later. -/
def LeavesNone (p : Pool α) : Prop :=
  ∀ index w r, p.workers[index]? = some w → p.look? index w = some r → r.2 = none →
    ∀ u ∈ p.queue.tasks, p.clock < u.readyAt

theorem leavesNone (hs : p.queue.Sound p.clock) (hone : p.queue.Undivided) : p.LeavesNone := by
  intro index w r _ hlook hnone u hu
  have hnext := isNext_look? hs hone hlook
  rw [hnone] at hnext
  exact Task.not_isReady_iff.1 (hnext u hu)

/-! ## Tasks of one priority -/

/-- Whether one task was taken before another one, if both of them were taken. What is on record
stands in the order in which it was taken, the newest first. -/
def TakesInOrder (p : Pool α) (id id' : Nat) : Prop :=
  ∀ take ∈ p.takes, ∀ take' ∈ p.takes, take.task.id = id → take'.task.id = id' →
    [take', take].Sublist p.takes

/-- Whether one task was taken before another one, or else is out of its way. -/
structure Precedes (p : Pool α) (t u : Task (Job α)) : Prop where
  inOrder : p.TakesInOrder t.id u.id
  left : u.id ∈ p.takes.map (·.task.id) →
    t.id ∈ p.takes.map (·.task.id) ∨ t.id ∈ p.delivered.map Prod.fst

/-- A task that has been taken or has ended is not in the queue. -/
theorem Kept.not_mem_queue (h : p.Kept) (hleft : t.id ∈ p.takes.map (·.task.id) ∨
    t.id ∈ p.delivered.map Prod.fst) : t ∉ p.queue.tasks := by
  intro hmem
  rcases hleft with htaken | hdelivered
  · refine h.traced.not_mem_takes [] h.balanced ?_ htaken
    rwa [List.append_nil]
  · exact h.balanced.not_mem_delivered (List.mem_append_left _ hmem) hdelivered

/-- An accepted task that is not in the queue has been taken or has ended. -/
theorem Kept.left_of_not_mem_queue (h : p.Kept) (haccepted : t ∈ p.accepted)
    (hnot : t ∉ p.queue.tasks) :
    t.id ∈ p.takes.map (·.task.id) ∨ t.id ∈ p.delivered.map Prod.fst := by
  have hmem := h.balanced.accepted_perm.mem_iff.1 (List.mem_map_of_mem haccepted)
  refine (List.mem_append.1 hmem).imp_left fun hheld => ?_
  obtain ⟨u, hu, hid⟩ := List.mem_map.1 hheld
  obtain rfl : u = t := List.inj_on_of_nodup_map h.balanced.accepted_nodup
    (h.balanced.mem_accepted u hu) haccepted hid
  have hrunning := (List.mem_append.1 hu).resolve_left hnot
  obtain ⟨take, htake, rfl, -⟩ := h.running_started u hrunning
  exact List.mem_map_of_mem htake

/-- Of two accepted tasks the more urgent one, if it is ready, is not overtaken by the other one. -/
theorem Step.precedes (hkept : p.Kept) (hone : p.queue.Undivided) (hstep : Step p q)
    (ht : t ∈ p.accepted) (hu : u ∈ p.accepted) (hready : t.readyAt ≤ p.clock)
    (hlt : t.urgency < u.urgency) (h : p.Precedes t u) : q.Precedes t u := by
  have hs := hkept.balanced.sound
  have hsame : ∀ v ∈ p.queue.tasks, ∀ w ∈ p.accepted, v.id = w.id → v = w := fun v hv w hw hid =>
    List.inj_on_of_nodup_map hkept.balanced.accepted_nodup
      (hkept.balanced.mem_accepted v (List.mem_append_left _ hv)) hw hid
  have hdelivered : t.id ∈ p.delivered.map Prod.fst → t.id ∈ q.delivered.map Prod.fst :=
    fun hmem => ((hstep.grows hs).delivered_suffix.map Prod.fst).mem hmem
  rcases hstep.takesNext hs hone with heq | ⟨take, heq, -, hmem, -, hleast⟩
  · refine ⟨?_, fun htaken => ?_⟩
    · unfold TakesInOrder
      rw [heq]
      exact h.inOrder
    · rw [heq] at htaken ⊢
      exact (h.left htaken).imp_right hdelivered
  · -- when the second task is taken, the first one is no longer in the queue
    have hleft : take.task.id = u.id →
        t.id ∈ p.takes.map (·.task.id) ∨ t.id ∈ p.delivered.map Prod.fst := by
      intro hid
      have htask := hsame _ hmem u hu hid
      refine hkept.left_of_not_mem_queue ht fun htmem => ?_
      exact absurd (hleast t htmem hready) (by rw [htask]; exact not_le_of_gt hlt)
    have hne : t.id ≠ u.id := fun hid => by
      rw [List.inj_on_of_nodup_map hkept.balanced.accepted_nodup ht hu hid] at hlt
      exact lt_irrefl _ hlt
    refine ⟨?_, fun htaken => ?_⟩
    · unfold TakesInOrder
      rw [heq]
      intro first hfirst second hsecond htid huid
      rcases List.mem_cons.1 hsecond with rfl | hsecond'
      · have hold := (List.mem_cons.1 hfirst).resolve_left fun hboth =>
          hne (htid.symm.trans (hboth ▸ huid))
        exact (List.singleton_sublist.2 hold).cons_cons _
      · rcases List.mem_cons.1 hfirst with rfl | hfirst'
        · -- the first task is taken only now, so that the second one cannot be on record
          have hgone := h.left (List.mem_map.2 ⟨second, hsecond', huid⟩)
          have htask := hsame _ hmem t ht htid
          exact absurd (htask ▸ hmem) (hkept.not_mem_queue hgone)
        · exact (h.inOrder first hfirst' second hsecond' htid huid).cons _
    · rw [heq] at htaken ⊢
      have hgone : t.id ∈ p.takes.map (·.task.id) ∨ t.id ∈ p.delivered.map Prod.fst := by
        rcases List.mem_cons.1 htaken with hid | htaken
        · exact hleft hid.symm
        · exact h.left htaken
      exact hgone.imp (List.mem_cons_of_mem _) hdelivered

/-- From the submission of the second one on, two tasks of one priority that were ready when they were
submitted are taken in the order of their submissions. -/
theorem takesInOrder_of_reaches (hkept : p.Kept) (hone : p.queue.Undivided)
    (ht : t ∈ p.accepted) (hu : u ∈ p.accepted) (hready : t.readyAt ≤ p.clock)
    (hlt : t.urgency < u.urgency) (huntaken : u.id ∉ p.takes.map (·.task.id))
    (hreaches : p.Reaches q) : q.TakesInOrder t.id u.id := by
  have hstart : p.Precedes t u := by
    refine ⟨fun first _ second hsecond _ huid => ?_, fun htaken => absurd htaken huntaken⟩
    exact absurd (List.mem_map.2 ⟨second, hsecond, huid⟩) huntaken
  have hend := hreaches.keeps
    (I := fun q => q.Kept ∧ p.Grows q ∧ q.Precedes t u)
    (fun hstep h => by
      obtain ⟨hkept', hgrows, hprecedes⟩ := h
      have hlater := hgrows.trans (hstep.grows hkept'.balanced.sound)
      refine ⟨hstep.kept hkept', hlater, ?_⟩
      exact hstep.precedes hkept' (hone.of_sameSettings hgrows.settings)
        (hgrows.accepted_subset ht) (hgrows.accepted_subset hu)
        (Int.le_trans hready hgrows.clock_le) hlt hprecedes)
    ⟨hkept, Grows.refl hkept.balanced.sound, hstart⟩
  exact hend.2.2.inOrder

/-- Tasks of one priority that are given to the pool one after the other, each to be run at once, are
taken in this order, whatever happens in between and afterwards. -/
theorem takesInOrder_submit {a b : Pool α} {s s' : Submission α} {handle handle' : Handle}
    (hkept : a.Kept) (hone : a.queue.Undivided) (hfirst : (a.submit s).2 = .ok handle)
    (hbetween : (a.submit s).1.Reaches b) (hsecond : (b.submit s').2 = .ok handle')
    (hpriority : s'.priority = s.priority) (hafter : (b.submit s').1.Reaches q) :
    q.TakesInOrder handle.id handle'.id := by
  obtain ⟨ht, hid⟩ := accepted_submitAt hfirst
  obtain ⟨hu, hid'⟩ := accepted_submitAt hsecond
  have hstep := Step.submitAt a a.clock s
  have hstep' := Step.submitAt b b.clock s'
  have hkept' := hstep.kept hkept
  have hbkept := hbetween.kept hkept'
  have hgrows := (hstep.grows hkept.balanced.sound).trans (hbetween.grows hkept'.balanced.sound)
  have hgrows' := hstep'.grows hbkept.balanced.sound
  have ht' : a.newTask a.clock s ∈ b.accepted :=
    (hbetween.grows hkept'.balanced.sound).accepted_subset ht
  have hnumbers : a.nextId < b.nextId := by
    obtain ⟨answer, hanswer, htask⟩ := List.mem_map.1 ht'
    have hlt := hbkept.balanced.answers_lt answer (List.mem_filter.1 hanswer).1
    rwa [htask] at hlt
  have hlt : (a.newTask a.clock s).urgency < (b.newTask b.clock s').urgency := by
    rw [← Task.isMoreUrgent_iff]
    simp only [Task.isMoreUrgent, newTask, hpriority, Bool.or_eq_true, Bool.and_eq_true,
      decide_eq_true_eq]
    refine .inr ⟨trivial, ?_⟩
    exact (Int.lt_or_eq_of_le hgrows.clock_le).imp_right fun heq => ⟨heq, hnumbers⟩
  rw [hid, hid']
  refine takesInOrder_of_reaches (hstep'.kept hbkept)
    ((hone.of_sameSettings hgrows.settings).of_sameSettings hgrows'.settings)
    (hgrows'.accepted_subset ht') hu (Int.le_trans hgrows.clock_le hgrows'.clock_le) hlt ?_ hafter
  -- the number of the second task is new
  intro htaken
  obtain ⟨take, htake, hnumber⟩ := List.mem_map.1 htaken
  rw [(submits_submitAt b b.clock s').takes_eq] at htake
  obtain ⟨answer, hanswer, htask⟩ := List.mem_map.1 (hbkept.traced.takes_accepted take htake)
  have hlt := hbkept.balanced.answers_lt answer (List.mem_filter.1 hanswer).1
  rw [htask, hnumber] at hlt
  exact Nat.lt_irrefl _ hlt

end Pool

end Dispatch
