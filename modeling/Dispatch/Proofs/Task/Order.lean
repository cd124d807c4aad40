import Mathlib.Data.List.Basic
import Dispatch.Task
/-!
# The orders of tasks

Both orders of tasks are strict and transitive, so that putting a task into an ordered list keeps
it ordered. A list that is ordered by ready instants has its ready tasks in front, and taking them
off the front takes all of them.
-/

namespace Dispatch.Task

variable {β : Type}

/-- What an order of tasks needs so that lists stay ordered by it. -/
structure IsOrder (before : Task β → Task β → Bool) : Prop where
  asymm : ∀ a b, before a b = true → before b a = false
  trans : ∀ a b c, before a b = true → before b c = true → before a c = true

/-- Whether no task of a list goes before one that stands in front of it. -/
def Ordered (before : Task β → Task β → Bool) (l : List (Task β)) : Prop :=
  l.Pairwise fun a b => before b a = false

theorem isMoreUrgent_isOrder : IsOrder (isMoreUrgent (β := β)) where
  asymm a b h := by
    simp only [Instant, isMoreUrgent, Bool.or_eq_true, Bool.and_eq_true, decide_eq_true_eq,
      Bool.or_eq_false_iff, Bool.and_eq_false_iff, decide_eq_false_iff_not] at h ⊢
    omega
  trans a b c hab hbc := by
    simp only [Instant, isMoreUrgent, Bool.or_eq_true, Bool.and_eq_true, decide_eq_true_eq] at hab hbc ⊢
    omega

theorem isDueBefore_isOrder : IsOrder (isDueBefore (β := β)) where
  asymm a b h := by
    simp only [Instant, isDueBefore, Bool.or_eq_true, Bool.and_eq_true, decide_eq_true_eq,
      Bool.or_eq_false_iff, Bool.and_eq_false_iff, decide_eq_false_iff_not] at h ⊢
    omega
  trans a b c hab hbc := by
    simp only [Instant, isDueBefore, Bool.or_eq_true, Bool.and_eq_true, decide_eq_true_eq] at hab hbc ⊢
    omega

/-- Of two tasks of which the second does not get ready first, the first is ready if the second
is. -/
theorem isReady_of_not_isDueBefore {a b : Task β} {now : Instant} (h : b.isDueBefore a = false)
    (hb : b.isReady now = true) : a.isReady now = true := by
  simp only [Instant, isDueBefore, isReady, Bool.or_eq_false_iff, decide_eq_false_iff_not,
    decide_eq_true_eq] at h hb ⊢
  omega

/-- A ready task stays ready. -/
theorem isReady_mono {t : Task β} {now later : Instant} (hle : now ≤ later)
    (h : t.isReady now = true) : t.isReady later = true := by
  simp only [Instant, isReady, decide_eq_true_eq] at hle h ⊢
  omega

theorem insertBy_perm (before : Task β → Task β → Bool) (t : Task β) (l : List (Task β)) :
    (insertBy before t l).Perm (t :: l) := by
  induction l with
  | nil => exact List.Perm.refl _
  | cons x rest ih =>
      unfold insertBy
      split
      · exact List.Perm.refl _
      · exact (ih.cons x).trans (List.Perm.swap t x rest)

theorem mem_insertBy {before : Task β → Task β → Bool} {t u : Task β} {l : List (Task β)} :
    u ∈ insertBy before t l ↔ u = t ∨ u ∈ l := by
  rw [(insertBy_perm before t l).mem_iff, List.mem_cons]

/-- Putting a task into an ordered list keeps it ordered. -/
theorem ordered_insertBy {before : Task β → Task β → Bool} (order : IsOrder before) (t : Task β)
    {l : List (Task β)} (h : Ordered before l) : Ordered before (insertBy before t l) := by
  induction l with
  | nil => exact List.pairwise_singleton _ _
  | cons x rest ih =>
      obtain ⟨hx, hrest⟩ := List.pairwise_cons.1 h
      unfold insertBy
      split
      · rename_i hbefore
        refine List.pairwise_cons.2 ⟨fun u hu => ?_, h⟩
        rcases List.mem_cons.1 hu with rfl | hu
        · exact order.asymm _ _ hbefore
        · -- a task before `t` would be before `x`, which stands in front of it
          by_contra hcon
          have hut : before u t = true := by simpa using hcon
          have hux := order.trans _ _ _ hut hbefore
          rw [hx u hu] at hux
          contradiction
      · rename_i hnot
        refine List.pairwise_cons.2 ⟨fun u hu => ?_, ih hrest⟩
        rcases mem_insertBy.1 hu with rfl | hu
        · simpa using hnot
        · exact hx u hu

/-- The front of a list that meets a test consists of all elements that meet it, if an element only
meets the test when all those in front of it do. -/
theorem takeWhile_eq_filter {p : Task β → Bool} {l : List (Task β)}
    (h : l.Pairwise fun a b => p b = true → p a = true) :
    l.takeWhile p = l.filter p ∧ l.dropWhile p = l.filter (!p ·) := by
  induction l with
  | nil => exact ⟨rfl, rfl⟩
  | cons x rest ih =>
      obtain ⟨hx, hrest⟩ := List.pairwise_cons.1 h
      obtain ⟨htake, hdrop⟩ := ih hrest
      by_cases hp : p x = true
      · simp [hp, htake, hdrop]
      · have hnone : ∀ u ∈ rest, ¬ p u = true := fun u hu hpu => hp (hx u hu hpu)
        have hempty : rest.filter p = [] := List.filter_eq_nil_iff.2 hnone
        have hall : rest.filter (!p ·) = rest :=
          List.filter_eq_self.2 fun u hu => by simpa using hnone u hu
        simp [hp, hempty, hall]

/-- Among tasks that are ordered by ready instants, the ready ones are those in front. -/
theorem takeWhile_isReady {l : List (Task β)} (h : Ordered isDueBefore l) (now : Instant) :
    l.takeWhile (·.isReady now) = l.filter (·.isReady now) ∧
      l.dropWhile (·.isReady now) = l.filter (!·.isReady now) :=
  takeWhile_eq_filter (h.imp fun hab => isReady_of_not_isDueBefore hab)

end Dispatch.Task
