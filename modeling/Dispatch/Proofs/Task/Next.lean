import Dispatch.Proofs.Task.Order
import Mathlib.Data.List.Nodup
import Mathlib.Data.Prod.Lex
/-!
# The next task

Of some tasks, the next one at an instant is the least in the order of urgency among those that are
ready then. Tasks with different numbers are never equally urgent, so there is at most one.
-/

namespace Dispatch.Task

variable {β : Type} {now : Instant} {ts us : List (Task β)} {a b t : Task β}

/-- By what ready tasks are ordered: the higher priority goes first, then the earlier ready instant,
then the smaller number. -/
def urgency (t : Task β) : Natᵒᵈ ×ₗ Instant ×ₗ Nat :=
  toLex (OrderDual.toDual t.priority.level, toLex (t.readyAt, t.id))

theorem isMoreUrgent_iff : a.isMoreUrgent b = true ↔ a.urgency < b.urgency := by
  simp only [isMoreUrgent, urgency, Prod.Lex.toLex_lt_toLex, OrderDual.toDual_lt_toDual,
    OrderDual.toDual_inj, Bool.or_eq_true, Bool.and_eq_true, decide_eq_true_eq]

theorem not_isMoreUrgent_iff : a.isMoreUrgent b = false ↔ b.urgency ≤ a.urgency := by
  rw [← not_lt, ← isMoreUrgent_iff, Bool.not_eq_true]

/-- By what delayed tasks are ordered: the earlier ready instant goes first, then the smaller number. -/
def maturity (t : Task β) : Instant ×ₗ Nat := toLex (t.readyAt, t.id)

theorem isDueBefore_iff : a.isDueBefore b = true ↔ a.maturity < b.maturity := by
  simp only [isDueBefore, maturity, Prod.Lex.toLex_lt_toLex, Bool.or_eq_true, Bool.and_eq_true,
    decide_eq_true_eq]

theorem not_isDueBefore_iff : a.isDueBefore b = false ↔ b.maturity ≤ a.maturity := by
  rw [← not_lt, ← isDueBefore_iff, Bool.not_eq_true]

theorem isReady_iff : t.isReady now = true ↔ t.readyAt ≤ now := decide_eq_true_iff

theorem not_isReady_iff : t.isReady now = false ↔ now < t.readyAt := by
  rw [← Bool.not_eq_true, isReady_iff, Int.not_le]

theorem not_isReady_eq (now : Instant) (t : Task β) : (!t.isReady now) = decide (now < t.readyAt) := by
  simp only [isReady, ← decide_not, Int.not_le]

theorem id_eq_of_urgency_eq (h : a.urgency = b.urgency) : a.id = b.id :=
  congrArg (fun key => (ofLex (ofLex key).2).2) h

/-- Whether what was found among some tasks is the next one at an instant, or nothing because none is
ready. -/
def IsNext (now : Instant) (ts : List (Task β)) : Option (Task β) → Prop
  | some t => t ∈ ts ∧ t.isReady now = true ∧
      ∀ u ∈ ts, u.isReady now = true → u.isMoreUrgent t = false
  | none => ∀ t ∈ ts, t.isReady now = false

theorem IsNext.perm {found : Option (Task β)} (h : IsNext now ts found) (hperm : ts.Perm us) :
    IsNext now us found := by
  cases found with
  | none => exact fun t ht => h t (hperm.mem_iff.2 ht)
  | some t => exact ⟨hperm.mem_iff.1 h.1, h.2.1, fun u hu => h.2.2 u (hperm.mem_iff.2 hu)⟩

/-- The next task is determined by the tasks and the instant. -/
theorem IsNext.unique {found found' : Option (Task β)} (hdistinct : (ts.map id).Nodup)
    (h : IsNext now ts found) (h' : IsNext now ts found') : found = found' := by
  cases found with
  | none =>
      cases found' with
      | none => rfl
      | some u => exact absurd h'.2.1 (by simp [h u h'.1])
  | some t =>
      cases found' with
      | none => exact absurd h.2.1 (by simp [h' t h.1])
      | some u =>
          have hle := not_isMoreUrgent_iff.1 (h.2.2 u h'.1 h'.2.1)
          have hge := not_isMoreUrgent_iff.1 (h'.2.2 t h.1 h.2.1)
          have hid : t.id = u.id := id_eq_of_urgency_eq (le_antisymm hle hge)
          rw [List.inj_on_of_nodup_map hdistinct h.1 h'.1 hid]

/-! ## The first task -/

/-- Whether what was found among some tasks is the first of them in the order of urgency, or nothing
because there are none. -/
def IsFirst (ts : List (Task β)) : Option (Task β) → Prop
  | some t => t ∈ ts ∧ ∀ u ∈ ts, t.urgency ≤ u.urgency
  | none => ts = []

theorem IsFirst.perm {found : Option (Task β)} (h : IsFirst ts found) (hperm : ts.Perm us) :
    IsFirst us found := by
  cases found with
  | none => exact List.nil_perm.1 (h ▸ hperm)
  | some t => exact ⟨hperm.mem_iff.1 h.1, fun u hu => h.2 u (hperm.mem_iff.2 hu)⟩

/-- The first of the tasks that are ready is the next one. -/
theorem IsFirst.isNext {found : Option (Task β)} (h : IsFirst (ts.filter (·.isReady now)) found) :
    IsNext now ts found := by
  cases found with
  | none =>
      intro t ht
      simpa using List.filter_eq_nil_iff.1 h t ht
  | some t =>
      obtain ⟨ht, hbefore⟩ := h
      obtain ⟨hmem, hready⟩ := List.mem_filter.1 ht
      refine ⟨hmem, hready, fun u hu hnow => ?_⟩
      exact not_isMoreUrgent_iff.2 (hbefore u (List.mem_filter.2 ⟨hu, hnow⟩))

theorem IsFirst.eq_none_iff {found : Option (Task β)} (h : IsFirst ts found) :
    found = none ↔ ts = [] := by
  cases found with
  | none => exact iff_of_true rfl h
  | some t => exact iff_of_false nofun (List.ne_nil_of_mem h.1)

/-- The first of some tasks in order is the first one of all. -/
theorem isFirst_head? (h : Ordered isMoreUrgent ts) : IsFirst ts ts.head? := by
  cases ts with
  | nil => rfl
  | cons t rest =>
      refine ⟨List.mem_cons_self, fun u hu => ?_⟩
      rcases List.mem_cons.1 hu with rfl | hu
      · exact le_refl _
      · exact not_isMoreUrgent_iff.1 ((List.pairwise_cons.1 h).1 u hu)

/-- Different tasks with different numbers are never equally urgent. -/
theorem IsFirst.lt (h : IsFirst ts (some t)) (hdistinct : (ts.map id).Nodup) (ha : a ∈ ts)
    (hne : a ≠ t) : t.urgency < a.urgency := by
  apply lt_of_le_of_ne (h.2 a ha)
  intro heq
  exact hne (List.inj_on_of_nodup_map hdistinct ha h.1 (id_eq_of_urgency_eq heq.symm))

/-- Among tasks with different numbers, the first one is the one that is more urgent than all others. -/
theorem IsFirst.eq_some_iff {found : Option (Task β)} (h : IsFirst ts found)
    (hdistinct : (ts.map id).Nodup) :
    found = some t ↔ t ∈ ts ∧ ∀ u ∈ ts, u ≠ t → t.urgency < u.urgency := by
  constructor
  · rintro rfl
    exact ⟨h.1, fun u hu hne => h.lt hdistinct hu hne⟩
  · rintro ⟨ht, hbefore⟩
    cases found with
    | none => exact absurd ht (by simp [show ts = [] from h])
    | some a =>
        by_contra hne
        have hlt := hbefore a h.1 fun heq => hne (congrArg some heq)
        exact absurd (h.2 t ht) (not_le.2 hlt)

/-- In a list in order whose tasks have different numbers, each task goes before all behind it. -/
theorem pairwise_urgency_lt (h : Ordered isMoreUrgent ts) (hdistinct : (ts.map id).Nodup) :
    ts.Pairwise (·.urgency < ·.urgency) := by
  have hids := List.pairwise_map.1 hdistinct
  refine (h.and hids).imp fun ⟨hordered, hne⟩ => ?_
  apply lt_of_le_of_ne (not_isMoreUrgent_iff.1 hordered)
  intro heq
  exact hne (id_eq_of_urgency_eq heq)

end Dispatch.Task
