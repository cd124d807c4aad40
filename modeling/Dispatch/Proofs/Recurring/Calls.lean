import Dispatch.Proofs.Recurring.Grid
/-!
# Histories of recurring tasks

Whoever has recurring tasks registers and cancels them, and sweeps them into some pool, in any order. A
history lists these calls, the latest one first. An entry is found by the identifier that was handed out at
its registration, as it was registered, and as the calls on it have left it since then.
-/

namespace Dispatch

variable {α : Type}

namespace Recurring

/-- One call on the recurring tasks. Each sweep comes with the pool that it submits to, in whatever state
that pool is by then. -/
inductive Call (α : Type) where
  | schedule (now : Instant) (interval : Duration) (s : Submission α)
  | cancel (id : Identifier)
  | sweep (p : Pool α) (now : Instant)
  | clear

/-- Whether cancelled entries are gone after a call. -/
def Call.removes : Call α → Bool
  | .sweep _ _ | .clear => true
  | .schedule _ _ _ | .cancel _ => false

/-- The recurring tasks after a call. -/
def make (r : Recurring α) : Call α → Recurring α
  | .schedule now interval s => (r.schedule now interval s).1
  | .cancel id => (r.cancel id).1
  | .sweep p now => (r.sweep p now).1
  | .clear => r.clear

/-- The recurring tasks that a history of calls leaves behind. -/
def after : List (Call α) → Recurring α
  | [] => {}
  | c :: earlier => (after earlier).make c

/-- The identifier that a call hands out. -/
def handsOut? (r : Recurring α) : Call α → Option Identifier
  | .schedule now interval s => (r.schedule now interval s).2.toOption
  | _ => none

/-- The identifiers that were handed out, the latest first. -/
def issued : List (Call α) → List Identifier
  | [] => []
  | c :: earlier => ((after earlier).handsOut? c).toList ++ issued earlier

/-- The entries that are not cancelled. -/
def live (r : Recurring α) : List (RecurringEntry α) := r.entries.filter (!·.cancelled)

/-- The entries that a sweep submits. -/
def due (r : Recurring α) (now : Instant) : List (RecurringEntry α) := r.live.filter (·.isDue now)

variable {r : Recurring α} {id : Identifier} {now : Instant} {history : List (Call α)}
  {entry : RecurringEntry α}

theorem mem_live : entry ∈ r.live ↔ entry ∈ r.entries ∧ entry.cancelled = false := by
  simp [live]

theorem mem_due : entry ∈ r.due now ↔
    entry ∈ r.entries ∧ entry.cancelled = false ∧ entry.nextExecution ≤ now := by
  simp [due, mem_live, RecurringEntry.isDue, and_assoc]

/-! ## One call -/

/-- Whether an entry comes of a registration. -/
structure Registers (r : Recurring α) (now : Instant) (interval : Duration)
    (entry : RecurringEntry α) : Prop where
  pos : 0 < interval
  id_eq : entry.id = .numbered r.made
  interval_eq : entry.interval = interval
  nextExecution_eq : entry.nextExecution = now.after interval
  cancelled_eq : entry.cancelled = false

/-- A registration changes nothing, or adds one entry and hands out its identifier. -/
theorem schedule_cases (r : Recurring α) (now : Instant) (interval : Duration) (s : Submission α) :
    r.schedule now interval s = (r, .error intervalFault) ∨
      ∃ entry, r.Registers now interval entry ∧ r.schedule now interval s =
        ({ entries := r.entries ++ [entry], made := r.made + 1 }, .ok entry.id) := by
  by_cases hzero : interval = 0
  · exact .inl (if_pos hzero)
  · exact .inr ⟨_, ⟨Nat.pos_of_ne_zero hzero, rfl, rfl, rfl, rfl⟩, if_neg hzero⟩

theorem cancel_entries (r : Recurring α) (id : Identifier) : (r.cancel id).1.entries =
    r.entries.map fun e => if e.id = id then { e with cancelled := true } else e := rfl

theorem sweep_entries (r : Recurring α) (p : Pool α) (now : Instant) :
    (r.sweep p now).1.entries = r.live.map (·.swept now p.clock) := rfl

theorem map_id_cancel (r : Recurring α) (id : Identifier) :
    (r.cancel id).1.entries.map (·.id) = r.entries.map (·.id) := by
  rw [cancel_entries, List.map_map]
  refine List.map_congr_left fun e _ => ?_
  simp only [Function.comp_apply]
  split <;> rfl

theorem map_id_sweep (r : Recurring α) (p : Pool α) (now : Instant) :
    (r.sweep p now).1.entries.map (·.id) = r.live.map (·.id) := by
  rw [sweep_entries, List.map_map]
  exact List.map_congr_left fun e _ => e.swept_id now p.clock

/-! ## What is found -/

theorem find?_schedule {s : Submission α} {interval : Duration}
    (h : (r.schedule now interval s).2.toOption ≠ some id) :
    (r.schedule now interval s).1.find? id = r.find? id := by
  rcases schedule_cases r now interval s with heq | ⟨entry, -, heq⟩
  · rw [heq]
  · have hid : entry.id ≠ id := by simpa [heq, Except.toOption] using h
    rw [heq, find?, List.find?_append, find?]
    simp [hid]

theorem find?_cancel (r : Recurring α) (id id' : Identifier) : (r.cancel id').1.find? id =
    (r.find? id).map fun e => if e.id = id' then { e with cancelled := true } else e := by
  have hid : ∀ e : RecurringEntry α,
      (if e.id = id' then { e with cancelled := true } else e).id = e.id := by
    intro e
    split <;> rfl
  rw [find?, cancel_entries, List.find?_map]
  simp only [Function.comp_def, hid]
  rfl

theorem find?_eq_some_iff (hdistinct : (r.entries.map (·.id)).Nodup) :
    r.find? id = some entry ↔ entry ∈ r.entries ∧ entry.id = id := by
  constructor
  · intro h
    exact ⟨List.mem_of_find?_eq_some h, by simpa using List.find?_some h⟩
  · rintro ⟨hentry, rfl⟩
    exact find?_eq_some hdistinct hentry

/-- What is not cancelled is found as before, and what is cancelled is not found any more. -/
theorem find?_live (hdistinct : (r.entries.map (·.id)).Nodup) (id : Identifier) :
    r.live.find? (·.id = id) = (r.find? id).filter (!·.cancelled) := by
  have hlive : (r.live.map (·.id)).Nodup := hdistinct.sublist (List.filter_sublist.map _)
  refine Option.ext fun e => ?_
  have hfound : r.live.find? (·.id = id) = some e ↔ e ∈ r.live ∧ e.id = id :=
    find?_eq_some_iff (r := { r with entries := r.live }) hlive
  rw [hfound, Option.filter_eq_some_iff, find?_eq_some_iff hdistinct, mem_live]
  simp [and_right_comm]

theorem find?_sweep (hdistinct : (r.entries.map (·.id)).Nodup) (p : Pool α) (now : Instant)
    (id : Identifier) : (r.sweep p now).1.find? id =
      ((r.find? id).filter (!·.cancelled)).map (·.swept now p.clock) := by
  rw [find?, sweep_entries, List.find?_map, ← find?_live hdistinct]
  simp only [Function.comp_def, RecurringEntry.swept_id]

/-! ## Identifiers -/

/-- The entries have been handed out their identifiers in this order. -/
theorem map_id_sublist (history : List (Call α)) :
    ((after history).entries.map (·.id)).Sublist (issued history).reverse := by
  induction history with
  | nil => exact List.Sublist.refl _
  | cons c earlier ih =>
      cases c with
      | schedule now interval s =>
          rcases schedule_cases (after earlier) now interval s with heq | ⟨entry, -, heq⟩
          · simpa [after, make, issued, handsOut?, heq, Except.toOption] using ih
          · have hone := ih.append_right [entry.id]
            simpa [after, make, issued, handsOut?, heq, Except.toOption] using hone
      | cancel id =>
          rw [after, make, map_id_cancel]
          exact ih
      | sweep p now =>
          rw [after, make, map_id_sweep]
          exact (List.filter_sublist.map _).trans ih
      | clear => exact List.nil_sublist _

theorem nodup_map_id (h : (issued history).Nodup) :
    ((after history).entries.map (·.id)).Nodup :=
  (List.nodup_reverse.2 h).sublist (map_id_sublist history)

theorem mem_issued (h : (after history).find? id = some entry) : id ∈ issued history := by
  have hid : entry.id = id := by simpa using List.find?_some h
  have hmem := List.mem_map_of_mem (f := (·.id)) (List.mem_of_find?_eq_some h)
  rw [hid] at hmem
  exact List.mem_reverse.1 ((map_id_sublist history).subset hmem)

theorem issued_suffix (later history : List (Call α)) :
    issued history <:+ issued (later ++ history) := by
  induction later with
  | nil => exact List.suffix_refl _
  | cons c later ih => exact ih.trans (List.suffix_append _ _)

/-- An identifier that was handed out is not handed out again. -/
theorem handsOut?_ne {c : Call α} (hdistinct : (issued (c :: history)).Nodup)
    (h : id ∈ issued history) : (after history).handsOut? c ≠ some id := by
  intro hagain
  rw [issued, hagain] at hdistinct
  exact (List.nodup_cons.1 hdistinct).1 h

end Recurring

end Dispatch
