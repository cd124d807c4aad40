import Dispatch.Proofs.Pool.Rest
import Dispatch.Proofs.Recurring.Calls
import Dispatch.Proofs.Sum
import Dispatch.Pool.Start
import Mathlib.Order.Bounds.Basic
/-!
# The books of recurring tasks

A cancelled entry stays in the books until the next sweep, but no sweep submits it any more. A sweep
notes each of the entries that are due as fired before it submits them, so an entry has fired even if its
submission is refused, be it that the pool is shut down, that its circuit is open or that its queue got
full in the midst of the sweep.
-/

namespace Dispatch

variable {α : Type}

namespace Recurring

variable {r : Recurring α} {id : Identifier} {now t : Instant}
  {history earlier later : List (Call α)} {entry : RecurringEntry α}

/-! ## Cancelled entries -/

/-- Whether a call is a cancellation of an entry, and is granted. -/
def grants (r : Recurring α) (id : Identifier) : Call α → Bool
  | .cancel id' => id' = id && (r.cancel id').2
  | _ => false

/-- How many cancellations of an entry were granted. -/
def granted (id : Identifier) : List (Call α) → Nat
  | [] => 0
  | c :: earlier => ((after earlier).grants id c).toNat + granted id earlier

/-- A cancellation is granted for an entry that is there, and not cancelled yet. -/
theorem cancel_snd_iff : (r.cancel id).2 = true ↔
    ∃ entry, r.find? id = some entry ∧ entry.cancelled = false := by
  simp [cancel, Option.any_eq_true]

/-- Where a cancellation was granted, the history can be split at one. -/
theorem exists_cancel_of_granted (h : granted id history ≠ 0) :
    ∃ later earlier, history = later ++ .cancel id :: earlier ∧
      ((after earlier).cancel id).2 = true := by
  induction history with
  | nil => contradiction
  | cons c earlier ih =>
      by_cases hbefore : granted id earlier = 0
      · have hgrants : (after earlier).grants id c = true := by
          by_contra hnot
          simp [granted, hbefore, hnot] at h
        cases c with
        | cancel id' =>
            obtain ⟨rfl, hgranted⟩ : id' = id ∧ ((after earlier).cancel id').2 = true := by
              simpa [grants] using hgrants
            exact ⟨[], earlier, rfl, hgranted⟩
        | schedule _ _ _ | sweep _ _ | clear => contradiction
      · obtain ⟨later, before, rfl, hgranted⟩ := ih hbefore
        exact ⟨c :: later, before, rfl, hgranted⟩

/-- A cancelled entry is found as it was when it was cancelled, until it is removed. -/
theorem find?_of_cancel (hdistinct : (issued (later ++ .cancel id :: earlier)).Nodup)
    (hfound : (after earlier).find? id = some entry) :
    (after (later ++ .cancel id :: earlier)).find? id =
      if later.any Call.removes then none else some { entry with cancelled := true } := by
  have hid : entry.id = id := by simpa using List.find?_some hfound
  induction later with
  | nil =>
      rw [List.nil_append, after, make, find?_cancel, hfound, Option.map_some, if_pos hid]
      rfl
  | cons c later ih =>
      rw [List.cons_append] at hdistinct
      have hrest : (issued (later ++ .cancel id :: earlier)).Nodup :=
        List.Nodup.of_append_right hdistinct
      have hissued : id ∈ issued (later ++ .cancel id :: earlier) :=
        (issued_suffix later _).subset (List.mem_append_right _ (mem_issued hfound))
      rw [List.any_cons]
      show ((after (later ++ .cancel id :: earlier)).make c).find? id = _
      cases c with
      | schedule now interval s =>
          rw [make, find?_schedule (handsOut?_ne hdistinct hissued), ih hrest]
          rfl
      | cancel id' =>
          rw [make, find?_cancel, ih hrest]
          cases later.any Call.removes
          · simp [Call.removes]
          · rfl
      | sweep p now =>
          rw [make, find?_sweep (nodup_map_id hrest), ih hrest]
          cases later.any Call.removes <;> rfl
      | clear => rfl

/-- Whether an entry is in the books as it was when its cancellation was granted, until it is removed, and
is not submitted any more. -/
structure Withdrawn (id : Identifier) (earlier later : List (Call α)) : Prop where
  /-- The entry stays as it was, but for being cancelled, until a sweep removes it or all are cleared. -/
  found : ∃ entry, (after earlier).find? id = some entry ∧ entry.cancelled = false ∧
    (after (later ++ .cancel id :: earlier)).find? id =
      if later.any Call.removes then none else some { entry with cancelled := true }
  not_due : ∀ now, ∀ e ∈ (after (later ++ .cancel id :: earlier)).due now, e.id ≠ id

theorem withdrawn (hdistinct : (issued (later ++ .cancel id :: earlier)).Nodup)
    (hgranted : ((after earlier).cancel id).2 = true) : Withdrawn id earlier later := by
  obtain ⟨entry, hfound, hcancelled⟩ := cancel_snd_iff.1 hgranted
  have hlater := find?_of_cancel hdistinct hfound
  refine ⟨⟨entry, hfound, hcancelled, hlater⟩, fun now e he hid => ?_⟩
  obtain ⟨hmem, hnot, -⟩ := mem_due.1 he
  have hsame := find?_eq_some (nodup_map_id hdistinct) hmem
  rw [hid, hlater] at hsame
  split at hsame
  · contradiction
  · rw [← Option.some.inj hsame] at hnot
    contradiction

/-- No cancellation of a withdrawn entry is granted. -/
theorem Withdrawn.grants_eq_false (h : Withdrawn id earlier later) (c : Call α) :
    (after (later ++ .cancel id :: earlier)).grants id c = false := by
  obtain ⟨entry, -, -, hlater⟩ := h.found
  cases c with
  | cancel id' =>
      refine Bool.and_eq_false_imp.2 fun hid => ?_
      rw [of_decide_eq_true hid, cancel, hlater]
      cases later.any Call.removes <;> rfl
  | schedule _ _ _ | sweep _ _ | clear => rfl

theorem granted_le_one (hdistinct : (issued history).Nodup) (id : Identifier) :
    granted id history ≤ 1 := by
  induction history with
  | nil => exact Nat.zero_le 1
  | cons c earlier ih =>
      have hrest : (issued earlier).Nodup := List.Nodup.of_append_right hdistinct
      by_cases hbefore : granted id earlier = 0
      · rw [granted, hbefore]
        exact Bool.toNat_le _
      · obtain ⟨later, before, rfl, hgranted⟩ := exists_cancel_of_granted hbefore
        rw [granted, (withdrawn hrest hgranted).grants_eq_false c]
        simpa using ih hrest

/-! ## A sweep -/

/-- An entry that was due has fired once more. -/
theorem sumOf_fired_swept (entries : List (RecurringEntry α)) (now clock : Instant) :
    sumOf (·.fired) (entries.map (·.swept now clock)) =
      sumOf (·.fired) entries + (entries.filter (·.isDue now)).length := by
  induction entries with
  | nil => rfl
  | cons entry rest ih =>
      rw [List.map_cons, sumOf, sumOf, ih, entry.swept_fired, List.filter_cons]
      split
      · rw [List.length_cons]
        omega
      · omega

/-- Whether a sweep submits what is due and keeps the books on it. -/
structure SweepsDue (r : Recurring α) (p : Pool α) (now : Instant) : Prop where
  /-- Each entry that is due and not cancelled is submitted once, and nothing else is; the answer is the
  number of the submissions that were accepted. -/
  attempted : ∃ attempts, Attempted p (r.due now) attempts (r.sweep p now).2.1 (r.sweep p now).2.2
  /-- The cancelled entries are gone. The others have fired once more if they were due, whether their
  submissions were accepted or not. -/
  fireCount_eq : ∀ id, (r.sweep p now).1.fireCount id =
    ((r.find? id).filter (!·.cancelled)).map fun e => e.fired + if e.isDue now then 1 else 0
  /-- The entries have fired as often as tasks were admitted or refused. -/
  counted : sumOf (·.fired) (r.sweep p now).1.entries + p.metrics.submitted + p.metrics.rejected =
    sumOf (·.fired) r.live + (r.sweep p now).2.1.metrics.submitted +
      (r.sweep p now).2.1.metrics.rejected

theorem sweepsDue (hdistinct : (r.entries.map (·.id)).Nodup) (p : Pool α) (now : Instant) :
    r.SweepsDue p now := by
  obtain ⟨attempts, hattempted⟩ := exists_submitAll_attempted p (r.due now)
  refine ⟨⟨attempts, hattempted⟩, fun id => ?_, ?_⟩
  · rw [fireCount, find?_sweep hdistinct, Option.map_map]
    exact congrArg (Option.map · _) (funext fun e => e.swept_fired now p.clock)
  · have hsubmitted := hattempted.submitted_eq
    have hrejected := hattempted.rejected_eq
    rw [sweep_entries, sumOf_fired_swept]
    change _ + (r.due now).length + _ + _ =
      _ + (submitAll p (r.due now)).1.metrics.submitted +
        (submitAll p (r.due now)).1.metrics.rejected
    omega

/-! ## The next sweep -/

/-- The instants at which entries are due that are not cancelled. -/
def dueAt (r : Recurring α) : Set Instant :=
  {t | ∃ entry ∈ r.entries, entry.cancelled = false ∧ entry.nextExecution = t}

theorem mem_dueAt : t ∈ r.dueAt ↔ t ∈ r.live.map RecurringEntry.nextExecution := by
  simp [dueAt, mem_live, and_assoc]

theorem nextDue_cases (r : Recurring α) :
    (r.nextDue = none ∧ r.dueAt = ∅) ∨ ∃ m, r.nextDue = some m ∧ IsLeast r.dueAt m := by
  have hnext : r.nextDue = (r.live.map RecurringEntry.nextExecution).foldl
    (fun due t => Instant.earliest? due (some t)) none := rfl
  rw [hnext]
  rcases Pool.foldl_earliest?_cases (r.live.map RecurringEntry.nextExecution) with
    ⟨hnil, hnone⟩ | ⟨m, hm, hmem, hle⟩
  · refine .inl ⟨hnone, Set.eq_empty_of_forall_notMem fun t ht => ?_⟩
    rw [mem_dueAt, hnil] at ht
    contradiction
  · exact .inr ⟨m, hm, mem_dueAt.2 hmem, fun t ht => hle t (mem_dueAt.1 ht)⟩

theorem nextDue_eq_none_iff : r.nextDue = none ↔ r.dueAt = ∅ := by
  rcases nextDue_cases r with ⟨hnone, hempty⟩ | ⟨m, hm, hleast⟩
  · exact iff_of_true hnone hempty
  · exact iff_of_false (by simp [hm]) hleast.nonempty.ne_empty

theorem nextDue_eq_some_iff : r.nextDue = some t ↔ IsLeast r.dueAt t := by
  rcases nextDue_cases r with ⟨hnone, hempty⟩ | ⟨m, hm, hleast⟩
  · refine iff_of_false (by simp [hnone]) fun h => h.nonempty.ne_empty hempty
  · rw [hm, Option.some.injEq]
    exact ⟨fun heq => heq ▸ hleast, hleast.unique⟩

/-! ## Any history -/

/-- Whether the recurring tasks that a history leaves behind are in order. -/
structure KeepsBooks (history : List (Call α)) : Prop where
  /-- Of the cancellations of an entry one is granted at most. -/
  granted_le_one : ∀ id, granted id history ≤ 1
  withdrawn : ∀ id earlier later, history = later ++ .cancel id :: earlier →
    ((after earlier).cancel id).2 = true → Withdrawn id earlier later
  sweepsDue : ∀ p now, (after history).SweepsDue p now
  nextDue_eq_some_iff : ∀ t, (after history).nextDue = some t ↔ IsLeast (after history).dueAt t
  nextDue_eq_none_iff : (after history).nextDue = none ↔ (after history).dueAt = ∅

/-- However recurring tasks are registered, cancelled, swept and cleared, as long as all of them have
identifiers of their own: a cancellation is granted once and final, and each sweep submits the entries that
are due once each, and counts them as fired, whatever becomes of their submissions. -/
theorem history_keepsBooks (history : List (Call α)) (hdistinct : (issued history).Nodup) :
    KeepsBooks history where
  granted_le_one := granted_le_one hdistinct
  withdrawn := by
    rintro id earlier later rfl hgranted
    exact withdrawn hdistinct hgranted
  sweepsDue := sweepsDue (nodup_map_id hdistinct)
  nextDue_eq_some_iff _ := nextDue_eq_some_iff
  nextDue_eq_none_iff := nextDue_eq_none_iff

/-- A pool whose queue has room for one task. -/
def tightPool : Pool Nat := Pool.ofWorkers { maxQueueCapacity := 1 } 1 1 0 ⟨0, []⟩

def pulse : Submission Nat := ⟨"pulse", .normal, none, ⟨[], .value 1⟩⟩

/-- Two entries that are due together, and are swept into the tight pool. -/
def crampedSweep : List (Call Nat) := [.sweep tightPool 5, .schedule 0 5 pulse, .schedule 0 5 pulse]

/-- After that, one of them is cancelled twice before the next sweep. -/
def crampedHistory : List (Call Nat) :=
  .sweep tightPool 10 :: .cancel (.numbered 0) :: .cancel (.numbered 0) :: crampedSweep

/-- The second submission is refused in the midst of the sweep, and both entries have fired. -/
theorem crampedHistory_keepsBooks : (issued crampedHistory).Nodup ∧
    ((after crampedSweep.tail).sweep tightPool 5).2.2 = 1 ∧
    (after crampedSweep).entries.map (·.fired) = [1, 1] ∧
    granted (.numbered 0) crampedHistory = 1 ∧
    (after crampedHistory).entries.map (·.id) = [.numbered 1] ∧ KeepsBooks crampedHistory := by
  have hdistinct : (issued crampedHistory).Nodup := by decide
  exact ⟨hdistinct, by decide, by decide, by decide, by decide,
    history_keepsBooks crampedHistory hdistinct⟩

end Recurring

end Dispatch
