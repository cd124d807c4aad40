import Dispatch.Proofs.Recurring.Bookkeeping
import Mathlib.Data.Int.Order.Basic
import Mathlib.Order.Bounds.Basic
/-!
# How far behind its grid an entry can get

A sweep moves an entry that was due on to the first instant of its grid that is still to come. It counts
the meshes on the way there, and this count is capped at `skipLimit`. An entry that has missed as many
meshes lags behind: the sweep leaves it at an instant that has passed already, and the next sweep submits
it again.
-/

namespace Dispatch

variable {α : Type}

/-- The first instant of the time line. -/
def Instant.first : Instant := -Int.ofNat (1 <<< 63 * Duration.second)

/-- The longest duration leads from one end of the time line to the other. -/
theorem Instant.first_add_longest : first + Duration.longest = latest := by decide

theorem Instant.le_of_add? {t u : Instant} {d : Duration} (h : t.add? d = some u) : t ≤ u := by
  unfold add? at h
  split at h
  · rw [← Option.some.inj h]
    exact Int.le_add_of_nonneg_right (Int.natCast_nonneg d)
  · contradiction

namespace RecurringEntry

variable {scheduled now clock t : Instant} {interval : Duration} {e : RecurringEntry α}

/-- Whether an instant is the first one of a grid that is still to come. -/
def IsNextMesh (scheduled : Instant) (interval : Duration) (now t : Instant) : Prop :=
  IsLeast {u : Instant | now < u ∧ ∃ k : Nat, 1 ≤ k ∧ u = scheduled + k * interval} t

/-- The number of whole meshes of a grid that have passed. -/
def missed (scheduled : Instant) (interval : Duration) (now : Instant) : Nat :=
  now.since scheduled / interval

/-- Whether an entry has missed so many meshes that it is not moved on past `now`. -/
def lags (now : Instant) (e : RecurringEntry α) : Bool :=
  skipLimit ≤ missed e.nextExecution e.interval now

/-! ## The grid -/

theorem mesh_le (scheduled : Instant) (interval : Duration) {m n : Nat} (h : m ≤ n) :
    scheduled + m * interval ≤ scheduled + n * interval :=
  Int.add_le_add_left (by exact_mod_cast Nat.mul_le_mul_right interval h) _

/-- The present instant lies between the last mesh that has passed and the next one. -/
theorem missed_bounds (hle : scheduled ≤ now) (hpos : 0 < interval) :
    scheduled + missed scheduled interval now * interval ≤ now ∧
      now < scheduled + (missed scheduled interval now + 1 : Nat) * interval := by
  have hsince := Instant.cast_since hle
  have hbelow : missed scheduled interval now * interval ≤ now.since scheduled :=
    Nat.div_mul_le_self _ _
  have habove : now.since scheduled < (missed scheduled interval now + 1) * interval := by
    rw [Nat.mul_comm]
    exact Nat.lt_mul_div_succ _ hpos
  zify at hbelow habove
  rw [hsince] at hbelow habove
  push_cast
  constructor <;> linarith

theorem isNextMesh_iff (hle : scheduled ≤ now) (hpos : 0 < interval) :
    IsNextMesh scheduled interval now t ↔
      t = scheduled + (missed scheduled interval now + 1 : Nat) * interval := by
  obtain ⟨hbelow, habove⟩ := missed_bounds hle hpos
  have hleast : IsNextMesh scheduled interval now
      (scheduled + (missed scheduled interval now + 1 : Nat) * interval) := by
    refine ⟨⟨habove, _, Nat.le_add_left 1 _, rfl⟩, ?_⟩
    rintro u ⟨hlater, k, -, rfl⟩
    -- a mesh that is still to come is none of those that were missed
    have hk : missed scheduled interval now < k := by
      by_contra hnot
      have hpassed := Int.le_trans (mesh_le scheduled interval (Nat.le_of_not_lt hnot)) hbelow
      exact absurd hlater (Int.not_lt.2 hpassed)
    exact mesh_le scheduled interval hk
  exact ⟨fun h => h.unique hleast, fun heq => heq ▸ hleast⟩

/-! ## Moving on -/

/-- The way between two instants that can be held can be held. -/
theorem advance?_eq {steps : Nat} (hfirst : Instant.first ≤ scheduled)
    (hlatest : scheduled + steps * interval ≤ Instant.latest) :
    advance? scheduled interval steps = some (scheduled + steps * interval) := by
  have hline := Instant.first_add_longest
  have hlongest : interval * steps ≤ Duration.longest := by
    zify
    linarith
  have hcast : ((interval * steps : Nat) : Int) = steps * interval := by
    push_cast
    ring
  rw [advance?, if_pos hlongest, Instant.add?, hcast, if_pos hlatest]

/-- As long as the next mesh can be held, an entry is moved on along its grid by the meshes that it has
missed and one more, but by `skipLimit` meshes at most. -/
theorem nextAfter_eq_min (hfirst : Instant.first ≤ scheduled) (hpos : 0 < interval)
    (hlatest : scheduled + (missed scheduled interval now + 1 : Nat) * interval ≤ Instant.latest)
    (clock : Instant) : nextAfter scheduled interval now clock =
      scheduled + (min (missed scheduled interval now + 1) skipLimit : Nat) * interval := by
  have hsteps : now.since scheduled / max interval 1 = missed scheduled interval now := by
    rw [Nat.max_eq_left hpos, missed]
  have hcapped := mesh_le scheduled interval
    (Nat.min_le_left (missed scheduled interval now + 1) skipLimit)
  refine nextAfter_of_advance? ?_
  rw [hsteps]
  exact advance?_eq hfirst (Int.le_trans hcapped hlatest)

/-- Whether an entry is moved on past `now`, unless it has missed too many meshes. -/
structure MovesOn (scheduled : Instant) (interval : Duration) (now next t : Instant) : Prop where
  next_eq : next =
    if missed scheduled interval now < skipLimit then t else scheduled + skipLimit * interval
  lt_iff : now < next ↔ missed scheduled interval now < skipLimit

theorem movesOn_nextAfter (hfirst : Instant.first ≤ scheduled) (hle : scheduled ≤ now)
    (hpos : 0 < interval) (hnext : IsNextMesh scheduled interval now t)
    (hlatest : t ≤ Instant.latest) (clock : Instant) :
    MovesOn scheduled interval now (nextAfter scheduled interval now clock) t := by
  obtain ⟨hbelow, habove⟩ := missed_bounds hle hpos
  obtain rfl := (isNextMesh_iff hle hpos).1 hnext
  rw [nextAfter_eq_min hfirst hpos hlatest clock]
  by_cases hlt : missed scheduled interval now < skipLimit
  · rw [Nat.min_eq_left hlt]
    exact ⟨(if_pos hlt).symm, iff_of_true habove hlt⟩
  · -- the last mesh that can be reached has passed
    have hpassed := Int.le_trans (mesh_le scheduled interval (Nat.le_of_not_lt hlt)) hbelow
    rw [Nat.min_eq_right (by omega)]
    exact ⟨(if_neg hlt).symm, iff_of_false (Int.not_lt.2 hpassed) hlt⟩

/-- No entry is moved to an instant before the beginning of the time line. -/
theorem first_le_nextAfter (hscheduled : Instant.first ≤ scheduled) (hnow : Instant.first ≤ now)
    (hclock : Instant.first ≤ clock) (hpos : 0 < interval) :
    Instant.first ≤ nextAfter scheduled interval now clock := by
  unfold nextAfter
  simp only
  split
  · rename_i u hu
    unfold advance? at hu
    split at hu
    · exact Int.le_trans hscheduled (Instant.le_of_add? hu)
    · contradiction
  · split
    · exact Int.le_trans hnow (Instant.le_of_add? ‹_›)
    · exact Int.le_trans hclock (Int.le_of_lt (Instant.lt_after clock hpos))

/-- Whether an entry has an interval of some length, and is due at an instant that can be held. -/
structure Held (e : RecurringEntry α) : Prop where
  pos : 0 < e.interval
  first_le : Instant.first ≤ e.nextExecution

theorem Held.swept (h : e.Held) (hnow : Instant.first ≤ now) (hclock : Instant.first ≤ clock) :
    (e.swept now clock).Held := by
  cases hdue : e.isDue now with
  | false =>
      rw [swept_of_not_isDue hdue]
      exact h
  | true =>
      rw [swept_of_isDue hdue]
      exact ⟨h.pos, first_le_nextAfter h.first_le hnow hclock h.pos⟩

end RecurringEntry

namespace Recurring

open RecurringEntry (IsNextMesh missed skipLimit MovesOn)

variable {r : Recurring α} {p : Pool α} {now : Instant} {history : List (Call α)}

/-- The instants that a call reads off a clock or is given. -/
def Call.instants : Call α → List Instant
  | .schedule now _ _ => [now]
  | .sweep p now => [now, p.clock]
  | .cancel _ | .clear => []

/-- Whether all instants of a history can be held. -/
def Held (history : List (Call α)) : Prop :=
  ∀ c ∈ history, ∀ t ∈ c.instants, Instant.first ≤ t

instance (history : List (Call α)) : Decidable (Held history) :=
  inferInstanceAs (Decidable (∀ c ∈ history, ∀ t ∈ c.instants, Instant.first ≤ t))

theorem held_of_mem_after (h : Held history) {e : RecurringEntry α}
    (he : e ∈ (after history).entries) : e.Held := by
  induction history generalizing e with
  | nil => contradiction
  | cons c earlier ih =>
      have hc : ∀ t ∈ c.instants, Instant.first ≤ t := h c List.mem_cons_self
      have hbefore : ∀ {e}, e ∈ (after earlier).entries → e.Held :=
        ih fun c' hc' => h c' (List.mem_cons_of_mem c hc')
      cases c with
      | schedule now interval s =>
          rcases schedule_cases (after earlier) now interval s with heq | ⟨entry, hnew, heq⟩
          · rw [after, make, heq] at he
            exact hbefore he
          · rw [after, make, heq] at he
            rcases List.mem_append.1 he with hold | hlast
            · exact hbefore hold
            · obtain rfl := List.mem_singleton.1 hlast
              have hafter := Int.le_of_lt (Instant.lt_after now hnew.pos)
              exact ⟨hnew.interval_eq ▸ hnew.pos,
                hnew.nextExecution_eq ▸ Int.le_trans (hc now List.mem_cons_self) hafter⟩
      | cancel id =>
          rw [after, make, cancel_entries] at he
          obtain ⟨before, hmem, rfl⟩ := List.mem_map.1 he
          split
          · exact ⟨(hbefore hmem).pos, (hbefore hmem).first_le⟩
          · exact hbefore hmem
      | sweep p now =>
          rw [after, make, sweep_entries] at he
          obtain ⟨before, hmem, rfl⟩ := List.mem_map.1 he
          exact (hbefore (mem_live.1 hmem).1).swept (hc now List.mem_cons_self)
            (hc p.clock (List.mem_cons_of_mem _ List.mem_cons_self))
      | clear => contradiction

/-! ## The next sweep at the same instant -/

/-- A sweep leaves no cancelled entry behind. -/
theorem live_sweep (r : Recurring α) (p : Pool α) (now : Instant) :
    (r.sweep p now).1.live = (r.sweep p now).1.entries := by
  refine List.filter_eq_self.2 fun e he => ?_
  rw [sweep_entries] at he
  obtain ⟨before, hbefore, rfl⟩ := List.mem_map.1 he
  simp [before.swept_cancelled, (mem_live.1 hbefore).2]

/-- Where nothing is due, a sweep only removes the cancelled entries. -/
theorem sweep_of_due_eq_nil (h : r.due now = []) (p : Pool α) :
    r.sweep p now = ({ r with entries := r.live }, p, 0) := by
  have hentries : r.live.map (·.swept now p.clock) = r.live := by
    refine (List.map_congr_left fun e he => ?_).trans (List.map_id _)
    exact RecurringEntry.swept_of_not_isDue (by simpa using List.filter_eq_nil_iff.1 h e he)
  have hsweep : r.sweep p now =
      ({ r with entries := r.live.map (·.swept now p.clock) }, submitAll p (r.due now)) := rfl
  rw [hsweep, hentries, h, submitAll]

/-- Whether the instant that an entry is to be moved on to can be held. -/
def HasNext (now : Instant) (e : RecurringEntry α) : Prop :=
  ∃ t ≤ Instant.latest, IsNextMesh e.nextExecution e.interval now t

theorem isDue_swept {e : RecurringEntry α} {clock : Instant} (hheld : e.Held) (hnext : HasNext now e)
    (hdue : e.isDue now = true) : (e.swept now clock).isDue now = e.lags now := by
  obtain ⟨t, hlatest, hmesh⟩ := hnext
  have hmoves := RecurringEntry.movesOn_nextAfter hheld.first_le (of_decide_eq_true hdue) hheld.pos
    hmesh hlatest clock
  rw [RecurringEntry.swept_of_isDue hdue, RecurringEntry.isDue, RecurringEntry.lags,
    decide_eq_decide, ← Int.not_lt, ← Nat.not_lt]
  exact not_congr hmoves.lt_iff

/-- Whether a sweep moves all entries on past its instant that have not missed too many meshes. -/
structure CatchesUp (r : Recurring α) (p : Pool α) (now : Instant) : Prop where
  movesOn : ∀ e ∈ r.due now, ∀ t, IsNextMesh e.nextExecution e.interval now t →
    MovesOn e.nextExecution e.interval now (e.swept now p.clock).nextExecution t
  /-- A second sweep at the same instant submits just those that have missed too many. -/
  due_eq : (r.sweep p now).1.due now =
    ((r.due now).filter (·.lags now)).map (·.swept now p.clock)
  lt_iff : (∀ e ∈ (r.sweep p now).1.entries, now < e.nextExecution) ↔
    ∀ e ∈ r.due now, e.lags now = false
  /-- If there are none, a second sweep does nothing at all. -/
  sweep_eq : (∀ e ∈ r.due now, e.lags now = false) →
    ∀ q, (r.sweep p now).1.sweep q now = ((r.sweep p now).1, q, 0)

theorem catchesUp (hheld : ∀ e ∈ r.due now, e.Held) (hnext : ∀ e ∈ r.due now, HasNext now e)
    (p : Pool α) : r.CatchesUp p now := by
  have hdue : (r.sweep p now).1.due now =
      ((r.due now).filter (·.lags now)).map (·.swept now p.clock) := by
    rw [due, live_sweep, sweep_entries, List.filter_map, due, List.filter_filter]
    refine congrArg (List.map _) (List.filter_congr fun e he => ?_)
    simp only [Function.comp_apply]
    cases hisDue : e.isDue now with
    | false => rw [RecurringEntry.swept_of_not_isDue hisDue, hisDue, Bool.and_false]
    | true =>
        have hmem : e ∈ r.due now := List.mem_filter.2 ⟨he, hisDue⟩
        rw [isDue_swept (hheld e hmem) (hnext e hmem) hisDue, Bool.and_true]
  have hnil : (r.sweep p now).1.due now = [] ↔ ∀ e ∈ r.due now, e.lags now = false := by
    rw [hdue, List.map_eq_nil_iff, List.filter_eq_nil_iff]
    simp
  refine ⟨fun e he t ht => ?_, hdue, ?_, fun hprompt q => ?_⟩
  · obtain ⟨t', hlatest, hmesh⟩ := hnext e he
    obtain rfl := ht.unique hmesh
    have hisDue : e.isDue now = true := (List.mem_filter.1 he).2
    rw [RecurringEntry.swept_of_isDue hisDue]
    exact RecurringEntry.movesOn_nextAfter (hheld e he).first_le (of_decide_eq_true hisDue)
      (hheld e he).pos hmesh hlatest p.clock
  · rw [← hnil, due, live_sweep, List.filter_eq_nil_iff]
    simp [RecurringEntry.isDue]
  · rw [sweep_of_due_eq_nil (hnil.2 hprompt), live_sweep]

/-- A sweep moves an entry that was due on to the first instant of its grid that is still to come, unless
the entry has missed `skipLimit` meshes: then it is due again in a second sweep at the same instant. -/
theorem history_catchesUp :
    (∀ (scheduled now clock t : Instant) (interval : Duration), Instant.first ≤ scheduled →
      scheduled ≤ now → 0 < interval → IsNextMesh scheduled interval now t → t ≤ Instant.latest →
      MovesOn scheduled interval now (RecurringEntry.nextAfter scheduled interval now clock) t) ∧
    ∀ (history : List (Call α)) (p : Pool α) (now : Instant), Held history →
      (∀ e ∈ (after history).due now, HasNext now e) → (after history).CatchesUp p now := by
  refine ⟨fun scheduled now clock t interval hfirst hle hpos hnext hlatest => ?_,
    fun history p now hheld hnext => ?_⟩
  · exact RecurringEntry.movesOn_nextAfter hfirst hle hpos hnext hlatest clock
  · exact catchesUp (fun e he => held_of_mem_after hheld (mem_due.1 he).1) hnext p

/-- An entry with an interval of one nanosecond, from the registration on. -/
def rapidHistory : List (Call Nat) := [.schedule 0 1 pulse]

/-- The latest instant at which a sweep catches up with it. -/
def lastPrompt : Instant := 4294967295

theorem hasNext_rapidHistory :
    ∀ e ∈ (after rapidHistory).due lastPrompt, HasNext lastPrompt e := by
  intro e he
  have hall : ∀ e ∈ (after rapidHistory).entries, e.interval = 1 ∧ e.nextExecution = 1 := by decide
  obtain ⟨hinterval, hnext⟩ := hall e (mem_due.1 he).1
  refine ⟨4294967296, by decide, ?_⟩
  rw [hinterval, hnext]
  exact (RecurringEntry.isNextMesh_iff (by decide) (by decide)).2 (by decide +kernel)

theorem rapidHistory_catchesUp : Held rapidHistory ∧
    (∀ e ∈ (after rapidHistory).due lastPrompt, HasNext lastPrompt e) ∧
    (after rapidHistory).CatchesUp tightPool lastPrompt ∧
    ((after rapidHistory).sweep tightPool lastPrompt).1.nextDue = some 4294967296 ∧
    IsNextMesh 1 1 35 36 ∧ MovesOn 1 1 35 (RecurringEntry.nextAfter 1 1 35 35) 36 := by
  have hheld : Held rapidHistory := by decide
  have hmesh : IsNextMesh 1 1 35 36 :=
    (RecurringEntry.isNextMesh_iff (by decide) (by decide)).2 (by decide +kernel)
  obtain ⟨hmoves, hcatches⟩ := @history_catchesUp Nat
  exact ⟨hheld, hasNext_rapidHistory, hcatches rapidHistory tightPool lastPrompt hheld
      hasNext_rapidHistory, by decide +kernel, hmesh,
    hmoves 1 35 35 36 1 (by decide) (by decide) (by decide) hmesh (by decide)⟩

/-- The same entry after a stall of five seconds and a sweep. -/
def stalledSweep : Recurring Nat := ((after rapidHistory).sweep tightPool 5000000000).1

/-- The sweep leaves the entry behind the first instant of its grid that is still to come, and a second
sweep at the same instant submits it again. -/
theorem stalledSweep_dueAgain : IsNextMesh 1 1 5000000000 5000000001 ∧
    (5000000001 : Instant) ≤ Instant.latest ∧
    RecurringEntry.nextAfter 1 1 5000000000 5000000000 = 4294967296 ∧
    stalledSweep.nextDue = some 4294967296 ∧
    (stalledSweep.sweep tightPool 5000000000).2.2 = 1 ∧
    (stalledSweep.sweep tightPool 5000000000).1.fireCount (.numbered 0) = some 2 := by
  have hmesh : IsNextMesh 1 1 5000000000 5000000001 :=
    (RecurringEntry.isNextMesh_iff (by decide) (by decide)).2 (by decide +kernel)
  exact ⟨hmesh, by decide, by decide +kernel, by decide +kernel, by decide +kernel,
    by decide +kernel⟩

end Recurring

end Dispatch
