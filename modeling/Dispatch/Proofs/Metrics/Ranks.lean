import Dispatch.Metrics
import Dispatch.Proofs.Sum
import Mathlib.Data.List.Sort
import Mathlib.Order.Bounds.Basic
/-!
# Statistics of the newest latencies

The latencies of completed tasks are remembered up to a capacity, the newest of them. A snapshot sorts
them: in sorted order, the samples that do not exceed a mark are those at the first places, so the rank of
a percentile is the place of the least sample that enough of them do not exceed. Nothing in a snapshot
depends on the order in which the latencies came in.
-/

namespace Dispatch

theorem Duration.micros_mono {d d' : Duration} (h : d ≤ d') : d.micros ≤ d'.micros :=
  Nat.le_min.2 ⟨(Nat.min_le_left _ _).trans (Nat.div_le_div_right h), Nat.min_le_right _ _⟩

namespace Metrics

variable {window sorted : List Duration} {d mark : Duration} {percent n : Nat}

/-! ## Sorted samples -/

theorem pairwise_mergeSort (window : List Duration) : window.mergeSort.Pairwise (· ≤ ·) := by
  have hle : window.mergeSort.Pairwise fun a b => decide (a ≤ b) = true :=
    List.pairwise_mergeSort (fun a b c => by simpa using Nat.le_trans)
      (fun a b => by simpa using Nat.le_total a b) window
  exact hle.imp of_decide_eq_true

/-- Samples that come in another order are the same when they are sorted. -/
theorem mergeSort_eq_of_perm {samples : List Duration} (h : samples.Perm window) :
    samples.mergeSort = window.mergeSort := by
  have hperm : samples.mergeSort.Perm window.mergeSort :=
    (List.mergeSort_perm samples _).trans (h.trans (List.mergeSort_perm window _).symm)
  exact hperm.eq_of_pairwise (fun a b _ _ => Nat.le_antisymm) (pairwise_mergeSort samples)
    (pairwise_mergeSort window)

theorem mergeSort_ne_nil (h : window ≠ []) : window.mergeSort ≠ [] := by
  intro hnil
  have hlength := congrArg List.length hnil
  rw [List.length_mergeSort] at hlength
  exact h (List.length_eq_zero_iff.1 hlength)

/-- In sorted order, the samples that do not exceed a mark are those at the first places. -/
theorem getElem_le_iff (hsorted : sorted.Pairwise (· ≤ ·)) {place : Nat} (hplace : place < sorted.length) :
    sorted[place] ≤ mark ↔ place < sorted.countP (· ≤ mark) := by
  induction sorted generalizing place with
  | nil => simp at hplace
  | cons first rest ih =>
      obtain ⟨hfirst, hrest⟩ := List.pairwise_cons.1 hsorted
      by_cases hle : first ≤ mark
      · cases place with
        | zero => simp [hle]
        | succ place => simp [hle, ih hrest]
      · -- the first sample exceeds the mark, and so do all others
        have hexceeds : ∀ d ∈ rest, ¬d ≤ mark := fun d hd hd' => hle (Nat.le_trans (hfirst d hd) hd')
        have hnone : rest.countP (· ≤ mark) = 0 := by
          rw [List.countP_eq_zero]
          simpa using hexceeds
        cases place with
        | zero => simp [hle, hnone]
        | succ place =>
            have hrest := hexceeds _ (List.getElem_mem (Nat.lt_of_succ_lt_succ hplace))
            simp [hle, hnone, hrest]

/-! ## Ranks -/

/-- A rank is the place of a sample, counted from one. -/
theorem rank_bounds (percent : Nat) (hpos : 0 < n) : 0 < rank percent n ∧ rank percent n ≤ n := by
  unfold rank
  omega

theorem mul_le_rank (hpercent : percent ≤ 100) : percent * n ≤ 100 * rank percent n := by
  have hle : percent * n ≤ 100 * n := Nat.mul_le_mul_right n hpercent
  unfold rank
  omega

theorem rank_le {count : Nat} (hpos : 0 < count) (hcount : percent * n ≤ 100 * count) :
    rank percent n ≤ count := by
  unfold rank
  omega

/-- Whether a duration is the least of some samples that so many percent of them do not exceed. -/
def IsPercentile (percent : Nat) (samples : List Duration) (d : Duration) : Prop :=
  IsLeast {s | s ∈ samples ∧ percent * samples.length ≤ 100 * samples.countP (· ≤ s)} d

theorem IsPercentile.le {percent' : Nat} {d' : Duration} (h : IsPercentile percent window d)
    (h' : IsPercentile percent' window d') (hle : percent ≤ percent') : d ≤ d' :=
  h.2 ⟨h'.1.1, Nat.le_trans (Nat.mul_le_mul_right _ hle) h'.1.2⟩

theorem isPercentile_percentile (hsorted : sorted.Pairwise (· ≤ ·)) (hne : sorted ≠ [])
    (hpercent : percent ≤ 100) : IsPercentile percent sorted (percentile percent sorted) := by
  obtain ⟨hpos, hle⟩ := rank_bounds percent (List.length_pos_of_ne_nil hne)
  have hplace : rank percent sorted.length - 1 < sorted.length := by omega
  have heq : percentile percent sorted = sorted[rank percent sorted.length - 1] := by
    simp [percentile, hplace]
  constructor
  · rw [heq]
    have hcount := (getElem_le_iff hsorted hplace).1 le_rfl
    have hrank := mul_le_rank (n := sorted.length) hpercent
    exact ⟨List.getElem_mem hplace, by omega⟩
  · rintro s ⟨hs, hcount⟩
    have hsome : 0 < sorted.countP (· ≤ s) := List.countP_pos_iff.2 ⟨s, hs, by simp⟩
    have hrank := rank_le hsome hcount
    rw [heq, getElem_le_iff hsorted hplace]
    omega

theorem IsPercentile.perm {samples : List Duration} (h : samples.Perm window)
    (hd : IsPercentile percent samples d) : IsPercentile percent window d := by
  unfold IsPercentile at hd ⊢
  simpa only [h.mem_iff, h.length_eq, h.countP_eq] using hd

/-! ## Maximum and mean -/

theorem isGreatest_getLastD (hsorted : sorted.Pairwise (· ≤ ·)) (hne : sorted ≠ []) :
    IsGreatest {s | s ∈ sorted} (sorted.getLastD 0) := by
  have hlast : sorted.getLastD 0 = sorted.getLast hne := by
    rw [List.getLastD_eq_getLast?, List.getLast?_eq_some_getLast hne]
    rfl
  rw [hlast]
  refine ⟨List.getLast_mem hne, fun s hs => ?_⟩
  rw [← List.dropLast_append_getLast hne] at hs hsorted
  rcases List.mem_append.1 hs with hbefore | hsame
  · exact (List.pairwise_append.1 hsorted).2.2 s hbefore _ (List.mem_singleton_self _)
  · exact Nat.le_of_eq (List.mem_singleton.1 hsame)

/-- A mean is not larger than a bound of all samples. -/
theorem sumOf_div_length_le (h : ∀ s ∈ window, s ≤ d) : sumOf id window / window.length ≤ d :=
  Nat.div_le_of_le_mul (sumOf_le_length_mul h)

/-! ## Snapshots -/

/-- Whether a figure of a snapshot is a statistic of samples, in whole microseconds; it is zero if there
are none. -/
def Shows (window : List Duration) (IsStatistic : Duration → Prop) (figure : Nat) : Prop :=
  (window = [] → figure = 0) ∧ (window ≠ [] → ∃ d, IsStatistic d ∧ figure = d.micros)

/-- Whether the statistics in a snapshot are those of some samples. -/
structure Summarizes (window : List Duration) (s : MetricsSnapshot) : Prop where
  latencySamples_eq : s.latencySamples = window.length
  p50 : Shows window (IsPercentile 50 window) s.p50Micros
  p95 : Shows window (IsPercentile 95 window) s.p95Micros
  p99 : Shows window (IsPercentile 99 window) s.p99Micros
  mean : Shows window (· = sumOf id window / window.length) s.meanMicros
  max : Shows window (IsGreatest {d | d ∈ window}) s.maxMicros
  p50_le_p95 : s.p50Micros ≤ s.p95Micros
  p95_le_p99 : s.p95Micros ≤ s.p99Micros
  p99_le_max : s.p99Micros ≤ s.maxMicros
  mean_le_max : s.meanMicros ≤ s.maxMicros

theorem Shows.le {Is Is' : Duration → Prop} {figure figure' : Nat} (h : Shows window Is figure)
    (h' : Shows window Is' figure') (hle : ∀ d d', Is d → Is' d' → d ≤ d') : figure ≤ figure' := by
  by_cases hnil : window = []
  · rw [h.1 hnil]
    exact Nat.zero_le _
  · obtain ⟨d, hd, rfl⟩ := h.2 hnil
    obtain ⟨d', hd', rfl⟩ := h'.2 hnil
    exact Duration.micros_mono (hle d d' hd hd')

theorem shows_percentile (window : List Duration) (percent : Nat) (hpercent : percent ≤ 100) :
    Shows window (IsPercentile percent window) (percentile percent window.mergeSort).micros := by
  have hperm := List.mergeSort_perm window fun a b => decide (a ≤ b)
  constructor
  · rintro rfl
    simp [percentile, Duration.micros]
  · intro hne
    have hsorted := isPercentile_percentile (pairwise_mergeSort window) (mergeSort_ne_nil hne) hpercent
    exact ⟨_, hsorted.perm hperm, rfl⟩

theorem shows_max (window : List Duration) :
    Shows window (IsGreatest {d | d ∈ window}) (window.mergeSort.getLastD 0).micros := by
  constructor
  · rintro rfl
    simp [Duration.micros]
  · intro hne
    have hgreatest := isGreatest_getLastD (pairwise_mergeSort window) (mergeSort_ne_nil hne)
    simp only [List.mem_mergeSort] at hgreatest
    exact ⟨_, hgreatest, rfl⟩

theorem shows_mean (hlength : window.length < meanBound) :
    Shows window (· = sumOf id window / window.length) (mean window.mergeSort).micros := by
  have hmean : mean window.mergeSort = sumOf id window / window.length := by
    rw [mean, List.length_mergeSort, if_pos hlength, sumOf_perm (List.mergeSort_perm window _)]
  rw [hmean]
  constructor
  · rintro rfl
    rfl
  · exact fun _ => ⟨_, rfl, rfl⟩

/-- A snapshot is taken unless the latencies add up to too much, and summarizes them. -/
theorem exists_snapshot_eq {m : Metrics} (hlength : m.latencies.length < meanBound)
    (hsum : sumOf id m.latencies ≤ Duration.longest) (now : Instant) :
    ∃ s, m.snapshot now = .ok s ∧ Summarizes m.latencies s := by
  have hfits : ¬Duration.longest < sumOf id m.latencies.mergeSort := by
    rw [sumOf_perm (List.mergeSort_perm m.latencies _)]
    exact Nat.not_lt.2 hsum
  have hp50 := shows_percentile m.latencies 50 (by decide)
  have hp95 := shows_percentile m.latencies 95 (by decide)
  have hp99 := shows_percentile m.latencies 99 (by decide)
  have hmean := shows_mean hlength
  have hmax := shows_max m.latencies
  refine ⟨_, by rw [snapshot, if_neg hfits], ?_⟩
  exact
    { latencySamples_eq := List.length_mergeSort _
      p50 := hp50
      p95 := hp95
      p99 := hp99
      mean := hmean
      max := hmax
      p50_le_p95 := hp50.le hp95 fun d d' hd hd' => hd.le hd' (by decide)
      p95_le_p99 := hp95.le hp99 fun d d' hd hd' => hd.le hd' (by decide)
      p99_le_max := hp99.le hmax fun d d' hd hd' => hd'.2 hd.1.1
      mean_le_max := hmean.le hmax fun d d' hd hd' => hd ▸ sumOf_div_length_le hd'.2 }

/-- A snapshot does not depend on the order of the latencies. -/
theorem snapshot_eq_of_perm {m : Metrics} {samples : List Duration} (h : samples.Perm m.latencies)
    (now : Instant) : snapshot { m with latencies := samples } now = m.snapshot now := by
  unfold snapshot
  simp only [mergeSort_eq_of_perm h]

/-! ## What is recorded -/

/-- What is counted. -/
inductive Event where
  | submitted
  /-- A task has returned a value after so long a time. -/
  | completed (latency : Duration)
  | failed
  | cancelled
  | rejected

def Event.latency? : Event → Option Duration
  | completed latency => some latency
  | _ => none

def record (m : Metrics) : Event → Metrics
  | .submitted => m.recordSubmitted
  | .completed latency => m.recordCompleted latency
  | .failed => m.recordFailed
  | .cancelled => m.recordCancelled
  | .rejected => m.recordRejected

/-- The metrics after some events, given in order. -/
def recordAll (m : Metrics) (events : List Event) : Metrics := events.foldl record m

theorem latencies_recordAll {m : Metrics} {past : List Duration}
    (hpast : m.latencies = past.rtake m.capacity) (events : List Event) :
    (m.recordAll events).latencies = (past ++ events.filterMap Event.latency?).rtake m.capacity := by
  induction events generalizing m past with
  | nil => simpa [recordAll] using hpast
  | cons event rest ih =>
      rw [recordAll, List.foldl_cons]
      cases event with
      | completed latency =>
          have hnext : (m.recordCompleted latency).latencies =
              (past ++ [latency]).rtake m.capacity := by
            rw [← rtake_concat_rtake, ← hpast]
            rfl
          have hpast' : past ++ (Event.completed latency :: rest).filterMap Event.latency? =
              past ++ [latency] ++ rest.filterMap Event.latency? := by simp [Event.latency?]
          rw [hpast']
          exact ih (m := m.recordCompleted latency) hnext
      | submitted => exact ih (m := m.recordSubmitted) hpast
      | failed => exact ih (m := m.recordFailed) hpast
      | cancelled => exact ih (m := m.recordCancelled) hpast
      | rejected => exact ih (m := m.recordRejected) hpast

/-- Whether the snapshots of metrics report on the newest of some latencies. -/
structure ReportsOn (window : List Duration) (m : Metrics) : Prop where
  latencies_eq : m.latencies = window
  /-- A snapshot is taken, and summarizes the latencies, as long as their sum can be held. -/
  summarizes : sumOf id window ≤ Duration.longest → ∀ now,
    ∃ s, m.snapshot now = .ok s ∧ Summarizes window s
  /-- It is the same for latencies in another order. -/
  unordered : ∀ samples, samples.Perm window → ∀ now,
    snapshot { m with latencies := samples } now = m.snapshot now
  /-- Each rank is that of a sample, and is computed without passing the largest count. -/
  ranked : window ≠ [] → ∀ percent ≤ 100, percent * window.length ≤ Duration.countLimit ∧
    0 < rank percent window.length ∧ rank percent window.length ≤ window.length

/-- Whatever is recorded, snapshots report on the newest latencies, as many as there is room for. -/
theorem recordAll_reportsOn (started : Instant) (capacity : Nat) (events : List Event)
    (hcapacity : capacity < meanBound) :
    ReportsOn ((events.filterMap Event.latency?).rtake (max capacity 1))
      ((start started capacity).recordAll events) := by
  have hlatencies : ((start started capacity).recordAll events).latencies =
      (events.filterMap Event.latency?).rtake (max capacity 1) := by
    have hnone : (start started capacity).latencies = [].rtake (start started capacity).capacity :=
      (List.rtake_nil _).symm
    exact latencies_recordAll hnone events
  have hlength : ((events.filterMap Event.latency?).rtake (max capacity 1)).length < meanBound := by
    have hone : 1 < meanBound := by decide
    simp only [List.rtake, List.length_drop]
    omega
  constructor
  · exact hlatencies
  · intro hsum now
    rw [← hlatencies] at hlength hsum ⊢
    exact exists_snapshot_eq hlength hsum now
  · intro samples hperm now
    exact snapshot_eq_of_perm (hlatencies ▸ hperm) now
  · intro hne percent hpercent
    refine ⟨?_, rank_bounds percent (List.length_pos_of_ne_nil hne)⟩
    have hproduct := Nat.mul_le_mul hpercent (Nat.le_of_lt hlength)
    exact Nat.le_trans hproduct (by decide)

/-- Four tasks complete and one fails, while there is room for three latencies. -/
def mixedEvents : List Event :=
  [.submitted, .completed (.ofMillis 9), .failed, .completed (.ofMillis 2), .completed (.ofMillis 5),
    .completed (.ofMillis 4)]

theorem mixedEvents_reportsOn : 3 < meanBound ∧
    sumOf id [Duration.ofMillis 2, Duration.ofMillis 5, Duration.ofMillis 4] ≤ Duration.longest ∧
    ReportsOn [.ofMillis 2, .ofMillis 5, .ofMillis 4] ((start 0 3).recordAll mixedEvents) :=
  ⟨by decide, by decide, recordAll_reportsOn 0 3 mixedEvents (by decide)⟩

end Metrics

end Dispatch
