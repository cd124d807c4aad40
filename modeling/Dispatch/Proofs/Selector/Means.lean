import Dispatch.Proofs.Selector.Streaks
/-!
# The mean wait of a window

The wait that a sample shows is the mean of its window, rounded down, as long as a counter of 32 bits can
hold the number of waits. A window is then judged by the mean: however many waits it has, it is quiet only
if they are short, or if throughput is low. Of more waits no mean is taken. Such a window shows no wait at
all, and is judged quiet however long its waits were.
-/

namespace Dispatch

namespace StrategySample

variable {w : ContentionWindow} {elapsed : Duration} {strategy : StrategyKind} {now : Instant}

theorem avgWait_of_lt (h : w.contended < meanBound) :
    (ofWindow w elapsed strategy now).avgWait = w.wait / w.contended := if_pos h

theorem avgWait_of_le (h : meanBound ≤ w.contended) :
    (ofWindow w elapsed strategy now).avgWait = 0 := if_neg (Nat.not_lt.2 h)

theorem avgWait_eq_zero_iff : (ofWindow w elapsed strategy now).avgWait = 0 ↔
    w.contended = 0 ∨ w.wait < w.contended ∨ meanBound ≤ w.contended := by
  rcases Nat.lt_or_ge w.contended meanBound with hlt | hle
  · rw [avgWait_of_lt hlt, Nat.div_eq_zero_iff]
    simp [Nat.not_le.2 hlt]
  · rw [avgWait_of_le hle]
    exact iff_of_true rfl (.inr (.inr hle))

/-- A mean is at most a mark just if the waits are shorter in all than the mark and a nanosecond for each. -/
theorem avgWait_le_iff (hpos : 0 < w.contended) (hlt : w.contended < meanBound) (mark : Duration) :
    (ofWindow w elapsed strategy now).avgWait ≤ mark ↔ w.wait < (mark + 1) * w.contended := by
  rw [avgWait_of_lt hlt, ← Nat.div_lt_iff_lt_mul hpos]
  exact Nat.lt_succ_iff.symm

theorem le_avgWait_iff (hpos : 0 < w.contended) (hlt : w.contended < meanBound) (mark : Duration) :
    mark ≤ (ofWindow w elapsed strategy now).avgWait ↔ mark * w.contended ≤ w.wait := by
  rw [avgWait_of_lt hlt, Nat.le_div_iff_mul_le hpos]

end StrategySample

namespace Selector

open StrategySample

variable {w : ContentionWindow} {elapsed : Duration} {strategy : StrategyKind} {now : Instant}
  {c : AdaptiveConfig} {sel : Selector} {s : StrategySample}

theorem isQuiet_iff : isQuiet c s = true ↔
    s.avgWait ≤ c.lowWaterWaitNs ∨ s.throughput < minThroughput c := by
  simp [isQuiet]

theorem isHot_iff : isHot c s = true ↔
    c.highWaterWaitNs ≤ s.avgWait ∧ minThroughput c ≤ s.throughput := by
  simp [isHot]

/-- A window that is not quiet ends the quiet windows in a row. -/
theorem evaluate_of_not_isQuiet (hpos : 0 < sel.config.consecutiveWindows)
    (h : isQuiet sel.config s = false) :
    (sel.evaluate .sharded s).2 = none ∧ (sel.evaluate .sharded s).1.quietStreak = 0 := by
  have hnext : sel.streakNext .sharded s = 0 := by simp [streakNext, isAgainst, h, extend]
  obtain ⟨hanswer, hstreak, -⟩ := evaluate_of_lt (hnext ▸ hpos)
  exact ⟨hanswer, hstreak.trans hnext⟩

/-- Whether a sample shows the mean wait of a window, and a selector judges the window by it, unless there
are too many waits for a mean. -/
structure JudgesByMean (w : ContentionWindow) (s : StrategySample) : Prop where
  /-- The mean is rounded down. -/
  mean : 0 < w.contended → w.contended < meanBound →
    s.avgWait * w.contended ≤ w.wait ∧ w.wait < (s.avgWait + 1) * w.contended
  eq_zero_iff : s.avgWait = 0 ↔ w.contended = 0 ∨ w.wait < w.contended ∨ meanBound ≤ w.contended
  quiet_iff : 0 < w.contended → w.contended < meanBound → ∀ c, isQuiet c s = true ↔
    w.wait < (c.lowWaterWaitNs + 1) * w.contended ∨ s.throughput < minThroughput c
  hot_iff : 0 < w.contended → w.contended < meanBound → ∀ c, isHot c s = true ↔
    c.highWaterWaitNs * w.contended ≤ w.wait ∧ minThroughput c ≤ s.throughput
  /-- Long waits and enough throughput end the quiet windows in a row, however many waits there are. -/
  evaluate_of_long : 0 < w.contended → w.contended < meanBound → ∀ sel : Selector,
    (sel.config.lowWaterWaitNs + 1) * w.contended ≤ w.wait →
    ¬s.throughput < minThroughput sel.config → 0 < sel.config.consecutiveWindows →
    (sel.evaluate .sharded s).2 = none ∧ (sel.evaluate .sharded s).1.quietStreak = 0
  /-- Too many waits count as none. -/
  quiet_of_le : meanBound ≤ w.contended → ∀ c, isQuiet c s = true

/-- The sample of a window shows the mean wait, rounded down, of up to `2 ^ 32 - 1` waits. -/
theorem ofWindow_judgesByMean (w : ContentionWindow) (elapsed : Duration) (strategy : StrategyKind)
    (now : Instant) : JudgesByMean w (ofWindow w elapsed strategy now) := by
  constructor
  · intro hpos hlt
    exact ⟨(le_avgWait_iff hpos hlt _).1 le_rfl, (avgWait_le_iff hpos hlt _).1 le_rfl⟩
  · exact avgWait_eq_zero_iff
  · intro hpos hlt c
    rw [isQuiet_iff, avgWait_le_iff hpos hlt]
  · intro hpos hlt c
    rw [isHot_iff, le_avgWait_iff hpos hlt]
  · intro hpos hlt sel hlong hthroughput hwindows
    apply evaluate_of_not_isQuiet hwindows
    rw [← Bool.not_eq_true, isQuiet_iff, avgWait_le_iff hpos hlt]
    exact not_or.2 ⟨Nat.not_lt.2 hlong, hthroughput⟩
  · intro hle c
    rw [isQuiet_iff, avgWait_of_le hle]
    exact .inl (Nat.zero_le _)

/-- An hour with much throughput and so many waits, of 25 microseconds each. -/
def crowdedWindow (contended : Nat) : ContentionWindow where
  operations := 5000000000
  contended := contended
  wait := 25 * Duration.micro * contended

def crowdedSample (contended : Nat) : StrategySample :=
  ofWindow (crowdedWindow contended) (3600 * Duration.second) .sharded 0

/-- Of `2 ^ 32` waits of 25 microseconds each a sample shows none, and the window is judged quiet. With one
wait fewer the sample shows them, and the window is judged hot. -/
theorem crowdedWindow_unseen :
    (crowdedWindow 4294967296).wait / (crowdedWindow 4294967296).contended = 25 * Duration.micro ∧
      (crowdedSample 4294967296).avgWait = 0 ∧ isQuiet {} (crowdedSample 4294967296) = true ∧
      (crowdedSample 4294967295).avgWait = 25 * Duration.micro ∧
      isQuiet {} (crowdedSample 4294967295) = false ∧ isHot {} (crowdedSample 4294967295) = true :=
  ⟨by decide, by decide, by decide, by decide, by decide, by decide⟩

end Selector

end Dispatch
