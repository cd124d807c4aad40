import Dispatch.Proofs.Selector.Streaks
import Dispatch.Proofs.Sum
/-!
# Recommendations are spaced out

A call makes a streak longer by one at the most, and a recommendation ends both streaks. So a streak is
never longer than the number of calls since the latest recommendation, and the next one does not come
before as many calls as there have to be windows in a row. This bounds the streaks as well, so that
counters of 32 bits are wide enough for them.
-/

namespace Dispatch

namespace Selector

variable {config : AdaptiveConfig} {start : Instant} {history : List Call} {kind : StrategyKind}

/-! ## Counters of 32 bits -/

/-- The largest streak that a counter can hold. -/
def streakLimit : Nat := 1 <<< 32 - 1

/-- A streak that goes on, unless its counter is full, or is broken. -/
def extend? (goesOn : Bool) (streak : Nat) : Option Nat :=
  if goesOn then
    if streak < streakLimit then some (streak + 1) else none
  else some 0

/-- `evaluate` with a counter that fails instead of growing too large. -/
def evaluate? (sel : Selector) (current : StrategyKind) (s : StrategySample) :
    Option (Selector × Option StrategyKind) :=
  let sel := sel.remember s
  match current with
  | .locked => do
    let streak ← extend? (isHot sel.config s) sel.hotStreak
    if sel.config.consecutiveWindows ≤ streak then
      some ({ sel with hotStreak := 0, quietStreak := 0 }, some .sharded)
    else some ({ sel with hotStreak := streak }, none)
  | .sharded => do
    let streak ← extend? (isQuiet sel.config s) sel.quietStreak
    if sel.config.consecutiveWindows ≤ streak then
      some ({ sel with hotStreak := 0, quietStreak := 0 }, some .locked)
    else some ({ sel with quietStreak := streak }, none)

/-- The selector that a history of calls leaves behind, if no counter fails. -/
def after? (config : AdaptiveConfig) (start : Instant) : List Call → Option Selector
  | [] => some { config := config, windowStarted := start }
  | call :: earlier => do
    let sel ← after? config start earlier
    let (sel, _) ← sel.evaluate? call.current call.sample
    some sel

theorem extend?_of_lt {streak : Nat} (h : streak < streakLimit) (goesOn : Bool) :
    extend? goesOn streak = some (extend goesOn streak) := by
  cases goesOn <;> simp [extend?, extend, h]

theorem evaluate?_of_lt {sel : Selector} {current : StrategyKind}
    (h : sel.streak current < streakLimit) (s : StrategySample) :
    sel.evaluate? current s = some (sel.evaluate current s) := by
  cases current with
  | locked =>
      have hstreak : (sel.remember s).hotStreak < streakLimit := h
      simp only [evaluate?, evaluate, extend?_of_lt hstreak, Option.bind_eq_bind, Option.bind_some]
      split <;> rfl
  | sharded =>
      have hstreak : (sel.remember s).quietStreak < streakLimit := h
      simp only [evaluate?, evaluate, extend?_of_lt hstreak, Option.bind_eq_bind, Option.bind_some]
      split <;> rfl

/-! ## One call -/

theorem streakNext_le (sel : Selector) (current : StrategyKind) (s : StrategySample) :
    sel.streakNext current s ≤ sel.streak current + 1 := by
  unfold streakNext extend
  split <;> omega

/-- Whatever becomes of the streaks, the history is that with the sample remembered. -/
theorem history_evaluate (sel : Selector) (current : StrategyKind) (s : StrategySample) :
    (sel.evaluate current s).1.history = (sel.history ++ [s]).rtake (max sel.config.historyLen 1) := by
  unfold evaluate
  cases current <;> simp only <;> split <;> rfl

@[simp] theorem windowStarted_evaluate (sel : Selector) (current : StrategyKind) (s : StrategySample) :
    (sel.evaluate current s).1.windowStarted = sel.windowStarted := by
  unfold evaluate
  cases current <;> simp only <;> split <;> rfl

/-! ## Histories -/

/-- The numbers of the calls of a history that got a recommendation, the latest first. The first call has
the number one. -/
def recommendedAt (config : AdaptiveConfig) (start : Instant) : List Call → List Nat
  | [] => []
  | call :: earlier =>
    if (answer config start (call :: earlier)).isSome then
      (earlier.length + 1) :: recommendedAt config start earlier
    else recommendedAt config start earlier

/-- No streak is longer than the number of calls since a recommendation, or since the start. -/
theorem streak_add_le (history : List Call) (kind : StrategyKind) :
    ∀ n ∈ recommendedAt config start history ++ [0],
      (after config start history).streak kind + n ≤ history.length := by
  induction history generalizing kind with
  | nil => cases kind <;> simp [recommendedAt, after, streak]
  | cons call earlier ih =>
      intro n hn
      rw [List.length_cons]
      rcases Nat.lt_or_ge ((after config start earlier).streakNext call.current call.sample)
        (after config start earlier).config.consecutiveWindows with hlt | hle
      · -- nothing is recommended, and one streak at the most goes on
        obtain ⟨hanswer, hmine, hother⟩ := evaluate_of_lt hlt
        rw [recommendedAt, if_neg (by simp [answer, hanswer])] at hn
        have hstep := streakNext_le (after config start earlier) call.current call.sample
        have hbefore := ih kind n hn
        rcases StrategyKind.eq_or_eq_other call.current kind with rfl | rfl
        · rw [after, hmine]
          omega
        · rw [after, hother]
          omega
      · obtain ⟨hanswer, hzero⟩ := evaluate_of_le hle
        rw [recommendedAt, if_pos (by simp [answer, hanswer]), List.cons_append, List.mem_cons] at hn
        rw [after, hzero]
        rcases hn with rfl | hn
        · omega
        · have hbefore := ih kind n hn
          omega

/-- A recommendation takes as many calls since the one before, or since the start, as there have to be
windows in a row. -/
theorem add_le_of_answer {call : Call} {earlier : List Call} {n : Nat}
    (h : (answer config start (call :: earlier)).isSome)
    (hn : n ∈ recommendedAt config start earlier ++ [0]) :
    n + config.consecutiveWindows ≤ earlier.length + 1 := by
  obtain ⟨target, htarget⟩ := Option.isSome_iff_exists.1 h
  have hlong := (le_of_evaluate htarget).2
  have hstep := streakNext_le (after config start earlier) call.current call.sample
  have hbefore : (after config start earlier).streak call.current + n ≤ earlier.length :=
    streak_add_le earlier call.current n hn
  rw [config_after] at hlong
  omega

theorem pairwise_recommendedAt (history : List Call) :
    (recommendedAt config start history ++ [0]).Pairwise fun later earlier =>
      earlier + config.consecutiveWindows ≤ later := by
  induction history with
  | nil => simp [recommendedAt]
  | cons call earlier ih =>
      unfold recommendedAt
      split
      · rename_i hanswer
        exact List.Pairwise.cons (fun n hn => add_le_of_answer hanswer hn) ih
      · exact ih

/-- A streak is over before it is as long as there have to be windows in a row. -/
theorem streak_lt (hpos : 0 < config.consecutiveWindows) (history : List Call) (kind : StrategyKind) :
    (after config start history).streak kind < config.consecutiveWindows := by
  induction history generalizing kind with
  | nil => cases kind <;> exact hpos
  | cons call earlier ih =>
      rcases Nat.lt_or_ge ((after config start earlier).streakNext call.current call.sample)
        (after config start earlier).config.consecutiveWindows with hlt | hle
      · obtain ⟨-, hmine, hother⟩ := evaluate_of_lt hlt
        rcases StrategyKind.eq_or_eq_other call.current kind with rfl | rfl
        · rw [after, hmine]
          exact hlt.trans_eq (congrArg _ (config_after earlier))
        · rw [after, hother]
          exact ih _
      · rw [after, (evaluate_of_le hle).2]
        exact hpos

theorem after?_eq (hpos : 0 < config.consecutiveWindows)
    (hlimit : config.consecutiveWindows ≤ streakLimit) (history : List Call) :
    after? config start history = some (after config start history) := by
  induction history with
  | nil => rfl
  | cons call earlier ih =>
      have hstreak : (after config start earlier).streak call.current < streakLimit :=
        Nat.lt_of_lt_of_le (streak_lt hpos earlier _) hlimit
      simp [after?, after, ih, evaluate?_of_lt hstreak]

theorem history_after (history : List Call) : (after config start history).history =
    (history.reverse.map (·.sample)).rtake (max config.historyLen 1) := by
  induction history with
  | nil => simp [after]
  | cons call earlier ih =>
      rw [after, history_evaluate, config_after, ih, rtake_concat_rtake]
      simp

/-! ## Spacing -/

/-- Whether a selector that is asked as in a history keeps its recommendations apart, and no more of the
past than it needs. -/
structure NeverFlaps (config : AdaptiveConfig) (start : Instant) (history : List Call) : Prop where
  /-- Two recommendations are as many calls apart as there have to be windows in a row. -/
  apart : (recommendedAt config start history).Pairwise fun later earlier =>
    earlier + config.consecutiveWindows ≤ later
  /-- The first one takes as many calls. -/
  first_le : ∀ n ∈ recommendedAt config start history, config.consecutiveWindows ≤ n
  /-- What is recommended is another strategy than the one in use. -/
  changes : ∀ call ∈ history.head?, ∀ target ∈ answer config start history, target ≠ call.current
  hotStreak_lt : (after config start history).hotStreak < config.consecutiveWindows
  quietStreak_lt : (after config start history).quietStreak < config.consecutiveWindows
  /-- Counters of 32 bits never fail. -/
  counted : config.consecutiveWindows ≤ streakLimit →
    after? config start history = some (after config start history)
  /-- The newest samples are remembered, in the order of the calls. -/
  history_eq : (after config start history).history =
    (history.reverse.map (·.sample)).rtake (max config.historyLen 1)

/-- Whatever a selector is asked, its recommendations cannot flap. -/
theorem after_neverFlaps (config : AdaptiveConfig) (start : Instant) (history : List Call)
    (hpos : 0 < config.consecutiveWindows) : NeverFlaps config start history := by
  have hspaced : (recommendedAt config start history ++ [0]).Pairwise fun later earlier =>
      earlier + config.consecutiveWindows ≤ later := pairwise_recommendedAt history
  obtain ⟨hapart, -, hfirst⟩ := List.pairwise_append.1 hspaced
  constructor
  · exact hapart
  · intro n hn
    have hle := hfirst n hn 0 (List.mem_singleton_self 0)
    omega
  · intro call hcall target htarget
    cases history with
    | nil => contradiction
    | cons latest earlier =>
        obtain rfl : latest = call := Option.some.inj hcall
        obtain ⟨rfl, -⟩ := le_of_evaluate htarget
        exact StrategyKind.other_ne _
  · exact streak_lt hpos history .locked
  · exact streak_lt hpos history .sharded
  · exact fun hlimit => after?_eq hpos hlimit history
  · exact history_after history

/-- Two recommendations, and one window more. -/
def onceMore : List Call := busyCall .locked 30000 :: thereAndBack

theorem onceMore_neverFlaps : 0 < twoWindows.consecutiveWindows ∧
    recommendedAt twoWindows 0 onceMore = [4, 2] ∧ (after twoWindows 0 onceMore).hotStreak = 1 ∧
    NeverFlaps twoWindows 0 onceMore :=
  ⟨by decide, by decide, by decide, after_neverFlaps twoWindows 0 onceMore (by decide)⟩

end Selector

end Dispatch
