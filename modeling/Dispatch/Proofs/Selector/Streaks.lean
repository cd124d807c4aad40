import Dispatch.Adaptive
import Mathlib.Data.List.TakeWhile
/-!
# What a recommendation rests on

A selector counts the windows in a row that speak against each strategy. A window touches the count of the
strategy in use only, and nothing but a recommendation sets both counts back. So a recommendation rests on
the latest windows under the strategy in use, whatever came in between under the other one; they are the
latest windows of all if the strategy is exchanged on recommendation only.
-/

namespace Dispatch

/-- The strategy that is not this one. -/
def StrategyKind.other : StrategyKind → StrategyKind
  | locked => sharded
  | sharded => locked

theorem StrategyKind.eq_or_eq_other (kind kind' : StrategyKind) : kind' = kind ∨ kind' = kind.other := by
  cases kind <;> cases kind' <;> simp [other]

theorem StrategyKind.other_ne (kind : StrategyKind) : kind.other ≠ kind := by
  cases kind <;> simp [other]

namespace Selector

/-- What a selector is asked: the strategy in use, and the sample of a window. -/
structure Call where
  current : StrategyKind
  sample : StrategySample

/-- Whether a sample speaks against the strategy in use. -/
def isAgainst (c : AdaptiveConfig) : StrategyKind → StrategySample → Bool
  | .locked => isHot c
  | .sharded => isQuiet c

/-- Whether a call was made under a strategy, with a sample that speaks against it. -/
def Call.isAgainst (c : AdaptiveConfig) (kind : StrategyKind) (call : Call) : Bool :=
  call.current = kind && Selector.isAgainst c kind call.sample

/-- The windows in a row against a strategy, as they are counted. -/
def streak (sel : Selector) : StrategyKind → Nat
  | .locked => sel.hotStreak
  | .sharded => sel.quietStreak

/-- The selector that a history of calls leaves behind, which lists the latest call first. -/
def after (config : AdaptiveConfig) (start : Instant) : List Call → Selector
  | [] => { config := config, windowStarted := start }
  | call :: earlier => ((after config start earlier).evaluate call.current call.sample).1

/-- The answer to the latest call of a history. -/
def answer (config : AdaptiveConfig) (start : Instant) : List Call → Option StrategyKind
  | [] => none
  | call :: earlier => ((after config start earlier).evaluate call.current call.sample).2

/-- Whether the strategy in use was exchanged on recommendation only. -/
def Steady (config : AdaptiveConfig) (start : Instant) : List Call → Prop
  | [] => True
  | call :: earlier => Steady config start earlier ∧
    ∀ before ∈ earlier.head?, before.current ≠ call.current → answer config start earlier ≠ none

/-- Whether a history has so many calls, the latest of which all have a property. -/
def LatestAre (n : Nat) (p : Call → Bool) (history : List Call) : Prop :=
  n ≤ history.length ∧ ∀ call ∈ history.take n, p call = true

instance (n : Nat) (p : Call → Bool) (history : List Call) : Decidable (LatestAre n p history) :=
  inferInstanceAs (Decidable (_ ∧ _))

instance decidableSteady (config : AdaptiveConfig) (start : Instant) :
    (history : List Call) → Decidable (Steady config start history)
  | [] => .isTrue trivial
  | _ :: earlier =>
    have := decidableSteady config start earlier
    inferInstanceAs (Decidable (_ ∧ _))

variable {config : AdaptiveConfig} {start : Instant} {history : List Call} {kind : StrategyKind}

/-! ## One call -/

/-- The streak of the strategy in use, with one more window taken into account. -/
def streakNext (sel : Selector) (current : StrategyKind) (s : StrategySample) : Nat :=
  extend (isAgainst sel.config current s) (sel.streak current)

@[simp] theorem config_evaluate (sel : Selector) (current : StrategyKind) (s : StrategySample) :
    (sel.evaluate current s).1.config = sel.config := by
  unfold evaluate
  cases current <;> simp only <;> split <;> rfl

/-- A streak that is long enough ends both streaks. -/
theorem evaluate_of_le {sel : Selector} {current : StrategyKind} {s : StrategySample}
    (h : sel.config.consecutiveWindows ≤ sel.streakNext current s) :
    (sel.evaluate current s).2 = some current.other ∧
      ∀ kind, (sel.evaluate current s).1.streak kind = 0 := by
  cases current with
  | locked =>
      have heq : sel.evaluate .locked s =
          ({ sel.remember s with hotStreak := 0, quietStreak := 0 }, some .sharded) := if_pos h
      rw [heq]
      exact ⟨rfl, fun kind => by cases kind <;> rfl⟩
  | sharded =>
      have heq : sel.evaluate .sharded s =
          ({ sel.remember s with hotStreak := 0, quietStreak := 0 }, some .locked) := if_pos h
      rw [heq]
      exact ⟨rfl, fun kind => by cases kind <;> rfl⟩

/-- A streak that is too short is kept, and the other one is left alone. -/
theorem evaluate_of_lt {sel : Selector} {current : StrategyKind} {s : StrategySample}
    (h : sel.streakNext current s < sel.config.consecutiveWindows) :
    (sel.evaluate current s).2 = none ∧
      (sel.evaluate current s).1.streak current = sel.streakNext current s ∧
      (sel.evaluate current s).1.streak current.other = sel.streak current.other := by
  cases current with
  | locked =>
      have heq : sel.evaluate .locked s =
          ({ sel.remember s with hotStreak := sel.streakNext .locked s }, none) :=
        if_neg (Nat.not_le.2 h)
      rw [heq]
      exact ⟨rfl, rfl, rfl⟩
  | sharded =>
      have heq : sel.evaluate .sharded s =
          ({ sel.remember s with quietStreak := sel.streakNext .sharded s }, none) :=
        if_neg (Nat.not_le.2 h)
      rw [heq]
      exact ⟨rfl, rfl, rfl⟩

/-- What is recommended is the other strategy, on a streak that is long enough. -/
theorem le_of_evaluate {sel : Selector} {current target : StrategyKind} {s : StrategySample}
    (h : (sel.evaluate current s).2 = some target) :
    target = current.other ∧ sel.config.consecutiveWindows ≤ sel.streakNext current s := by
  rcases Nat.lt_or_ge (sel.streakNext current s) sel.config.consecutiveWindows with hlt | hle
  · rw [(evaluate_of_lt hlt).1] at h
    contradiction
  · exact ⟨Option.some.inj (h.symm.trans (evaluate_of_le hle).1), hle⟩

/-- A call leaves the streak of the strategy in use as it is with one more window, or none at all. -/
theorem streak_evaluate_le (sel : Selector) (current : StrategyKind) (s : StrategySample) :
    (sel.evaluate current s).1.streak current ≤ sel.streakNext current s := by
  rcases Nat.lt_or_ge (sel.streakNext current s) sel.config.consecutiveWindows with hlt | hle
  · exact Nat.le_of_eq (evaluate_of_lt hlt).2.1
  · rw [(evaluate_of_le hle).2]
    exact Nat.zero_le _

/-- A call never adds to the streak of the other strategy. -/
theorem streak_other_evaluate_le (sel : Selector) (current : StrategyKind) (s : StrategySample) :
    (sel.evaluate current s).1.streak current.other ≤ sel.streak current.other := by
  rcases Nat.lt_or_ge (sel.streakNext current s) sel.config.consecutiveWindows with hlt | hle
  · exact Nat.le_of_eq (evaluate_of_lt hlt).2.2
  · rw [(evaluate_of_le hle).2]
    exact Nat.zero_le _

/-- After a recommendation no streak is left. -/
theorem streak_of_answer (h : answer config start history ≠ none) :
    (after config start history).streak kind = 0 := by
  cases history with
  | nil => exact absurd rfl h
  | cons call earlier =>
      obtain ⟨target, htarget⟩ := Option.ne_none_iff_exists'.1 h
      exact (evaluate_of_le (le_of_evaluate htarget).2).2 kind

theorem config_after (history : List Call) : (after config start history).config = config := by
  induction history with
  | nil => rfl
  | cons call earlier ih => exact (config_evaluate _ _ _).trans ih

/-! ## Calls in a row -/

/-- How many of the latest calls in a row have a property. -/
def inRow (p : Call → Bool) (history : List Call) : Nat := (history.takeWhile p).length

theorem inRow_cons (p : Call → Bool) (call : Call) (earlier : List Call) :
    inRow p (call :: earlier) = extend (p call) (inRow p earlier) := by
  unfold inRow extend
  rw [List.takeWhile_cons]
  split <;> rfl

theorem extend_le {m n : Nat} (h : m ≤ n) (goesOn : Bool) : extend goesOn m ≤ extend goesOn n := by
  unfold extend
  split <;> omega

theorem latestAre_of_le {n : Nat} {p : Call → Bool} (h : n ≤ inRow p history) :
    LatestAre n p history := by
  obtain ⟨rest, hsplit⟩ := List.takeWhile_prefix (l := history) p
  have hlength : inRow p history ≤ history.length := (List.takeWhile_sublist p).length_le
  refine ⟨Nat.le_trans h hlength, fun call hcall => ?_⟩
  -- the first so many calls lie in the part in which all have the property
  rw [← hsplit, List.take_append_of_le_length h] at hcall
  exact List.mem_takeWhile_imp (List.mem_of_mem_take hcall)

/-! ## Streaks and histories -/

/-- The calls of a history that were made under a strategy. -/
def callsUnder (kind : StrategyKind) (history : List Call) : List Call :=
  history.filter (·.current = kind)

theorem streakNext_after (call : Call) (earlier : List Call) :
    (after config start earlier).streakNext call.current call.sample =
      extend (call.isAgainst config call.current)
        ((after config start earlier).streak call.current) := by
  rw [streakNext, config_after, Call.isAgainst]
  simp

/-- A streak is no longer than the row of the latest calls under its strategy that speak against it. -/
theorem streak_le_inRow_callsUnder (history : List Call) : (after config start history).streak kind ≤
    inRow (·.isAgainst config kind) (callsUnder kind history) := by
  induction history with
  | nil => cases kind <;> exact Nat.le_refl 0
  | cons call earlier ih =>
      rcases StrategyKind.eq_or_eq_other call.current kind with rfl | hother
      · have hmine : callsUnder call.current (call :: earlier) =
            call :: callsUnder call.current earlier := List.filter_cons_of_pos (by simp)
        rw [hmine, inRow_cons]
        calc (after config start (call :: earlier)).streak call.current
            ≤ (after config start earlier).streakNext call.current call.sample :=
              streak_evaluate_le _ _ _
          _ ≤ _ := by
              rw [streakNext_after]
              exact extend_le ih _
      · have hskip : callsUnder kind (call :: earlier) = callsUnder kind earlier :=
          List.filter_cons_of_neg (by simp [hother, (StrategyKind.other_ne _).symm])
        rw [hskip]
        subst hother
        exact Nat.le_trans (streak_other_evaluate_le _ _ _) ih

/-- If the strategy in use was exchanged on recommendation only, these are the latest calls of all. -/
theorem Steady.streak_le_inRow (h : Steady config start history) (kind : StrategyKind) :
    (after config start history).streak kind ≤ inRow (·.isAgainst config kind) history := by
  induction history generalizing kind with
  | nil => cases kind <;> exact Nat.le_refl 0
  | cons call earlier ih =>
      obtain ⟨hsteady, hexchange⟩ := h
      rcases StrategyKind.eq_or_eq_other call.current kind with rfl | rfl
      · rw [inRow_cons]
        calc (after config start (call :: earlier)).streak call.current
            ≤ (after config start earlier).streakNext call.current call.sample :=
              streak_evaluate_le _ _ _
          _ ≤ _ := by
              rw [streakNext_after]
              exact extend_le (ih hsteady _) _
      · refine Nat.le_trans (streak_other_evaluate_le _ _ _) (Nat.le_trans ?_ (Nat.zero_le _))
        -- there is no streak of the other strategy that could have outlived a change
        cases earlier with
        | nil => cases call.current.other <;> exact Nat.le_refl 0
        | cons before rest =>
            by_cases hsame : before.current = call.current
            · have hzero : inRow (·.isAgainst config call.current.other) (before :: rest) = 0 := by
                rw [inRow_cons, extend, if_neg]
                simp [Call.isAgainst, hsame, (StrategyKind.other_ne _).symm]
              exact hzero ▸ ih hsteady _
            · exact Nat.le_of_eq (streak_of_answer (hexchange before rfl hsame))

/-! ## Recommendations -/

/-- What a recommendation at the end of a history rests on, if a strategy was in use. -/
structure RestsOnStreak (config : AdaptiveConfig) (start : Instant) (history : List Call)
    (kind : StrategyKind) : Prop where
  /-- The latest call was made under that strategy. -/
  current_eq : ∀ call ∈ history.head?, call.current = kind
  /-- Of the calls under that strategy, as many as are called for spoke against it, up to the latest. -/
  latest_under : LatestAre config.consecutiveWindows (·.isAgainst config kind) (callsUnder kind history)
  /-- These are the latest calls of all if the strategy was exchanged on recommendation only. -/
  latest_of_steady : Steady config start history →
    LatestAre config.consecutiveWindows (·.isAgainst config kind) history

/-- Whatever a selector is asked, it recommends the sharded strategy on enough hot windows in a row under
the locked one only, and the locked strategy on enough quiet windows in a row under the sharded one only.
Windows under the other strategy may lie in between, but only where somebody else exchanged it. -/
theorem answer_restsOnStreak (config : AdaptiveConfig) (start : Instant) (history : List Call)
    (kind : StrategyKind) (h : answer config start history = some kind.other) :
    RestsOnStreak config start history kind := by
  cases history with
  | nil => contradiction
  | cons call earlier =>
      obtain ⟨hother, hlong⟩ := le_of_evaluate h
      obtain rfl : kind = call.current := by
        rcases StrategyKind.eq_or_eq_other call.current kind with heq | rfl
        · exact heq
        · cases hcurrent : call.current <;> simp [hcurrent, StrategyKind.other] at hother
      rw [config_after, streakNext_after] at hlong
      refine ⟨fun c hc => by cases hc; rfl, latestAre_of_le ?_, fun hsteady => latestAre_of_le ?_⟩
      · have hmine : callsUnder call.current (call :: earlier) =
            call :: callsUnder call.current earlier := List.filter_cons_of_pos (by simp)
        rw [hmine, inRow_cons]
        exact Nat.le_trans hlong (extend_le (streak_le_inRow_callsUnder earlier) _)
      · rw [inRow_cons]
        exact Nat.le_trans hlong (extend_le (hsteady.1.streak_le_inRow _) _)

/-- Settings at which two windows in a row are called for. -/
def twoWindows : AdaptiveConfig := { consecutiveWindows := 2 }

/-- A call with a window of so long a mean wait and much throughput. -/
def busyCall (current : StrategyKind) (avgWait : Duration) : Call where
  current := current
  sample :=
    { contentionCount := 10, throughput := 5000.0, avgWait := avgWait, strategy := current
      timestampMs := 0 }

/-- Two hot windows, and after the exchange two quiet ones. -/
def thereAndBack : List Call :=
  [busyCall .sharded 500, busyCall .sharded 500, busyCall .locked 30000, busyCall .locked 30000]

theorem thereAndBack_restsOnStreak :
    answer twoWindows 0 thereAndBack = some (StrategyKind.other .sharded) ∧
      Steady twoWindows 0 thereAndBack ∧ RestsOnStreak twoWindows 0 thereAndBack .sharded :=
  have hanswer : answer twoWindows 0 thereAndBack = some (StrategyKind.other .sharded) := by decide
  ⟨hanswer, by decide, answer_restsOnStreak twoWindows 0 thereAndBack .sharded hanswer⟩

/-- Two hot windows, between which somebody else had the other strategy in use for one window. -/
def awayForOneWindow : List Call :=
  [busyCall .locked 30000, busyCall .sharded 30000, busyCall .locked 30000]

/-- Where somebody else exchanges the strategy, a recommendation need not rest on the latest windows. -/
theorem awayForOneWindow_not_latestAre : twoWindows.validate = .ok () ∧
    answer twoWindows 0 awayForOneWindow = some .sharded ∧
      ¬LatestAre twoWindows.consecutiveWindows (·.isAgainst twoWindows .locked) awayForOneWindow :=
  ⟨rfl, by decide, by decide⟩

end Selector

end Dispatch
