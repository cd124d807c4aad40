import Dispatch.Config.Stored
import Dispatch.Proofs.Json.Overlays
/-!
# Stored settings over the defaults

What the stored settings of the engine are for, field by field, in themselves and in the settings of
the breaker and of the adaptive selection within them. A stored map is read as the defaults with
exactly the listed fields replaced, at each of the three levels on its own; then the rules of usable
settings are checked in their order, and the first one that is broken is reported.
-/

namespace Dispatch

open Json

/-! ## The fields -/

namespace BreakerConfig

/-- The fields of stored breaker settings. -/
def specs : List (FieldSpec BreakerConfig) :=
  [.of "failure_threshold" (IsNatural (1 <<< 32)) failureThreshold,
   .of "success_threshold" (IsNatural (1 <<< 32)) successThreshold,
   .of "reset_timeout_ms" (IsNatural (1 <<< 64)) resetTimeoutMs]

end BreakerConfig

namespace AdaptiveConfig

/-- The fields of stored adaptive settings. -/
def specs : List (FieldSpec AdaptiveConfig) :=
  [.of "enabled" IsBoolean enabled,
   .of "sampling_interval_ms" (IsNatural (1 <<< 64)) samplingIntervalMs,
   .of "high_water_wait_ns" (IsNatural (1 <<< 64)) highWaterWaitNs,
   .of "low_water_wait_ns" (IsNatural (1 <<< 64)) lowWaterWaitNs,
   .of "min_throughput" (IsNatural (1 <<< 64)) minThroughput,
   .of "consecutive_windows" (IsNatural (1 <<< 32)) consecutiveWindows,
   .of "history_len" (IsNatural (1 <<< 64)) historyLen]

end AdaptiveConfig

namespace EngineConfig

/-- The fields of stored engine settings. -/
def specs : List (FieldSpec EngineConfig) :=
  [.of "worker_count" (IsNatural (1 <<< 64)) workerCount,
   .of "max_queue_capacity" (IsNatural (1 <<< 64)) maxQueueCapacity,
   .of "thread_stack_size" (IsNatural (1 <<< 64)) threadStackSize,
   .of "work_stealing" IsBoolean workStealing,
   .of "initial_strategy" (fun v kind => IsName kind.text v) initialStrategy,
   .of "latency_sample_capacity" (IsNatural (1 <<< 64)) latencySampleCapacity,
   .of "degraded_utilization" IsFloat degradedUtilization,
   .of "scheduler_tick_ms" (IsNatural (1 <<< 64)) schedulerTickMs,
   .record "circuit_breaker" BreakerConfig.specs {} circuitBreaker,
   .record "adaptive" AdaptiveConfig.specs {} adaptive]

end EngineConfig

/-! ## The forms -/

theorem BreakerConfig.describes : Describes specs form where
  isLenient := rfl
  nodup := by decide
  implements := by
    refine .cons (implements_natural (by decide) (fun _ _ => rfl) ?_) <|
      .cons (implements_natural (by decide) (fun _ _ => rfl) ?_) <|
      .cons (implements_natural (by decide) (fun _ _ => rfl) ?_) .nil
    all_goals simp [specs, FieldSpec.of]
  ext a b h := by
    cases a; cases b
    simpa [specs, FieldSpec.of] using h

theorem AdaptiveConfig.describes : Describes specs form where
  isLenient := rfl
  nodup := by decide
  implements := by
    refine .cons (implements_boolean (fun _ _ => rfl) ?_) <|
      .cons (implements_natural (by decide) (fun _ _ => rfl) ?_) <|
      .cons (implements_natural (by decide) (fun _ _ => rfl) ?_) <|
      .cons (implements_natural (by decide) (fun _ _ => rfl) ?_) <|
      .cons (implements_natural (by decide) (fun _ _ => rfl) ?_) <|
      .cons (implements_natural (by decide) (fun _ _ => rfl) ?_) <|
      .cons (implements_natural (by decide) (fun _ _ => rfl) ?_) .nil
    all_goals simp [specs, FieldSpec.of]
  ext a b h := by
    cases a; cases b
    simpa [specs, FieldSpec.of] using h

theorem EngineConfig.describes : Describes specs form where
  isLenient := rfl
  nodup := by decide
  implements := by
    refine .cons (implements_natural (by decide) (fun _ _ => rfl) ?_) <|
      .cons (implements_natural (by decide) (fun _ _ => rfl) ?_) <|
      .cons (implements_natural (by decide) (fun _ _ => rfl) ?_) <|
      .cons (implements_boolean (fun _ _ => rfl) ?_) <|
      .cons (implements_variant (fun kind => by cases kind <;> decide) (fun _ _ => rfl) ?_) <|
      .cons (implements_natural (by decide) (fun _ _ => rfl) ?_) <|
      .cons (implements_float (fun _ _ => rfl) ?_) <|
      .cons (implements_natural (by decide) (fun _ _ => rfl) ?_) <|
      .cons (implements_record BreakerConfig.describes (fun _ _ => rfl) ?_) <|
      .cons (implements_record AdaptiveConfig.describes (fun _ _ => rfl) ?_) .nil
    all_goals simp [specs, FieldSpec.of, FieldSpec.record]
  ext a b h := by
    cases a; cases b
    simpa [specs, FieldSpec.of, FieldSpec.record] using h

/-! ## The rules -/

namespace EngineConfig

/-- A rule of usable settings, with the flaw that is reported where it is broken. -/
structure Rule where
  flaw : ConfigFlaw
  isBroken : EngineConfig → Bool

/-- All rules, in the order in which they are checked. -/
def rules : List Rule :=
  [⟨.queueCapacity, fun c => c.maxQueueCapacity = 0⟩,
   ⟨.stackSize, fun c => c.threadStackSize < minStackSize⟩,
   ⟨.latencySamples, fun c => c.latencySampleCapacity = 0⟩,
   ⟨.degradedUtilization, fun c => !isFillLevel c.degradedUtilization⟩,
   ⟨.schedulerTick, fun c => c.schedulerTickMs = 0⟩,
   ⟨.circuitBreaker .failureThreshold, fun c => c.circuitBreaker.failureThreshold = 0⟩,
   ⟨.circuitBreaker .successThreshold, fun c => c.circuitBreaker.successThreshold = 0⟩,
   ⟨.circuitBreaker .resetTimeout, fun c => c.circuitBreaker.resetTimeoutMs = 0⟩,
   ⟨.adaptive .samplingInterval, fun c => c.adaptive.samplingIntervalMs = 0⟩,
   ⟨.adaptive .waterMarks, fun c => c.adaptive.highWaterWaitNs ≤ c.adaptive.lowWaterWaitNs⟩,
   ⟨.adaptive .consecutiveWindows, fun c => c.adaptive.consecutiveWindows = 0⟩,
   ⟨.adaptive .historyLen, fun c => c.adaptive.historyLen = 0⟩]

/-- The flaw of the first of some rules that settings break. -/
def firstFlawOf (c : EngineConfig) : List Rule → Option ConfigFlaw
  | [] => none
  | rule :: rest => if rule.isBroken c then some rule.flaw else firstFlawOf c rest

/-- The flaw of the first rule that settings break. -/
def firstFlaw (c : EngineConfig) : Option ConfigFlaw := firstFlawOf c rules

/-- What a check says of settings with such a first flaw. -/
def verdict : Option ConfigFlaw → Except ConfigFlaw Unit
  | some flaw => .error flaw
  | none => .ok ()

theorem verdict_cons (c : EngineConfig) (rule : Rule) (rest : List Rule) :
    verdict (firstFlawOf c (rule :: rest)) =
      if rule.isBroken c then .error rule.flaw else verdict (firstFlawOf c rest) := by
  rw [firstFlawOf]
  split <;> rfl

theorem validate_breaker (b : BreakerConfig) (next : Except ConfigFlaw Unit) :
    (match b.validate with
      | .error flaw => .error (.circuitBreaker flaw)
      | .ok () => next) =
      if b.failureThreshold = 0 then .error (.circuitBreaker .failureThreshold)
      else if b.successThreshold = 0 then .error (.circuitBreaker .successThreshold)
      else if b.resetTimeoutMs = 0 then .error (.circuitBreaker .resetTimeout)
      else next := by
  unfold BreakerConfig.validate
  split_ifs <;> rfl

theorem validate_adaptive (a : AdaptiveConfig) (next : Except ConfigFlaw Unit) :
    (match a.validate with
      | .error flaw => .error (.adaptive flaw)
      | .ok () => next) =
      if a.samplingIntervalMs = 0 then .error (.adaptive .samplingInterval)
      else if a.highWaterWaitNs ≤ a.lowWaterWaitNs then .error (.adaptive .waterMarks)
      else if a.consecutiveWindows = 0 then .error (.adaptive .consecutiveWindows)
      else if a.historyLen = 0 then .error (.adaptive .historyLen)
      else next := by
  unfold AdaptiveConfig.validate
  split_ifs <;> rfl

/-- Settings are checked against the rules in their order. -/
theorem validate_eq (c : EngineConfig) : c.validate = verdict c.firstFlaw := by
  unfold validate firstFlaw rules
  simp only [verdict_cons, decide_eq_true_eq]
  -- five rules of the record itself, then those of the records in it
  iterate 5 refine ite_congr rfl (fun _ => rfl) fun _ => ?_
  rw [← validate_adaptive c.adaptive]
  exact validate_breaker c.circuitBreaker _

/-! ## Reading and checking -/

/-- Whether a stored text is read as settings, and what then comes of their check. -/
structure Yields (text : String) (c : EngineConfig) : Prop where
  readAll_eq : Reader.readAll form.read text = .ok c
  /-- Settings that are accepted are given. -/
  ok_iff : ofText text = .ok c ↔ c.validate = .ok ()
  /-- Of settings that are not accepted, the first rule that they break is reported. -/
  ofText_eq : ofText text = match c.firstFlaw with
    | some flaw => .error (.invalid flaw)
    | none => .ok c

theorem yields_of_readAll {text : String} {c : EngineConfig}
    (h : Reader.readAll form.read text = .ok c) : Yields text c := by
  have hcheck := validate_eq c
  refine ⟨h, ?_, ?_⟩
  · rw [ofText, h]
    cases hflaw : c.firstFlaw <;> simp [hcheck, hflaw, verdict]
  · rw [ofText, h]
    cases hflaw : c.firstFlaw <;> simp [hcheck, hflaw, verdict]

/-- A stored map is laid over the defaults. If its texts fit and no field is listed twice, it is
read as the one record that has the listed values and otherwise the defaults, and so is any other
map that lists the same in another order, with other unknown members or with its values written in
another way; this record is given if it breaks no rule, and otherwise the first rule that it breaks
is reported. If a field is listed twice, here or within a value, nothing is read, whatever the
values are. -/
theorem ofText_overlays {ms : List Member} {text : String} (hms : IsDocument ms text) :
    (Fits specs ms → Distinct specs ms → ∃ c,
      (Overlays specs {} ms c ∧ ∀ c', Overlays specs {} ms c' → c' = c) ∧
      Yields text c ∧
      ∀ ms' text', IsDocument ms' text' → Fits specs ms' →
        (known specs ms).Perm (known specs ms') ∨ Distinct specs ms' ∧ SaysSame specs ms ms' →
        Yields text' c) ∧
    ((∀ m ∈ ms, Grammar .value m.2) → RepeatsName specs ms →
      ∃ flaw, ofText text = .error (.unreadable flaw)) := by
  refine ⟨fun hfits hdistinct => ?_, fun hvalues hrepeats => ?_⟩
  · obtain ⟨c, hc, hread⟩ := describes.readAll_overlay hms hfits hdistinct
    refine ⟨c, ⟨hc, fun c' hc' => describes.overlays_unique hc' hc⟩, yields_of_readAll hread, ?_⟩
    intro ms' text' hms' hfits' hsame
    have hother : Distinct specs ms' ∧ Overlays specs {} ms' c := by
      rcases hsame with hperm | ⟨hdistinct', hsame⟩
      · exact ⟨hdistinct.of_perm hperm, hc.of_perm hdistinct hperm⟩
      · exact ⟨hdistinct', describes.overlays_of_saysSame hsame hc⟩
    obtain ⟨c', hc', hread'⟩ := describes.readAll_overlay hms' hfits' hother.1
    obtain rfl := describes.overlays_unique hc' hother.2
    exact yields_of_readAll hread'
  · obtain ⟨flaw, hread⟩ := describes.readAll_repeats hms hvalues hrepeats
    exact ⟨flaw, by rw [ofText, hread]⟩

/-- The members of a stored map that breaks a rule of the breaker settings, and an earlier rule
itself. -/
def flawedMembers : List Member :=
  [("circuit_breaker", "\x7b\"failure_threshold\":0\x7d".toList), ("zz", "null".toList),
   ("latency_sample_capacity", "0".toList)]

def flawedText : String :=
  "\x7b\"circuit_breaker\":\x7b\"failure_threshold\":0\x7d,\"zz\":null," ++
    "\"latency_sample_capacity\":0\x7d"

/-- What the flawed map is read as. -/
def flawedSettings : EngineConfig :=
  { latencySampleCapacity := 0, circuitBreaker := { failureThreshold := 0 } }

/-- A stored text that lists a field of the adaptive settings twice. -/
def repeatedText : String :=
  "\x7b\"adaptive\":\x7b\"enabled\":true,\"enabled\":false\x7d\x7d"

theorem isDocument_flawed : IsDocument flawedMembers flawedText := by
  have hms : IsMembers flawedMembers _ :=
    .cons gaps_nil gaps_nil gaps_nil gaps_nil (spells_self (by simp)) <|
    .cons gaps_nil gaps_nil gaps_nil gaps_nil (spells_self (by simp)) <|
    .last gaps_nil gaps_nil gaps_nil gaps_nil (spells_self (by simp))
  exact ⟨[], _, [], gaps_nil, gaps_nil, .members hms, by decide⟩

theorem stands_flawed :
    (FieldSpec.record "circuit_breaker" BreakerConfig.specs {} circuitBreaker).Stands
      "\x7b\"failure_threshold\":0\x7d".toList flawedSettings.circuitBreaker := by
  have hms : IsMembers [("failure_threshold", "0".toList)] _ :=
    .last gaps_nil gaps_nil gaps_nil gaps_nil (spells_self (by simp))
  have hzero : IsNatural (1 <<< 32) "0".toList 0 := isNatural_zero (by decide)
  refine ⟨_, .members hms, ?_, ?_, ?_⟩
  · simpa [Fits, BreakerConfig.specs, FieldSpec.of] using ⟨0, hzero⟩
  · simp [Distinct, BreakerConfig.specs, FieldSpec.of]
  · simpa [Overlays, BreakerConfig.specs, FieldSpec.of] using ⟨hzero, rfl, rfl⟩

theorem fits_flawed : Fits specs flawedMembers := by
  intro m hm
  simp only [flawedMembers, List.mem_cons, List.not_mem_nil, or_false] at hm
  rcases hm with rfl | rfl | rfl
  · exact ⟨_, stands_flawed⟩
  · exact Grammar.null
  · exact ⟨(0 : Nat), isNatural_zero (by decide : 0 < 1 <<< 64)⟩

theorem overlays_flawed : Overlays specs {} flawedMembers flawedSettings := by
  intro spec hspec
  simp only [specs, List.mem_cons, List.not_mem_nil, or_false] at hspec
  rcases hspec with rfl | rfl | rfl | rfl | rfl | rfl | rfl | rfl | rfl | rfl
  case inr.inr.inr.inr.inr.inl => exact isNatural_zero (by decide)
  case inr.inr.inr.inr.inr.inr.inr.inr.inl => exact stands_flawed
  all_goals rfl

theorem isObject_repeated : IsObject [("enabled", "true".toList), ("enabled", "false".toList)]
    "\x7b\"enabled\":true,\"enabled\":false\x7d".toList := by
  have hms : IsMembers [("enabled", "true".toList), ("enabled", "false".toList)] _ :=
    .cons gaps_nil gaps_nil gaps_nil gaps_nil (spells_self (by simp)) <|
    .last gaps_nil gaps_nil gaps_nil gaps_nil (spells_self (by simp))
  exact .members hms

theorem ofText_flawedText : IsDocument flawedMembers flawedText ∧
    ofText flawedText = .error (.invalid .latencySamples) ∧
    ∃ flaw, ofText repeatedText = .error (.unreadable flaw) := by
  refine ⟨isDocument_flawed, ?_, ?_⟩
  · obtain ⟨c, ⟨-, hunique⟩, hyields, -⟩ := (ofText_overlays isDocument_flawed).1 fits_flawed
      (by simp [Distinct, specs, FieldSpec.of, FieldSpec.record, flawedMembers])
    rw [hyields.ofText_eq, ← hunique _ overlays_flawed]
    rfl
  · have hms : IsMembers [("adaptive", "\x7b\"enabled\":true,\"enabled\":false\x7d".toList)] _ :=
      .last gaps_nil gaps_nil gaps_nil gaps_nil (spells_self (by simp))
    have hdocument : IsDocument _ repeatedText :=
      ⟨[], _, [], gaps_nil, gaps_nil, .members hms, by decide⟩
    have hvalues : ∀ m ∈ [("enabled", "true".toList), ("enabled", "false".toList)],
        Grammar .value m.2 := by
      simpa using ⟨Grammar.true, Grammar.false⟩
    have hrepeats : RepeatsName AdaptiveConfig.specs
        [("enabled", "true".toList), ("enabled", "false".toList)] :=
      ⟨.of "enabled" IsBoolean AdaptiveConfig.enabled, .head _, .inl (by decide)⟩
    refine (ofText_overlays hdocument).2 ?_ ⟨.record "adaptive" AdaptiveConfig.specs {} adaptive, ?_,
      .inr ⟨_, .head _, _, isObject_repeated, hvalues, hrepeats⟩⟩
    · simpa using isObject_repeated.grammar hvalues
    · simp [specs]

end EngineConfig

end Dispatch
