import Dispatch.Breaker.Stored
import Dispatch.Config.Stored
import Dispatch.Health.Stored
import Dispatch.Log.Stored
import Dispatch.Metrics.Stored
import Dispatch.Proofs.Config.Stored
import Dispatch.Proofs.Json.Floats
/-!
# Stored records are read back

What is stored of a record is read as that record: log records with any message, the counts of a
breaker, metrics, results of health checks, and the settings of the breaker and of the adaptive
selection, as long as their numbers fit the widths that they are stored with. Usable settings of the
engine are read back too and found usable, with the fill level as its text is read.
-/

namespace Dispatch

open Json

/-! ## Widths of numbers -/

/-- Whether the number of a log record fits its width. -/
structure LogRecord.InRange (r : LogRecord) : Prop where
  loggedAt_lt : r.loggedAt < 1 <<< 128

/-- Whether the counts of a breaker fit their widths. -/
structure BreakerStats.InRange (s : BreakerStats) : Prop where
  consecutiveFailures_lt : s.consecutiveFailures < 1 <<< 32
  halfOpenSuccesses_lt : s.halfOpenSuccesses < 1 <<< 32
  timesOpened_lt : s.timesOpened < 1 <<< 64
  rejections_lt : s.rejections < 1 <<< 64

/-- Whether metrics fit their widths. -/
structure MetricsSnapshot.InRange (s : MetricsSnapshot) : Prop where
  submitted_lt : s.submitted < 1 <<< 64
  completed_lt : s.completed < 1 <<< 64
  failed_lt : s.failed < 1 <<< 64
  cancelled_lt : s.cancelled < 1 <<< 64
  rejected_lt : s.rejected < 1 <<< 64
  latencySamples_lt : s.latencySamples < 1 <<< 64
  p50Micros_lt : s.p50Micros < 1 <<< 64
  p95Micros_lt : s.p95Micros < 1 <<< 64
  p99Micros_lt : s.p99Micros < 1 <<< 64
  meanMicros_lt : s.meanMicros < 1 <<< 64
  maxMicros_lt : s.maxMicros < 1 <<< 64
  uptimeMs_lt : s.uptimeMs < 1 <<< 64
  takenAtMs_lt : s.takenAtMs < 1 <<< 128

/-- Whether the settings of a breaker fit their widths. -/
structure BreakerConfig.InRange (c : BreakerConfig) : Prop where
  failureThreshold_lt : c.failureThreshold < 1 <<< 32
  successThreshold_lt : c.successThreshold < 1 <<< 32
  resetTimeoutMs_lt : c.resetTimeoutMs < 1 <<< 64

/-- Whether the settings of the adaptive selection fit their widths. -/
structure AdaptiveConfig.InRange (c : AdaptiveConfig) : Prop where
  samplingIntervalMs_lt : c.samplingIntervalMs < 1 <<< 64
  highWaterWaitNs_lt : c.highWaterWaitNs < 1 <<< 64
  lowWaterWaitNs_lt : c.lowWaterWaitNs < 1 <<< 64
  minThroughput_lt : c.minThroughput < 1 <<< 64
  consecutiveWindows_lt : c.consecutiveWindows < 1 <<< 32
  historyLen_lt : c.historyLen < 1 <<< 64

/-- Whether the settings of an engine fit their widths. -/
structure EngineConfig.InRange (c : EngineConfig) : Prop where
  workerCount_lt : c.workerCount < 1 <<< 64
  maxQueueCapacity_lt : c.maxQueueCapacity < 1 <<< 64
  threadStackSize_lt : c.threadStackSize < 1 <<< 64
  latencySampleCapacity_lt : c.latencySampleCapacity < 1 <<< 64
  schedulerTickMs_lt : c.schedulerTickMs < 1 <<< 64
  circuitBreaker : c.circuitBreaker.InRange
  adaptive : c.adaptive.InRange

/-! ## Each record by its fields -/

open Reader

theorem gives_nat32 {n : Nat} (h : n < 1 <<< 32) : nat32.Gives (Value.int n).chars n :=
  gives_int h (by decide) "u32"

theorem gives_nat64 {n : Nat} (h : n < 1 <<< 64) : nat64.Gives (Value.int n).chars n :=
  gives_int h (by decide) "u64"

theorem gives_size {n : Nat} (h : n < 1 <<< 64) : size.Gives (Value.int n).chars n :=
  gives_int h (by decide) "usize"

theorem LogRecord.gives_value {r : LogRecord} (h : r.InRange) : form.read.Gives r.value.chars r := by
  have hlevel : Level.read.Gives r.level.value.chars r.level :=
    gives_name (by cases r.level <;> decide)
  exact gives_of_writes (by decide)
    (.of hlevel (.of (gives_str _) (.of (gives_nat128 h.loggedAt_lt) .nil)))

theorem BreakerStats.gives_value {s : BreakerStats} (h : s.InRange) :
    form.read.Gives s.value.chars s := by
  have hstate : Circuit.read.Gives s.state.value.chars s.state :=
    gives_name (by cases s.state <;> decide)
  exact gives_of_writes (by decide)
    (.of hstate (.of (gives_nat32 h.consecutiveFailures_lt)
      (.of (gives_nat32 h.halfOpenSuccesses_lt) (.of (gives_nat64 h.timesOpened_lt)
        (.of (gives_nat64 h.rejections_lt) .nil)))))

theorem MetricsSnapshot.gives_value {s : MetricsSnapshot} (h : s.InRange) :
    form.read.Gives s.value.chars s :=
  gives_of_writes (by decide) <|
    .of (gives_nat64 h.submitted_lt) <| .of (gives_nat64 h.completed_lt) <|
    .of (gives_nat64 h.failed_lt) <| .of (gives_nat64 h.cancelled_lt) <|
    .of (gives_nat64 h.rejected_lt) <| .of (gives_size h.latencySamples_lt) <|
    .of (gives_nat64 h.p50Micros_lt) <| .of (gives_nat64 h.p95Micros_lt) <|
    .of (gives_nat64 h.p99Micros_lt) <| .of (gives_nat64 h.meanMicros_lt) <|
    .of (gives_nat64 h.maxMicros_lt) <| .of (gives_nat64 h.uptimeMs_lt) <|
    .of (gives_nat128 h.takenAtMs_lt) .nil

theorem HealthCheckResult.gives_value (r : HealthCheckResult) :
    form.read.Gives r.value.chars r := by
  have hwrites : ∀ {name passed v error}, (optional Reader.string).Gives v.chars error →
      form.read.Gives (Value.obj [("name", .str name), ("passed", .bool passed), ("error", v)]).chars
        ⟨name, passed, error⟩ := fun herror =>
    gives_of_writes (by decide) <|
      .of (gives_str _) <| .of (gives_bool _) <|
      .cons (f := .optional "error" .string _) (herror.map _) .nil
  obtain ⟨name, passed, error⟩ := r
  cases error with
  | none => exact hwrites (gives_null _)
  | some s => exact hwrites (gives_optional (by decide : isGap '"' = false) (by decide) (gives_str s))

theorem BreakerConfig.gives_value {c : BreakerConfig} (h : c.InRange) :
    form.read.Gives c.value.chars c :=
  gives_of_writes (by decide) <|
    .of (gives_nat32 h.failureThreshold_lt) <| .of (gives_nat32 h.successThreshold_lt) <|
    .of (gives_nat64 h.resetTimeoutMs_lt) .nil

theorem AdaptiveConfig.gives_value {c : AdaptiveConfig} (h : c.InRange) :
    form.read.Gives c.value.chars c :=
  gives_of_writes (by decide) <|
    .of (gives_bool _) <| .of (gives_nat64 h.samplingIntervalMs_lt) <|
    .of (gives_nat64 h.highWaterWaitNs_lt) <| .of (gives_nat64 h.lowWaterWaitNs_lt) <|
    .of (gives_nat64 h.minThroughput_lt) <| .of (gives_nat32 h.consecutiveWindows_lt) <|
    .of (gives_size h.historyLen_lt) .nil

namespace EngineConfig

/-- Settings of an engine are read back with the fill level as its text is read. -/
theorem gives_value {c : EngineConfig} (h : c.InRange) {x : Float}
    (hx : readAll .float (Value.float c.degradedUtilization).text = .ok x) :
    form.read.Gives c.value.chars { c with degradedUtilization := x } := by
  have hstrategy : StrategyKind.read.Gives c.initialStrategy.value.chars c.initialStrategy :=
    gives_name (by cases c.initialStrategy <;> decide)
  rw [Value.text, Value.chars, String.ofList_toList] at hx
  have hlevel : Reader.float.Gives (Value.float c.degradedUtilization).chars x :=
    gives_float_text hx
  exact gives_of_writes (by decide) <|
    .of (gives_size h.workerCount_lt) <| .of (gives_size h.maxQueueCapacity_lt) <|
    .of (gives_size h.threadStackSize_lt) <| .of (gives_bool _) <| .of hstrategy <|
    .of (gives_size h.latencySampleCapacity_lt) <| .of hlevel <|
    .of (gives_nat64 h.schedulerTickMs_lt) <| .of (BreakerConfig.gives_value h.circuitBreaker) <|
    .of (AdaptiveConfig.gives_value h.adaptive) .nil

/-- Usable settings are usable with any other fill level. -/
theorem validate_withLevel {c : EngineConfig} (hc : c.validate = .ok ()) {x : Float}
    (hx : isFillLevel x = true) : { c with degradedUtilization := x }.validate = .ok () := by
  unfold validate at hc ⊢
  split_ifs at hc
  simp_all

end EngineConfig

/-! ## What was stored -/

/-- Every record is read back from its stored text as it was: log records with any message, counts of
a breaker, metrics, results of health checks, and settings of a breaker and of the adaptive selection.
Usable settings of an engine are read back and found usable, and they are the same but for the fill
level, which is what its own text is read as; that has to be a fill level again. -/
theorem stored_readsBack :
    (∀ r : LogRecord, r.InRange → readAll LogRecord.form.read r.value.text = .ok r) ∧
    (∀ s : BreakerStats, s.InRange → readAll BreakerStats.form.read s.value.text = .ok s) ∧
    (∀ s : MetricsSnapshot, s.InRange → readAll MetricsSnapshot.form.read s.value.text = .ok s) ∧
    (∀ r : HealthCheckResult, readAll HealthCheckResult.form.read r.value.text = .ok r) ∧
    (∀ c : BreakerConfig, c.InRange → readAll BreakerConfig.form.read c.value.text = .ok c) ∧
    (∀ c : AdaptiveConfig, c.InRange → readAll AdaptiveConfig.form.read c.value.text = .ok c) ∧
    ∀ (c : EngineConfig) (x : Float), c.InRange → c.validate = .ok () →
      readAll .float (Value.float c.degradedUtilization).text = .ok x →
      EngineConfig.isFillLevel x = true →
      EngineConfig.ofText c.value.text = .ok { c with degradedUtilization := x } := by
  refine ⟨fun _ h => (LogRecord.gives_value h).readAll_eq,
    fun _ h => (BreakerStats.gives_value h).readAll_eq,
    fun _ h => (MetricsSnapshot.gives_value h).readAll_eq,
    fun r => r.gives_value.readAll_eq,
    fun _ h => (BreakerConfig.gives_value h).readAll_eq,
    fun _ h => (AdaptiveConfig.gives_value h).readAll_eq,
    fun c x h hvalid hx hlevel => ?_⟩
  have hread := (EngineConfig.gives_value h hx).readAll_eq
  exact (EngineConfig.yields_of_readAll hread).ok_iff.2 (EngineConfig.validate_withLevel hvalid hlevel)

/-- A log record whose message has characters of every kind, at the last instant of all. -/
def oddRecord : LogRecord := ⟨.warn, "a \"quoted\" \\ line\n\x01\x7f é 𝄞", (1 <<< 128) - 1⟩

/-- The largest counts of a breaker. -/
def fullStats : BreakerStats :=
  ⟨.halfOpen, (1 <<< 32) - 1, (1 <<< 32) - 1, (1 <<< 64) - 1, (1 <<< 64) - 1⟩

/-- Metrics at the last instant of all. -/
def lateMetrics : MetricsSnapshot := { uptimeMs := (1 <<< 64) - 1, takenAtMs := (1 <<< 128) - 1 }

/-- A result with a text of its own. -/
def failedResult : HealthCheckResult := ⟨"disk \"C:\\\"", false, some "full\t"⟩

theorem extremes_readBack :
    readAll LogRecord.form.read oddRecord.value.text = .ok oddRecord ∧
    readAll BreakerStats.form.read fullStats.value.text = .ok fullStats ∧
    readAll MetricsSnapshot.form.read lateMetrics.value.text = .ok lateMetrics ∧
    readAll HealthCheckResult.form.read failedResult.value.text = .ok failedResult ∧
    readAll BreakerConfig.form.read ({} : BreakerConfig).value.text = .ok {} ∧
    readAll AdaptiveConfig.form.read ({} : AdaptiveConfig).value.text = .ok {} ∧
    EngineConfig.ofText ({} : EngineConfig).value.text = .ok {} := by
  obtain ⟨hrecord, hstats, hmetrics, hresult, hbreaker, hadaptive, hconfig⟩ := stored_readsBack
  have hfull : fullStats.InRange := ⟨by decide, by decide, by decide, by decide⟩
  have hlate : lateMetrics.InRange := by constructor <;> decide
  have hbreakerRange : ({} : BreakerConfig).InRange := ⟨by decide, by decide, by decide⟩
  have hadaptiveRange : ({} : AdaptiveConfig).InRange := by constructor <;> decide
  have hrange : ({} : EngineConfig).InRange :=
    ⟨by decide, by decide, by decide, by decide, by decide, hbreakerRange, hadaptiveRange⟩
  exact ⟨hrecord _ ⟨by decide⟩, hstats _ hfull, hmetrics _ hlate, hresult _, hbreaker _ hbreakerRange,
    hadaptive _ hadaptiveRange, hconfig {} 0.8 hrange (by decide +kernel) rfl (by decide +kernel)⟩

end Dispatch
