import Dispatch.Proofs.Engine.Starts
import Dispatch.Proofs.Pool.Trial
/-!
# What the circuit does in a run

The two main statements of this module hold from the start of a pool on. An open circuit stops all
execution until the reset timeout has passed, unless somebody resets the breaker. And a half open
circuit is closed only by tasks that return a value meanwhile, as many as the threshold asks for. These
tasks may have been started before the circuit opened: the breaker is told of a success, but not of
when the body was started.
-/

namespace Dispatch

variable {α : Type}

namespace Pool

variable {p q r a : Pool α} {config : EngineConfig} {around : Surroundings} {now : Instant}
  {log : LogBook}

/-! ## The breaker of a started pool -/

/-- The workers come to their first wait without a call to the breaker. -/
theorem breaker_of_start (h : Pool.start config around now log = .ok p) :
    p.breaker = { config := config.circuitBreaker } :=
  ((works_of_start h).breaker_eq (kept_ofWorkers _ _ _ _ _) rfl rfl).2

/-! ## An open circuit -/

/-- From the start of a pool on, a circuit that opens stops execution until the reset timeout has
passed. -/
theorem run_stopsFor (config : EngineConfig) (around : Surroundings) (now : Instant) (log : LogBook)
    (p : Pool α) (h : Pool.start config around now log = .ok p) {a q : Pool α}
    (hruns : p.Runs (fun _ => True) a) (hstep : Happens (fun _ => True) a q) (hopens : a.Opens q) :
    q.StopsFor a.clock config.circuitBreaker.resetTimeout := by
  have ha : a.Kept := (Runs.reaches hruns).kept (kept_of_start h)
  have hgrows := hstep.step.grows ha.balanced.sound
  have hconfig : q.breaker.config = config.circuitBreaker := by
    rw [Runs.config_eq (kept_of_start h).balanced.sound (hruns.tail hstep), breaker_of_start h]
  have hshut : q.ShutFor a.clock config.circuitBreaker.resetTimeout :=
    { sound := hgrows.sound
      openSince := hstep.openSince ha.balanced.sound hopens
      timeout_eq := by rw [hconfig]
      since_le := hgrows.clock_le }
  exact hshut.stopsFor

/-- A pool of two workers whose circuit opens at the first failure, and closes at the first success. -/
def frailConfig : EngineConfig where
  workerCount := 2
  circuitBreaker := { failureThreshold := 1, successThreshold := 1, resetTimeoutMs := 10 }

/-- The frail pool with its workers at their first wait. -/
def frailPool : Pool Nat := (Pool.ofWorkers frailConfig 2 2 0 ⟨0, []⟩).sweep.sweep

/-- It is started where threads are not limited. -/
theorem start_frailPool : Pool.start frailConfig {} 0 ⟨0, []⟩ = .ok frailPool := by
  have hvalid : frailConfig.validate = .ok () := rfl
  have hsettle : (Pool.ofWorkers frailConfig 2 2 0 ⟨0, []⟩).settle = frailPool := by
    rw [Pool.settle, if_pos (by decide), Pool.settle, if_neg (by decide)]
    rfl
  unfold Pool.start
  rw [hvalid, ← hsettle]
  rfl

/-- A task that takes twice as long as the circuit stays open. -/
def longSubmission : Submission Nat := ⟨"long", .normal, none, ⟨[.sleep 20000000], .value 1⟩⟩

/-- A task that fails at once. -/
def failingSubmission : Submission Nat :=
  ⟨"bad", .normal, none, ⟨[], .failure ⟨.text "down", []⟩⟩⟩

/-- The frail pool with the long task under way. -/
def laden : Pool Nat := (frailPool.submit longSubmission).1.turnAt 0

/-- The same with the failing task in the queue. -/
def faltering : Pool Nat := (laden.submit failingSubmission).1

/-- The same after the failing task has opened the circuit. -/
def broken : Pool Nat := faltering.turnAt 1

theorem runs_faltering {allowed : Breaker.Call → Prop} : frailPool.Runs allowed faltering :=
  ((Relation.ReflTransGen.single (.submitAt frailPool _ longSubmission)).tail
    (.work (.turn _ 0))).tail (.submitAt laden _ failingSubmission)

theorem happens_broken {allowed : Breaker.Call → Prop} : Happens allowed faltering broken :=
  .work (.turn faltering 1)

theorem opens_broken : faltering.Opens broken where
  opened := rfl
  anew := fun h => by contradiction

theorem broken_stopsFor : Pool.start frailConfig {} 0 ⟨0, []⟩ = .ok frailPool ∧
    frailPool.Runs (fun _ => True) faltering ∧ Happens (fun _ => True) faltering broken ∧
      faltering.Opens broken ∧ broken.StopsFor 0 (.ofMillis 10) :=
  ⟨start_frailPool, runs_faltering, happens_broken, opens_broken,
    run_stopsFor frailConfig {} 0 ⟨0, []⟩ frailPool start_frailPool runs_faltering happens_broken
      opens_broken⟩

/-! ## A trial that is closed -/

/-- Whether enough tasks have returned a value since a state in which the circuit was open, all of
which were started since then, or before the circuit had opened. -/
structure Earned (a r : Pool α) (threshold : Nat) : Prop where
  threshold_le : threshold ≤ (completedSince a r).length
  nodup : (completedSince a r).Nodup
  started : ∀ id ∈ completedSince a r, ∃ take ∈ r.takes, take.task.id = id ∧ take.started = true ∧
    (take ∉ a.takes ∨ ∃ since, a.breaker.openedAt = some since ∧ take.takenAt ≤ since)

theorem Kept.completedSince_nodup (h : r.Kept) (a : Pool α) : (completedSince a r).Nodup :=
  h.delivered_nodup.sublist ((List.filter_sublist.trans (List.take_sublist _ _)).map Prod.fst)

/-- A task that returns a value was started. -/
theorem Kept.exists_started (h : r.Kept) {id : Nat} (hid : id ∈ completedSince a r) :
    ∃ take ∈ r.takes, take.task.id = id ∧ take.started = true := by
  obtain ⟨⟨id, o⟩, hmem, rfl⟩ := List.mem_map.1 hid
  obtain ⟨hmem, hvalue⟩ := List.mem_filter.1 hmem
  have hdelivered : r.outcome? id = some o :=
    h.outcome?_eq_some_iff.2 (List.mem_of_mem_take hmem)
  obtain ⟨take, htake, htask, hallows⟩ :=
    h.exists_take hdelivered fun heq => by simp [heq, Outcome.isCompleted] at hvalue
  refine ⟨take, htake, htask, by_contra fun hunstarted => ?_⟩
  rw [Take.Allows, if_neg hunstarted] at hallows
  rcases hallows with rfl | ⟨_, rfl⟩ <;> simp [Outcome.isCompleted] at hvalue

/-- From the start of a pool on, as long as nobody resets the breaker or tells it of successes, a
circuit that closes has been half open, and enough tasks have returned a value since it was open. -/
theorem run_earned (config : EngineConfig) (around : Surroundings) (now : Instant) (log : LogBook)
    (p : Pool α) (h : Pool.start config around now log = .ok p) {q r : Pool α}
    (hruns : p.Runs Breaker.Call.NeverCloses q) (hstep : Happens Breaker.Call.NeverCloses q r)
    (hbefore : q.breaker.circuit ≠ .closed) (hafter : r.breaker.circuit = .closed) :
    ∃ a, p.Runs Breaker.Call.NeverCloses a ∧ a.ClosesTrial q r ∧
      Earned a r config.circuitBreaker.successThreshold := by
  have hkept := kept_of_start h
  have hbreaker := breaker_of_start h
  obtain ⟨a, ha, hcloses⟩ := hruns.exists_closesTrial hkept.balanced.sound (by rw [hbreaker])
    hstep hbefore hafter
  have hr : r.Kept := hstep.step.kept ((Runs.reaches hruns).kept hkept)
  have hspares : a.SparesOpen := Runs.sparesOpen hkept (Engine.punctual_of_start h)
    (fun hopened => by simp [hbreaker] at hopened) ha
  have hconfig : r.breaker.config = config.circuitBreaker := by
    rw [Runs.config_eq hkept.balanced.sound (hruns.tail hstep), hbreaker]
  have hle := hcloses.threshold_le ((Runs.reaches ha).kept hkept).balanced.sound
  refine ⟨a, ha, hcloses, hconfig ▸ hle, hr.completedSince_nodup a, fun id hid => ?_⟩
  obtain ⟨take, htake, htask, hstarted⟩ := hr.exists_started hid
  refine ⟨take, htake, htask, hstarted, ?_⟩
  by_cases hold : take ∈ a.takes
  · -- nothing was started while the circuit was open, so it was before
    obtain ⟨since, hsince, hle⟩ := hspares hcloses.opened
    exact .inr ⟨since, hsince, hle take hold hstarted⟩
  · exact .inl hold

/-- The broken pool some time after the reset timeout has passed. -/
def overdue : Pool Nat := { broken with clock := 15000000 }

/-- A task that is submitted to be run later. -/
def laterSubmission : Submission Nat := ⟨"later", .normal, none, ⟨[], .value 2⟩⟩

/-- The overdue pool after such a submission, which makes the circuit half open. -/
def onTrial : Pool Nat := (overdue.submitAt 60000000 laterSubmission).1

/-- The same at the end of the long task. -/
def lingering : Pool Nat := { onTrial with clock := 20000000 }

/-- The same after the long task has ended, and the later one has not been started. -/
def mended : Pool Nat := lingering.turnAt 0

theorem runs_overdue {allowed : Breaker.Call → Prop} : frailPool.Runs allowed overdue :=
  (runs_faltering.tail happens_broken).tail (.work (.tick broken 15000000 (by decide)))

theorem trial_lingering : overdue.Trial lingering :=
  (Trial.starts (.submitAt overdue _ laterSubmission) rfl).goesOn
    (.work (.tick onTrial 20000000 (by decide))) rfl

theorem runs_lingering {allowed : Breaker.Call → Prop} : frailPool.Runs allowed lingering :=
  (runs_overdue.tail (.submitAt overdue _ laterSubmission)).tail
    (.work (.tick onTrial 20000000 (by decide)))

theorem happens_mended {allowed : Breaker.Call → Prop} : Happens allowed lingering mended :=
  .work (.turn lingering 0)

theorem mended_earned : Pool.start frailConfig {} 0 ⟨0, []⟩ = .ok frailPool ∧
    frailPool.Runs Breaker.Call.NeverCloses lingering ∧
    Happens Breaker.Call.NeverCloses lingering mended ∧ lingering.breaker.circuit ≠ .closed ∧
    mended.breaker.circuit = .closed ∧
    ∃ a, frailPool.Runs Breaker.Call.NeverCloses a ∧ a.ClosesTrial lingering mended ∧
      Earned a mended 1 :=
  ⟨start_frailPool, runs_lingering, happens_mended, by decide, rfl,
    run_earned frailConfig {} 0 ⟨0, []⟩ frailPool start_frailPool runs_lingering happens_mended
      (by decide) rfl⟩

/-- The numbers of the tasks that were taken and have returned a value since a state of a pool. -/
def triedSince (a r : Pool α) : List Nat :=
  (completedSince a r).filter fun id => id ∉ a.takes.map (·.task.id)

/-- A half open circuit can be closed although no task that was started on trial has returned a value:
the success of one that was started before the circuit opened is enough. -/
theorem mended_untried : Pool.start frailConfig {} 0 ⟨0, []⟩ = .ok frailPool ∧
    frailPool.Runs Breaker.Call.NeverCloses overdue ∧ overdue.ClosesTrial lingering mended ∧
    (triedSince overdue mended).length < frailConfig.circuitBreaker.successThreshold ∧
    completedSince overdue mended = [1] ∧ laden.takes.map (·.task.id) = [1] ∧
    laden.breaker.circuit = .closed :=
  ⟨start_frailPool, runs_overdue, ⟨rfl, .inr trial_lingering, happens_mended, rfl⟩, by decide, rfl,
    rfl, rfl⟩

end Pool

end Dispatch
