import Dispatch.Health
import Dispatch.Queue
import Mathlib.Data.List.Nodup
/-!
# The register of health checks

Checks are kept by their names, in the order in which the names came in. A name that is registered again
keeps its place, and gets a new check. An evaluation calls each check once, in this order, and a check that
breaks off counts as failed and stops nothing. What a check says may depend on all calls before its own, so
that the order of the calls is seen in the results. The main statement of this module says this of any
sequence of registrations, removals and evaluations, and how the verdict follows from the results, the
circuit and the fill level of the queue.
-/

namespace Dispatch

/-- What is asked of an evaluator. -/
inductive HealthRequest where
  | register (name : String) (probe : List CheckCall → Probe)
  | unregister (name : String)
  | evaluate (utilization : Float) (circuit : Circuit) (now : Instant)

/-- Whether a result is what a call says. -/
structure CheckCall.Gives (call : CheckCall) (r : HealthCheckResult) : Prop where
  name_eq : r.name = call.name
  passed_iff : r.passed = true ↔ call.ending = .passed
  /-- There is a text exactly if the check broke off. -/
  error_eq : r.error = if call.ending = .panicked then some "health check panicked" else none

theorem CheckCall.gives_result (call : CheckCall) : call.Gives call.result := by
  unfold result
  cases hending : call.ending with
  | passed => exact ⟨rfl, by simp [hending], by simp [hending]⟩
  | failed => exact ⟨rfl, by simp [hending], by simp [hending]⟩
  | panicked => exact ⟨rfl, by simp [hending], by simp [hending, HealthCheck.panicMessage]⟩

/-! ## One check after the other -/

/-- Whether these are the calls of all checks, one of each and in order. A check that is called knows the
calls before it, those of the checks in front of it among them. -/
structure CallsInTurn (earlier : List CheckCall) (checks : List HealthCheck) (calls : List CheckCall) :
    Prop where
  names_eq : calls.map CheckCall.name = checks.map HealthCheck.name
  call_eq : ∀ (i : Nat) (c : HealthCheck), checks[i]? = some c →
    calls[i]? = some (c.call ((calls.take i).reverse ++ earlier))

/-- The first check is called before the others. -/
theorem CallsInTurn.cons {earlier calls : List CheckCall} {c : HealthCheck} {checks : List HealthCheck}
    (h : CallsInTurn (c.call earlier :: earlier) checks calls) :
    CallsInTurn earlier (c :: checks) (c.call earlier :: calls) := by
  constructor
  · rw [List.map_cons, List.map_cons, h.names_eq]
    rfl
  · intro i d hd
    cases i with
    | zero =>
        rw [List.getElem?_cons_zero, Option.some.injEq] at hd
        subst hd
        rfl
    | succ i =>
        have hcall := h.call_eq i d hd
        rw [List.getElem?_cons_succ, hcall, List.take_succ_cons, List.reverse_cons, List.append_assoc]
        rfl

namespace HealthEvaluator

variable {e : HealthEvaluator} {name a b : String} {probe : List CheckCall → Probe}
  {check c : HealthCheck} {checks : List HealthCheck} {history : List HealthRequest} {i j : Nat}

/-- However the calls end, the checks are called in turn, and there is a result of each call. -/
theorem foldl_callNext (checks : List HealthCheck) (earlier : List CheckCall)
    (results : List HealthCheckResult) :
    ∃ calls, CallsInTurn earlier checks calls ∧ checks.foldl callNext (earlier, results) =
      (calls.reverse ++ earlier, results ++ calls.map CheckCall.result) := by
  induction checks generalizing earlier results with
  | nil => exact ⟨[], ⟨rfl, by simp⟩, by simp⟩
  | cons c checks ih =>
      obtain ⟨calls, hturn, hfold⟩ :=
        ih (c.call earlier :: earlier) (results ++ [(c.call earlier).result])
      refine ⟨c.call earlier :: calls, hturn.cons, ?_⟩
      show checks.foldl callNext (c.call earlier :: earlier, results ++ [(c.call earlier).result]) = _
      rw [hfold]
      simp

/-! ## The place of a check -/

theorem map_name_place (check : HealthCheck) (checks : List HealthCheck) :
    (place check checks).map HealthCheck.name =
      if check.name ∈ checks.map HealthCheck.name then checks.map HealthCheck.name
      else checks.map HealthCheck.name ++ [check.name] := by
  induction checks with
  | nil => rfl
  | cons c checks ih =>
      rw [place]
      by_cases hname : c.name = check.name
      · simp [hname]
      · simp only [if_neg hname, List.map_cons, ih, List.mem_cons, Ne.symm hname, false_or]
        split <;> rfl

/-- A check that is placed takes the place of the one of its name, and the others stay. -/
theorem mem_place (hnodup : (checks.map HealthCheck.name).Nodup) :
    c ∈ place check checks ↔ c = check ∨ c ∈ checks ∧ c.name ≠ check.name := by
  induction checks with
  | nil => simp [place]
  | cons d checks ih =>
      rw [List.map_cons, List.nodup_cons] at hnodup
      rw [place]
      split
      case isTrue hname =>
        have hother : c ∈ checks → c.name ≠ check.name := fun hc heq =>
          hnodup.1 (hname ▸ heq ▸ List.mem_map_of_mem hc)
        grind
      case isFalse hname => grind

/-! ## Histories -/

/-- The evaluator after a request more. -/
def serve (e : HealthEvaluator) : HealthRequest → HealthEvaluator
  | .register name probe => e.register name probe
  | .unregister name => e.unregister name
  | .evaluate utilization circuit now => (e.evaluate utilization circuit now).1

/-- A new evaluator after a history of requests, the latest of which comes first. -/
def after (limit : Float) : List HealthRequest → HealthEvaluator
  | [] => { degradedUtilization := limit }
  | request :: earlier => (after limit earlier).serve request

/-- The number of the request with which a name came in: its first registration since it was last
removed. -/
def entered (name : String) : List HealthRequest → Option Nat
  | [] => none
  | .register n _ :: earlier =>
    if n = name then some ((entered name earlier).getD earlier.length) else entered name earlier
  | .unregister n :: earlier => if n = name then none else entered name earlier
  | .evaluate _ _ _ :: earlier => entered name earlier

/-- The newest check of a name, if the name was not removed since. -/
def newest (name : String) : List HealthRequest → Option HealthCheck
  | [] => none
  | .register n probe :: earlier => if n = name then some ⟨n, probe⟩ else newest name earlier
  | .unregister n :: earlier => if n = name then none else newest name earlier
  | .evaluate _ _ _ :: earlier => newest name earlier

theorem entered_lt (h : entered name history = some i) : i < history.length := by
  induction history generalizing i with
  | nil => contradiction
  | cons request earlier ih =>
      rw [List.length_cons]
      cases request with
      | register n probe =>
          rw [entered] at h
          split at h
          · cases hbefore : entered name earlier with
            | none =>
                rw [hbefore, Option.getD_none] at h
                cases h
                exact Nat.lt_succ_self _
            | some k =>
                rw [hbefore, Option.getD_some] at h
                cases h
                exact Nat.lt_succ_of_lt (ih hbefore)
          · exact Nat.lt_succ_of_lt (ih h)
      | unregister n =>
          rw [entered] at h
          split at h
          · contradiction
          · exact Nat.lt_succ_of_lt (ih h)
      | evaluate => exact Nat.lt_succ_of_lt (ih h)

/-- Whether one name came in before another one, and both are still there. -/
def Before (history : List HealthRequest) (a b : String) : Prop :=
  ∃ i j, entered a history = some i ∧ entered b history = some j ∧ i < j

/-- A registration does not move a name that is there. -/
theorem entered_register (h : entered a history = some i) :
    entered a (.register name probe :: history) = some i := by
  rw [entered, h]
  split <;> rfl

theorem Before.register (h : Before history a b) :
    Before (.register name probe :: history) a b := by
  obtain ⟨i, j, ha, hb, hlt⟩ := h
  exact ⟨i, j, entered_register ha, entered_register hb, hlt⟩

/-- A removal moves no other name. -/
theorem Before.unregister (h : Before history a b) (ha : a ≠ name) (hb : b ≠ name) :
    Before (.unregister name :: history) a b := by
  obtain ⟨i, j, hi, hj, hlt⟩ := h
  exact ⟨i, j, by rwa [entered, if_neg ha.symm], by rwa [entered, if_neg hb.symm], hlt⟩

/-- Whether the checks are those that a history leaves. -/
structure KeepsRegister (history : List HealthRequest) (e : HealthEvaluator) : Prop where
  nodup_names : e.names.Nodup
  /-- The names are in the order in which they came in. -/
  inOrder : e.names.Pairwise (Before history)
  mem_names_iff : ∀ name, name ∈ e.names ↔ (entered name history).isSome
  /-- Each check is the newest one of its name. -/
  mem_checks_iff : ∀ c, c ∈ e.checks ↔ newest c.name history = some c

namespace KeepsRegister

variable (h : KeepsRegister history e)
include h

theorem register (name : String) (probe : List CheckCall → Probe) :
    KeepsRegister (.register name probe :: history) (e.register name probe) := by
  have hnames : (e.register name probe).names =
      if name ∈ e.names then e.names else e.names ++ [name] := map_name_place _ _
  have hkept : e.names.Pairwise (Before (.register name probe :: history)) :=
    h.inOrder.imp Before.register
  refine ⟨?_, ?_, fun a => ?_, fun c => ?_⟩
  · rw [hnames]
    split
    · exact h.nodup_names
    · exact h.nodup_names.append (List.nodup_singleton _) (by simpa)
  · rw [hnames]
    split
    case isTrue => exact hkept
    case isFalse hnew =>
      have hlast : entered name (.register name probe :: history) = some history.length := by
        rw [h.mem_names_iff, Option.not_isSome_iff_eq_none] at hnew
        rw [entered, if_pos rfl, hnew, Option.getD_none]
      refine List.pairwise_append.2 ⟨hkept, List.pairwise_singleton _ _, fun a ha b hb => ?_⟩
      rw [List.mem_singleton.1 hb]
      obtain ⟨i, hi⟩ := Option.isSome_iff_exists.1 ((h.mem_names_iff a).1 ha)
      exact ⟨i, history.length, entered_register hi, hlast, entered_lt hi⟩
  · rw [hnames, entered]
    by_cases ha : name = a
    · subst ha
      split <;> simp_all
    · rw [if_neg ha, ← h.mem_names_iff]
      split <;> simp [Ne.symm ha]
  · rw [show (e.register name probe).checks = place ⟨name, probe⟩ e.checks from rfl,
      mem_place h.nodup_names, newest, h.mem_checks_iff]
    by_cases hc : name = c.name
    · simp [hc, eq_comm]
    · simp only [if_neg hc, Ne.symm hc, ne_eq, not_false_eq_true, and_true, or_iff_right_iff_imp]
      rintro rfl
      exact absurd rfl hc

theorem unregister (name : String) :
    KeepsRegister (.unregister name :: history) (e.unregister name) := by
  have hnames : (e.unregister name).names = e.names.filter (· ≠ name) := by
    rw [names, HealthEvaluator.unregister, names, List.filter_map]
    rfl
  refine ⟨?_, ?_, fun a => ?_, fun c => ?_⟩
  · rw [hnames]
    exact h.nodup_names.filter _
  · rw [hnames, List.pairwise_filter]
    exact h.inOrder.imp fun hbefore ha hb =>
      hbefore.unregister (of_decide_eq_true ha) (of_decide_eq_true hb)
  · rw [hnames, List.mem_filter, h.mem_names_iff, entered]
    by_cases ha : name = a
    · simp [ha]
    · simp [ha, Ne.symm ha]
  · rw [HealthEvaluator.unregister, List.mem_filter, h.mem_checks_iff, newest]
    by_cases hc : name = c.name
    · simp [hc]
    · simp [hc, Ne.symm hc]

/-- Calls of checks leave the register as it is. -/
theorem evaluate (utilization : Float) (circuit : Circuit) (now : Instant) :
    KeepsRegister (.evaluate utilization circuit now :: history)
      (e.evaluate utilization circuit now).1 where
  nodup_names := h.nodup_names
  inOrder := h.inOrder
  mem_names_iff := h.mem_names_iff
  mem_checks_iff := h.mem_checks_iff

theorem serve (request : HealthRequest) : KeepsRegister (request :: history) (e.serve request) :=
  match request with
  | .register name probe => h.register name probe
  | .unregister name => h.unregister name
  | .evaluate utilization circuit now => h.evaluate utilization circuit now

end KeepsRegister

theorem keepsRegister_after (limit : Float) (history : List HealthRequest) :
    KeepsRegister history (after limit history) := by
  induction history with
  | nil =>
      exact ⟨.nil, .nil, fun name => by simp [after, names, entered],
        fun c => by simp [after, newest]⟩
  | cons request earlier ih => exact ih.serve request

/-! ## Removals -/

theorem removes_iff : e.removes name = true ↔ name ∈ e.names := by
  rw [removes, decide_eq_true_eq, unregister, ne_eq, List.length_filter_eq_length_iff, names,
    List.mem_map]
  simp

/-- The removal of a name that is not there changes nothing. -/
theorem unregister_of_not_mem (h : name ∉ e.names) : e.unregister name = e := by
  have hkept : e.checks.filter (·.name ≠ name) = e.checks :=
    List.filter_eq_self.2 fun c hc => decide_eq_true fun heq => h (heq ▸ List.mem_map_of_mem hc)
  rw [unregister, hkept]

/-- Without its check the others stay as they were, and in order. -/
theorem unregister_checks {first rest : List HealthCheck} (hnodup : e.names.Nodup)
    (hsplit : e.checks = first ++ c :: rest) : (e.unregister c.name).checks = first ++ rest := by
  rw [names, hsplit, List.map_append, List.map_cons, List.nodup_middle, List.nodup_cons,
    ← List.map_append] at hnodup
  have hkept : (first ++ rest).filter (·.name ≠ c.name) = first ++ rest :=
    List.filter_eq_self.2 fun d hd =>
      decide_eq_true fun heq => hnodup.1 (heq ▸ List.mem_map_of_mem hd)
  rw [unregister, hsplit, List.filter_append, List.filter_cons_of_neg (by simp), ← List.filter_append,
    hkept]

/-! ## Evaluations -/

variable {β : Type}

/-- Whether an evaluation calls all checks and reports on them, on the queue and on the circuit. -/
structure Reports (e : HealthEvaluator) (queue : TaskQueue β) (breaker : Breaker) (r : HealthReport)
    (e' : HealthEvaluator) : Prop where
  /-- Each check is called once, in the order of the register and with all calls before its own on record,
  and there is a result of each call, in the same order. -/
  calls : ∃ calls, CallsInTurn e.calls e.checks calls ∧ e'.calls = calls.reverse ++ e.calls ∧
    List.Forall₂ CheckCall.Gives calls r.checks
  /-- The register stays as it was, however the calls ended. -/
  kept : e' = { e with calls := e'.calls }
  critical_iff : r.status = .critical ↔
    breaker.circuit = .opened ∨ ∃ x ∈ r.checks, x.passed = false
  degraded_iff : r.status = .degraded ↔
    r.status ≠ .critical ∧ e.degradedUtilization < r.queueUtilization
  healthy_iff : r.status = .healthy ↔
    r.status ≠ .critical ∧ ¬e.degradedUtilization < r.queueUtilization
  /-- The fill level is the part of the capacity that is taken. -/
  utilization_eq : r.queueUtilization =
    if queue.capacity = 0 then 0.0 else queue.size.toUInt64.toFloat / queue.capacity.toUInt64.toFloat

/-- The verdict is the worst of the three. -/
theorem verdict_iffs (e : HealthEvaluator) (results : List HealthCheckResult) (utilization : Float)
    (circuit : Circuit) :
    (e.verdict results utilization circuit = .critical ↔
      circuit = .opened ∨ ∃ x ∈ results, x.passed = false) ∧
    (e.verdict results utilization circuit = .degraded ↔
      e.verdict results utilization circuit ≠ .critical ∧ e.degradedUtilization < utilization) ∧
    (e.verdict results utilization circuit = .healthy ↔
      e.verdict results utilization circuit ≠ .critical ∧ ¬e.degradedUtilization < utilization) := by
  have hany : (decide (circuit = .opened) || results.any (!·.passed)) = true ↔
      circuit = .opened ∨ ∃ x ∈ results, x.passed = false := by simp
  rw [verdict, ← hany]
  by_cases hcritical : (decide (circuit = .opened) || results.any (!·.passed)) = true
  · simp [hcritical]
  · by_cases hfull : e.degradedUtilization < utilization <;> simp [hcritical, hfull]

theorem reports (e : HealthEvaluator) (queue : TaskQueue β) (breaker : Breaker) (now : Instant) :
    e.Reports queue breaker (e.evaluate queue.utilization breaker.circuit now).2
      (e.evaluate queue.utilization breaker.circuit now).1 where
  calls := by
    obtain ⟨calls, hturn, hfold⟩ := foldl_callNext e.checks e.calls []
    refine ⟨calls, hturn, congrArg Prod.fst hfold, ?_⟩
    show List.Forall₂ CheckCall.Gives calls (e.checks.foldl callNext (e.calls, [])).2
    rw [hfold, List.nil_append, List.forall₂_map_right_iff, List.forall₂_same]
    exact fun call _ => call.gives_result
  kept := rfl
  critical_iff := (e.verdict_iffs _ _ _).1
  degraded_iff := (e.verdict_iffs _ _ _).2.1
  healthy_iff := (e.verdict_iffs _ _ _).2.2
  utilization_eq := rfl

/-! ## Any history -/

/-- Whether the checks of an evaluator are kept as a map in the order in which the names came in, and its
verdict is that of the worst of them, the circuit and the queue. -/
structure InCharge (limit : Float) (history : List HealthRequest) (e : HealthEvaluator) : Prop where
  keepsRegister : KeepsRegister history e
  /-- A registration puts a name at the end if it is new, and moves none. -/
  register_names : ∀ name probe, (e.register name probe).names =
    if name ∈ e.names then e.names else e.names ++ [name]
  /-- A removal tells whether the name was there. -/
  removes_iff : ∀ name, e.removes name = true ↔ (entered name history).isSome
  unregister_of_not_mem : ∀ name, name ∉ e.names → e.unregister name = e
  /-- It removes the check of that name and nothing else. -/
  unregister_checks : ∀ c first rest, e.checks = first ++ c :: rest →
    (e.unregister c.name).checks = first ++ rest
  limit_eq : e.degradedUtilization = limit
  reports : ∀ {β : Type} (queue : TaskQueue β) (breaker : Breaker) (now : Instant),
    e.Reports queue breaker (e.evaluate queue.utilization breaker.circuit now).2
      (e.evaluate queue.utilization breaker.circuit now).1

theorem degradedUtilization_after (limit : Float) (history : List HealthRequest) :
    (after limit history).degradedUtilization = limit := by
  induction history with
  | nil => rfl
  | cons request earlier ih => cases request <;> exact ih

/-- Whatever was registered, removed and evaluated, an evaluator has the newest check of each name that is
registered, in the order in which the names came in. It calls each check once in an evaluation, one after
the other in this order, reports what each call gave, and finds the engine critical exactly if the circuit
is open or some result is a failure. -/
theorem after_inCharge (limit : Float) (history : List HealthRequest) :
    InCharge limit history (after limit history) where
  keepsRegister := keepsRegister_after limit history
  register_names _ _ := map_name_place _ _
  removes_iff name := removes_iff.trans ((keepsRegister_after limit history).mem_names_iff name)
  unregister_of_not_mem _ := unregister_of_not_mem
  unregister_checks _ _ _ := unregister_checks (keepsRegister_after limit history).nodup_names
  limit_eq := degradedUtilization_after limit history
  reports := (after limit history).reports

-- a name that is registered again keeps its place, and after a removal it comes in at the end
example : (after 0.8 [.register "disk" fun _ => .passed, .register "queue" fun _ => .failed,
    .unregister "disk", .register "queue" fun _ => .passed, .register "disk" fun _ => .passed]).names =
      ["queue", "disk"] := by decide

-- the second check fails whenever the first one was called just before, and the first one breaks off once
example : (after 0.8 [.evaluate 0 .closed 0, .evaluate 0 .closed 0,
    .register "queue" fun calls => if calls.head?.any (·.name = "disk") then .failed else .passed,
    .register "disk" fun calls => if calls.isEmpty then .panicked else .passed]).calls =
      [⟨"queue", .failed⟩, ⟨"disk", .passed⟩, ⟨"queue", .failed⟩, ⟨"disk", .panicked⟩] := by decide

end HealthEvaluator

end Dispatch
