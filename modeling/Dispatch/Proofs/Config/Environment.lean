import Dispatch.Config.Environment
import Dispatch.Proofs.Decimal.Digits
import Mathlib.Data.List.Forall2
/-!
# What the environment makes of the settings

The main statement of this module says that the environment is laid over the settings, variable by
variable: each setting whose variable is set is what the text of the variable says, and every other
setting stays as it was. At a variable whose text cannot be read this stops: the variables before it
have had their effect, and neither it nor any later one has.
-/

namespace Dispatch

open Decimal

/-! ## Numbers and switches -/

/-- Whether a text stands for a natural number below `bound`: decimal digits, perhaps after a plus
sign, perhaps between white space. -/
def IsNumeral (bound : Nat) (text : String) (n : Nat) : Prop :=
  ∃ digits, (Text.trimBlank text.toList = digits ∨ Text.trimBlank text.toList = '+' :: digits) ∧
    digits ≠ [] ∧ (∀ d ∈ digits, d.isDigit = true) ∧ digitsValue digits = n ∧ n < bound

/-- Numbers are read as what they stand for, and nothing else is read. -/
theorem readNatural_eq_ok_iff {bound n : Nat} {text : String} (hbound : 0 < bound) :
    readNatural bound (Text.trimBlank text.toList) = .ok n ↔ IsNumeral bound text n := by
  unfold IsNumeral
  cases htext : Text.trimBlank text.toList with
  | nil =>
      refine ⟨fun h => by simp [readNatural] at h, ?_⟩
      rintro ⟨digits, rfl | hplus, hne, -⟩
      · exact absurd rfl hne
      · contradiction
  | cons first rest =>
      unfold readNatural
      simp only
      by_cases hplus : first = '+'
      · subst hplus
        cases rest with
        | nil =>
            refine ⟨fun h => by simp at h, ?_⟩
            rintro ⟨digits, rfl | heq, hne, hall, -⟩
            · exact absurd (hall '+' (List.mem_singleton.2 rfl)) (by decide)
            · exact absurd (List.cons.inj heq).2.symm hne
        | cons c rest =>
            simp only [if_true, List.isEmpty_cons, Bool.false_eq_true, if_false]
            rw [takeNatural_eq_ok_iff hbound]
            refine ⟨fun h => ⟨c :: rest, .inr rfl, by simp, h⟩, ?_⟩
            rintro ⟨digits, rfl | heq, -, hall, hvalue⟩
            · exact absurd (hall '+' List.mem_cons_self) (by decide)
            · cases heq
              exact ⟨hall, hvalue⟩
      · simp only [if_neg hplus, List.isEmpty_cons, Bool.false_eq_true, if_false]
        rw [takeNatural_eq_ok_iff hbound]
        refine ⟨fun h => ⟨first :: rest, .inl rfl, by simp, h⟩, ?_⟩
        rintro ⟨digits, rfl | heq, -, hall, hvalue⟩
        · exact ⟨hall, hvalue⟩
        · exact absurd (List.cons.inj heq).1 hplus

/-- A switch is on exactly if its text is the word, in any case of its letters, or the digit. -/
theorem isOn_iff (text : String) :
    Override.isOn text = true ↔ text.toLower = "true" ∨ text = "1" := by
  have hlower : text.toList.map Char.toLower = ['t', 'r', 'u', 'e'] ↔ text.toLower = "true" := by
    rw [← String.toList_inj, show text.toLower = text.map Char.toLower from rfl, String.toList_map]
    rfl
  simp [Override.isOn, hlower]

/-! ## The variables -/

/-- The variables that override settings, in the order in which they are applied. -/
inductive Variable where
  | workerCount
  | maxQueueCapacity
  | threadStackSize
  | workStealing
  | latencySampleCapacity
  | degradedUtilization
  | schedulerTick
  | failureThreshold
  | successThreshold
  | resetTimeout
  | adaptive
  | initialStrategy
deriving DecidableEq

namespace Variable

open Override (wideBound narrowBound)

def all : List Variable :=
  [workerCount, maxQueueCapacity, threadStackSize, workStealing, latencySampleCapacity,
   degradedUtilization, schedulerTick, failureThreshold, successThreshold, resetTimeout, adaptive,
   initialStrategy]

/-- The name of a variable after the common start. -/
def key : Variable → String
  | workerCount => "WORKER_COUNT"
  | maxQueueCapacity => "MAX_QUEUE_CAPACITY"
  | threadStackSize => "THREAD_STACK_SIZE"
  | workStealing => "WORK_STEALING"
  | latencySampleCapacity => "LATENCY_SAMPLE_CAPACITY"
  | degradedUtilization => "DEGRADED_UTILIZATION"
  | schedulerTick => "SCHEDULER_TICK_MS"
  | failureThreshold => "FAILURE_THRESHOLD"
  | successThreshold => "SUCCESS_THRESHOLD"
  | resetTimeout => "RESET_TIMEOUT_MS"
  | adaptive => "ADAPTIVE"
  | initialStrategy => "INITIAL_STRATEGY"

def name (v : Variable) : String := "TASK_ENGINE_" ++ v.key

/-- Whether the text of a variable can be read. Every text of a switch can. -/
def CanRead (text : String) : Variable → Prop
  | workStealing | adaptive => True
  | failureThreshold | successThreshold => ∃ n, IsNumeral narrowBound text n
  | degradedUtilization => ∃ x, readFloat (Text.trimBlank text.toList) = .ok x
  | initialStrategy => Text.lower text = "locked" ∨ Text.lower text = "sharded"
  | _ => ∃ n, IsNumeral wideBound text n

/-- Whether the setting of a variable is what a text says. -/
def Reads (text : String) (c : EngineConfig) : Variable → Prop
  | workerCount => IsNumeral wideBound text c.workerCount
  | maxQueueCapacity => IsNumeral wideBound text c.maxQueueCapacity
  | threadStackSize => IsNumeral wideBound text c.threadStackSize
  | workStealing => c.workStealing = true ↔ text.toLower = "true" ∨ text = "1"
  | latencySampleCapacity => IsNumeral wideBound text c.latencySampleCapacity
  | degradedUtilization => readFloat (Text.trimBlank text.toList) = .ok c.degradedUtilization
  | schedulerTick => IsNumeral wideBound text c.schedulerTickMs
  | failureThreshold => IsNumeral narrowBound text c.circuitBreaker.failureThreshold
  | successThreshold => IsNumeral narrowBound text c.circuitBreaker.successThreshold
  | resetTimeout => IsNumeral wideBound text c.circuitBreaker.resetTimeoutMs
  | adaptive => c.adaptive.enabled = true ↔ text.toLower = "true" ∨ text = "1"
  | initialStrategy => Text.lower text = c.initialStrategy.text

/-- Whether the setting of a variable is the same in two configurations. -/
def Same (c c' : EngineConfig) : Variable → Prop
  | workerCount => c'.workerCount = c.workerCount
  | maxQueueCapacity => c'.maxQueueCapacity = c.maxQueueCapacity
  | threadStackSize => c'.threadStackSize = c.threadStackSize
  | workStealing => c'.workStealing = c.workStealing
  | latencySampleCapacity => c'.latencySampleCapacity = c.latencySampleCapacity
  | degradedUtilization => c'.degradedUtilization = c.degradedUtilization
  | schedulerTick => c'.schedulerTickMs = c.schedulerTickMs
  | failureThreshold => c'.circuitBreaker.failureThreshold = c.circuitBreaker.failureThreshold
  | successThreshold => c'.circuitBreaker.successThreshold = c.circuitBreaker.successThreshold
  | resetTimeout => c'.circuitBreaker.resetTimeoutMs = c.circuitBreaker.resetTimeoutMs
  | adaptive => c'.adaptive.enabled = c.adaptive.enabled
  | initialStrategy => c'.initialStrategy = c.initialStrategy

end Variable

/-- Whether two configurations have the same settings for which there is no variable. -/
structure EngineConfig.SameTuning (c c' : EngineConfig) : Prop where
  samplingIntervalMs_eq : c'.adaptive.samplingIntervalMs = c.adaptive.samplingIntervalMs
  highWaterWaitNs_eq : c'.adaptive.highWaterWaitNs = c.adaptive.highWaterWaitNs
  lowWaterWaitNs_eq : c'.adaptive.lowWaterWaitNs = c.adaptive.lowWaterWaitNs
  minThroughput_eq : c'.adaptive.minThroughput = c.adaptive.minThroughput
  consecutiveWindows_eq : c'.adaptive.consecutiveWindows = c.adaptive.consecutiveWindows
  historyLen_eq : c'.adaptive.historyLen = c.adaptive.historyLen

theorem EngineConfig.SameTuning.symm {c c' : EngineConfig} (h : c.SameTuning c') :
    c'.SameTuning c where
  samplingIntervalMs_eq := h.samplingIntervalMs_eq.symm
  highWaterWaitNs_eq := h.highWaterWaitNs_eq.symm
  lowWaterWaitNs_eq := h.lowWaterWaitNs_eq.symm
  minThroughput_eq := h.minThroughput_eq.symm
  consecutiveWindows_eq := h.consecutiveWindows_eq.symm
  historyLen_eq := h.historyLen_eq.symm

theorem EngineConfig.SameTuning.trans {c c' c'' : EngineConfig} (h : c.SameTuning c')
    (h' : c'.SameTuning c'') : c.SameTuning c'' where
  samplingIntervalMs_eq := h'.samplingIntervalMs_eq.trans h.samplingIntervalMs_eq
  highWaterWaitNs_eq := h'.highWaterWaitNs_eq.trans h.highWaterWaitNs_eq
  lowWaterWaitNs_eq := h'.lowWaterWaitNs_eq.trans h.lowWaterWaitNs_eq
  minThroughput_eq := h'.minThroughput_eq.trans h.minThroughput_eq
  consecutiveWindows_eq := h'.consecutiveWindows_eq.trans h.consecutiveWindows_eq
  historyLen_eq := h'.historyLen_eq.trans h.historyLen_eq

namespace Variable

variable {v : Variable} {text : String} {c c' c'' : EngineConfig}

theorem Same.refl (c : EngineConfig) (v : Variable) : v.Same c c := by
  cases v <;> exact rfl

theorem Same.symm (h : v.Same c c') : v.Same c' c := by
  cases v <;> exact Eq.symm h

theorem Same.trans (h : v.Same c c') (h' : v.Same c' c'') : v.Same c c'' := by
  cases v <;> exact Eq.trans h' h

/-- What a text says of a setting depends on this setting alone. -/
theorem Reads.congr (h : v.Reads text c) (hsame : v.Same c c') : v.Reads text c' := by
  cases v <;> (simp only [Same] at hsame; simp only [Reads, hsame]; exact h)

/-! ## One variable -/

/-- Whether an override does what the text of a variable says, and nothing else. -/
structure Implements (v : Variable) (o : Override) : Prop where
  key_eq : o.key = v.key
  of_ok : ∀ {text c c'}, o.apply text c = .ok c' →
    v.CanRead text ∧ v.Reads text c' ∧ (∀ u, u ≠ v → u.Same c c') ∧ c.SameTuning c'
  of_error : ∀ {text c flaw}, o.apply text c = .error flaw →
    ¬v.CanRead text ∧ ∃ why, flaw.message o.key = v.name ++ ": " ++ why

/-- Whether a way to set a value touches the setting of a variable at most. -/
structure SetsOnly {α : Type} (v : Variable) (set : α → EngineConfig → EngineConfig) : Prop where
  same : ∀ a c u, u ≠ v → u.Same c (set a c)
  sameTuning : ∀ a (c : EngineConfig), c.SameTuning (set a c)

theorem implements_natural {bound : Nat} {set : Nat → EngineConfig → EngineConfig}
    (hbound : 0 < bound) (hread : ∀ text, v.CanRead text ↔ ∃ n, IsNumeral bound text n)
    (hreads : ∀ {text n c}, IsNumeral bound text n → v.Reads text (set n c))
    (honly : v.SetsOnly set) : v.Implements (.natural v.key bound set) where
  key_eq := rfl
  of_ok {text c c'} happly := by
    simp only [Override.natural] at happly
    split at happly
    · contradiction
    · rename_i n hn
      cases happly
      have hnumeral := (readNatural_eq_ok_iff hbound).1 hn
      exact ⟨(hread text).2 ⟨n, hnumeral⟩, hreads hnumeral, honly.same n c, honly.sameTuning n c⟩
  of_error {text c flaw} happly := by
    simp only [Override.natural] at happly
    split at happly
    · rename_i f hf
      cases happly
      refine ⟨fun hcan => ?_, f.message, rfl⟩
      obtain ⟨n, hn⟩ := (hread text).1 hcan
      rw [(readNatural_eq_ok_iff hbound).2 hn] at hf
      contradiction
    · contradiction

theorem implements_switch {set : Bool → EngineConfig → EngineConfig}
    (hread : ∀ text, v.CanRead text)
    (hreads : ∀ {text c}, v.Reads text (set (Override.isOn text) c))
    (honly : v.SetsOnly set) : v.Implements (.switch v.key set) where
  key_eq := rfl
  of_ok {text c c'} happly := by
    cases happly
    exact ⟨hread text, hreads, honly.same _ c, honly.sameTuning _ c⟩
  of_error happly := by
    simp [Override.switch] at happly

theorem implements_degradedUtilization :
    degradedUtilization.Implements Override.degradedUtilization where
  key_eq := rfl
  of_ok {text c c'} happly := by
    simp only [Override.degradedUtilization] at happly
    split at happly
    · contradiction
    · rename_i x hx
      cases happly
      refine ⟨⟨x, hx⟩, hx, fun u hu => ?_, ⟨rfl, rfl, rfl, rfl, rfl, rfl⟩⟩
      cases u <;> first | exact rfl | exact absurd rfl hu
  of_error {text c flaw} happly := by
    simp only [Override.degradedUtilization] at happly
    split at happly
    · rename_i f hf
      cases happly
      refine ⟨?_, f.message, rfl⟩
      rintro ⟨x, hx⟩
      rw [hx] at hf
      contradiction
    · contradiction

theorem implements_initialStrategy : initialStrategy.Implements Override.initialStrategy where
  key_eq := rfl
  of_ok {text c c'} happly := by
    simp only [Override.initialStrategy] at happly
    split at happly
    · rename_i kind hkind
      cases happly
      have hname : kind.text = Text.lower text := by
        have := List.find?_some hkind
        simpa using this
      refine ⟨?_, hname.symm, fun u hu => ?_, ⟨rfl, rfl, rfl, rfl, rfl, rfl⟩⟩
      · cases kind
        · exact .inl hname.symm
        · exact .inr hname.symm
      · cases u <;> first | exact rfl | exact absurd rfl hu
    · contradiction
  of_error {text c flaw} happly := by
    simp only [Override.initialStrategy] at happly
    split at happly
    · contradiction
    · rename_i hnone
      cases happly
      rw [List.find?_eq_none] at hnone
      refine ⟨?_, "unknown strategy `" ++ Text.lower text ++ "`", ?_⟩
      · rintro (hlocked | hsharded)
        · exact hnone .locked (by simp [StrategyKind.all]) (by simp [hlocked, StrategyKind.text])
        · exact hnone .sharded (by simp [StrategyKind.all]) (by simp [hsharded, StrategyKind.text])
      · have hsplit : ": unknown strategy `" = ": " ++ "unknown strategy `" := rfl
        rw [VariableFlaw.message, hsplit, ← String.append_assoc]
        simp only [String.append_assoc]
        rfl

theorem wideBound_pos : 0 < Override.wideBound := by decide

theorem narrowBound_pos : 0 < Override.narrowBound := by decide

/-- The overrides are those of the variables, in order. -/
theorem implements_all : List.Forall₂ Implements all Override.all := by
  refine .cons (implements_natural wideBound_pos (fun _ => Iff.rfl) id ⟨?_, ?_⟩) <|
    .cons (implements_natural wideBound_pos (fun _ => Iff.rfl) id ⟨?_, ?_⟩) <|
    .cons (implements_natural wideBound_pos (fun _ => Iff.rfl) id ⟨?_, ?_⟩) <|
    .cons (implements_switch (fun _ => trivial) (isOn_iff _) ⟨?_, ?_⟩) <|
    .cons (implements_natural wideBound_pos (fun _ => Iff.rfl) id ⟨?_, ?_⟩) <|
    .cons implements_degradedUtilization <|
    .cons (implements_natural wideBound_pos (fun _ => Iff.rfl) id ⟨?_, ?_⟩) <|
    .cons (implements_natural narrowBound_pos (fun _ => Iff.rfl) id ⟨?_, ?_⟩) <|
    .cons (implements_natural narrowBound_pos (fun _ => Iff.rfl) id ⟨?_, ?_⟩) <|
    .cons (implements_natural wideBound_pos (fun _ => Iff.rfl) id ⟨?_, ?_⟩) <|
    .cons (implements_switch (fun _ => trivial) (isOn_iff _) ⟨?_, ?_⟩) <|
    .cons implements_initialStrategy .nil
  all_goals
    first
    | exact fun _ _ => ⟨rfl, rfl, rfl, rfl, rfl, rfl⟩
    | (intro a c u hu
       cases u <;> first | exact rfl | exact absurd rfl hu)

/-! ## All variables -/

/-- Whether some settings are what the variables say that are set, and the others are as before. -/
structure Applied (env : Environment) (vs : List Variable) (c c' : EngineConfig) : Prop where
  reads : ∀ v ∈ vs, ∀ text, env v.name = some text → v.CanRead text ∧ v.Reads text c'
  same_of_unset : ∀ v ∈ vs, env v.name = none → v.Same c c'
  same_of_not_mem : ∀ v, v ∉ vs → v.Same c c'
  sameTuning : c.SameTuning c'

variable {env : Environment} {vs : List Variable} {o : Override}

theorem Applied.nil (env : Environment) (c : EngineConfig) : Applied env [] c c where
  reads := by simp
  same_of_unset := by simp
  same_of_not_mem v _ := Same.refl c v
  sameTuning := ⟨rfl, rfl, rfl, rfl, rfl, rfl⟩

theorem Applied.cons_unset (hunset : env v.name = none) (hv : v ∉ vs)
    (h : Applied env vs c c') : Applied env (v :: vs) c c' where
  reads := by
    rw [List.forall_mem_cons]
    exact ⟨fun text htext => by simp [hunset] at htext, h.reads⟩
  same_of_unset := by
    rw [List.forall_mem_cons]
    exact ⟨fun _ => h.same_of_not_mem v hv, h.same_of_unset⟩
  same_of_not_mem u hu := h.same_of_not_mem u (List.not_mem_of_not_mem_cons hu)
  sameTuning := h.sameTuning

theorem Applied.cons_set (ho : v.Implements o) (htext : env v.name = some text)
    (happly : o.apply text c = .ok c') (hv : v ∉ vs) (h : Applied env vs c' c'') :
    Applied env (v :: vs) c c'' := by
  obtain ⟨hcan, hreads, hother, htuning⟩ := ho.of_ok happly
  refine ⟨?_, ?_, fun u hu => ?_, htuning.trans h.sameTuning⟩
  · rw [List.forall_mem_cons]
    refine ⟨fun text' htext' => ?_, h.reads⟩
    cases htext.symm.trans htext'
    exact ⟨hcan, hreads.congr (h.same_of_not_mem v hv)⟩
  · rw [List.forall_mem_cons]
    refine ⟨fun hunset => by simp [htext] at hunset, fun u hu hunset => ?_⟩
    exact (hother u fun heq => hv (heq ▸ hu)).trans (h.same_of_unset u hu hunset)
  · rw [List.mem_cons, not_or] at hu
    exact (hother u hu.1).trans (h.same_of_not_mem u hu.2)

/-- Whether the application of variables stopped at the first of them whose text cannot be read. -/
structure StopsAt (env : Environment) (vs : List Variable) (c c' : EngineConfig)
    (bad : BadVariable) : Prop where
  /-- What comes before it has been applied, and nothing else. -/
  exists_split : ∃ earlier v later, vs = earlier ++ v :: later ∧ Applied env earlier c c' ∧
    (∃ text, env v.name = some text ∧ ¬v.CanRead text) ∧
    bad.key = v.key ∧ ∃ why, bad.message = v.name ++ ": " ++ why

theorem StopsAt.cons {bad : BadVariable} (hv : v ∉ vs) (h : StopsAt env vs c' c'' bad)
    (hfirst : ∀ earlier, v ∉ earlier → Applied env earlier c' c'' →
      Applied env (v :: earlier) c c'') : StopsAt env (v :: vs) c c'' bad := by
  obtain ⟨earlier, u, later, rfl, happlied, hbad⟩ := h.exists_split
  refine ⟨v :: earlier, u, later, rfl, hfirst earlier ?_ happlied, hbad⟩
  exact fun hmem => hv (List.mem_append_left _ hmem)

/-- Overrides are applied one after the other, up to the first text that cannot be read. -/
theorem overrideWith_cases (env : Environment) {os : List Override}
    (h : List.Forall₂ Implements vs os) (hnodup : vs.Nodup) (c : EngineConfig) :
    (EngineConfig.overrideWith env os c).2 = none ∧
        Applied env vs c (EngineConfig.overrideWith env os c).1 ∨
      ∃ bad, (EngineConfig.overrideWith env os c).2 = some bad ∧
        StopsAt env vs c (EngineConfig.overrideWith env os c).1 bad := by
  induction h generalizing c with
  | nil => exact .inl ⟨rfl, .nil env c⟩
  | @cons v o vs os ho _ ih =>
      rw [List.nodup_cons] at hnodup
      have hname : env (environmentPrefix ++ o.key) = env v.name := by rw [ho.key_eq]; rfl
      rw [EngineConfig.overrideWith, hname]
      cases hvalue : env v.name with
      | none =>
          rcases ih hnodup.2 c with ⟨hnone, happlied⟩ | ⟨bad, hbad, hstops⟩
          · exact .inl ⟨hnone, happlied.cons_unset hvalue hnodup.1⟩
          · refine .inr ⟨bad, hbad, hstops.cons hnodup.1 fun earlier hearlier happlied => ?_⟩
            exact happlied.cons_unset hvalue hearlier
      | some text =>
          cases happly : o.apply text c with
          | ok c' =>
              simp only [happly]
              rcases ih hnodup.2 c' with ⟨hnone, happlied⟩ | ⟨bad, hbad, hstops⟩
              · exact .inl ⟨hnone, happlied.cons_set ho hvalue happly hnodup.1⟩
              · refine .inr ⟨bad, hbad, hstops.cons hnodup.1 fun earlier hearlier happlied => ?_⟩
                exact happlied.cons_set ho hvalue happly hearlier
          | error flaw =>
              simp only [happly]
              obtain ⟨hcannot, hwhy⟩ := ho.of_error happly
              exact .inr ⟨_, rfl, [], v, vs, rfl, .nil env c, ⟨text, hvalue, hcannot⟩, ho.key_eq,
                hwhy⟩

end Variable

namespace EngineConfig

open Variable (all)

/-- Whether the environment is laid over settings: what comes of them, and the bad variable, if
there is one. -/
structure OverlaidBy (env : Environment) (c c' : EngineConfig) (bad? : Option BadVariable) :
    Prop where
  /-- All is well exactly if the text of each variable that is set can be read. -/
  ok_iff : bad? = none ↔ ∀ v text, env (Variable.name v) = some text → v.CanRead text
  /-- Then each setting is what its variable says, if that is set. -/
  reads : bad? = none → ∀ v text, env (Variable.name v) = some text → v.Reads text c'
  /-- If it is not, the setting is as before. -/
  same : bad? = none → ∀ v, env (Variable.name v) = none → v.Same c c'
  /-- Else the message names the first variable whose text cannot be read. The variables before it
  have been applied, and the other settings are as before. -/
  stops : ∀ bad, bad? = some bad → ∃ earlier v later, all = earlier ++ v :: later ∧
    (∃ text, env v.name = some text ∧ ¬v.CanRead text) ∧
    (∃ why, bad.message = v.name ++ ": " ++ why) ∧
    (∀ u ∈ earlier, ∀ text, env u.name = some text → u.CanRead text ∧ u.Reads text c') ∧
    (∀ u ∈ earlier, env u.name = none → u.Same c c') ∧
    ∀ u ∈ v :: later, u.Same c c'
  /-- Settings without a variable are as before in any case. -/
  sameTuning : c.SameTuning c'

theorem mem_all (v : Variable) : v ∈ all := by
  cases v <;> decide

theorem nodup_all : all.Nodup := by decide

/-- Whatever texts the environment assigns to its variables, it is laid over the settings pointwise,
up to the first variable that is bad. Settings that are made of an environment alone, whether it was
read from a file or not, are usable. -/
theorem applyEnvironment_overlays (env : Environment) (c : EngineConfig) :
    OverlaidBy env c (c.applyEnvironment env).1 (c.applyEnvironment env).2 ∧
      ∀ c', ofEnvironment env = .ok c' ↔
        ({} : EngineConfig).applyEnvironment env = (c', none) ∧ c'.validate = .ok () := by
  refine ⟨?_, fun c' => ?_⟩
  · rcases Variable.overrideWith_cases env Variable.implements_all nodup_all c with
      ⟨hnone, happlied⟩ | ⟨bad, hbad, hstops⟩
    · have hok : (c.applyEnvironment env).2 = none := hnone
      exact
        { ok_iff := iff_of_true hok fun v text htext =>
            (happlied.reads v (mem_all v) text htext).1
          reads := fun _ v text htext => (happlied.reads v (mem_all v) text htext).2
          same := fun _ v hunset => happlied.same_of_unset v (mem_all v) hunset
          stops := fun bad hbad => by simp [hok] at hbad
          sameTuning := happlied.sameTuning }
    · have hsome : (c.applyEnvironment env).2 = some bad := hbad
      obtain ⟨earlier, v, later, hall, happlied, ⟨text, htext, hcannot⟩, -, hwhy⟩ :=
        hstops.exists_split
      have hdisjoint : ∀ u ∈ v :: later, u ∉ earlier := by
        have := List.nodup_append.1 (hall ▸ nodup_all)
        exact fun u hu hmem => this.2.2 u hmem u hu rfl
      exact
        { ok_iff := iff_of_false (by simp [hsome]) fun h => hcannot (h v text htext)
          reads := fun hnone => by simp [hsome] at hnone
          same := fun hnone => by simp [hsome] at hnone
          stops := fun bad' hbad' => by
            cases hsome.symm.trans hbad'
            exact ⟨earlier, v, later, hall, ⟨text, htext, hcannot⟩, hwhy, happlied.reads,
              happlied.same_of_unset,
              fun u hu => happlied.same_of_not_mem u (hdisjoint u hu)⟩
          sameTuning := happlied.sameTuning }
  · unfold ofEnvironment
    cases happly : ({} : EngineConfig).applyEnvironment env with
    | mk c₀ bad? =>
        cases bad? with
        | some bad => simp
        | none =>
            cases hvalid : c₀.validate with
            | error flaw =>
                simp only [hvalid, reduceCtorEq, Prod.mk.injEq, and_true, false_iff, not_and]
                rintro rfl
                simp [hvalid]
            | ok =>
                simp only [hvalid, Except.ok.injEq, Prod.mk.injEq, and_true]
                exact ⟨fun h => ⟨h, h ▸ hvalid⟩, And.left⟩

end EngineConfig

end Dispatch
