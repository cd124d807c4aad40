import Dispatch.Config
import Dispatch.Decimal.Reading
import Dispatch.Text.Blank
import Dispatch.Text.Lower
/-!
# Settings from the environment

Twelve variables override settings of the engine. They are applied in a fixed order up to the first
one whose text cannot be read; what was applied before it stays applied. Numbers may stand between
white space. A switch is on exactly if its text is `true` in any case, or `1`.
-/

namespace Dispatch

open Decimal

/-- The start of the name of every variable. -/
def environmentPrefix : String := "TASK_ENGINE_"

/-- An environment: the text of each variable that is set. -/
abbrev Environment := String → Option String

/-- Why the text of a variable cannot be read. -/
inductive VariableFlaw where
  | natural (flaw : NaturalFlaw)
  | float (flaw : FloatFlaw)
  | strategy (name : String)
deriving DecidableEq, Repr

/-- The wording of what is wrong with the variable of the given name. -/
def VariableFlaw.message (key : String) : VariableFlaw → String
  | natural flaw => environmentPrefix ++ key ++ ": " ++ flaw.message
  | float flaw => environmentPrefix ++ key ++ ": " ++ flaw.message
  | strategy name => environmentPrefix ++ key ++ ": unknown strategy `" ++ name ++ "`"

/-- A variable and what its text does to the settings. -/
structure Override where
  /-- The name of the variable after the common start. -/
  key : String
  apply : String → EngineConfig → Except VariableFlaw EngineConfig

namespace Override

/-- The first number that a 64-bit setting cannot hold. -/
def wideBound : Nat := 1 <<< 64

/-- The first number that a 32-bit setting cannot hold. -/
def narrowBound : Nat := 1 <<< 32

/-- An override of a natural number below `bound`. -/
def natural (key : String) (bound : Nat) (set : Nat → EngineConfig → EngineConfig) :
    Override where
  key := key
  apply text c :=
    match readNatural bound (Text.trimBlank text.toList) with
    | .error flaw => .error (.natural flaw)
    | .ok n => .ok (set n c)

/-- Whether the text of a switch means on. -/
def isOn (text : String) : Bool :=
  text.toList.map Char.toLower = ['t', 'r', 'u', 'e'] || text = "1"

/-- An override of a switch. -/
def switch (key : String) (set : Bool → EngineConfig → EngineConfig) : Override where
  key := key
  apply text c := .ok (set (isOn text) c)

/-- The override of the fill level above which the engine counts as degraded. -/
def degradedUtilization : Override where
  key := "DEGRADED_UTILIZATION"
  apply text c :=
    match readFloat (Text.trimBlank text.toList) with
    | .error flaw => .error (.float flaw)
    | .ok x => .ok { c with degradedUtilization := x }

/-- The override of the initial strategy, named in any case. -/
def initialStrategy : Override where
  key := "INITIAL_STRATEGY"
  apply text c :=
    let name := Text.lower text
    match StrategyKind.all.find? (·.text = name) with
    | some kind => .ok { c with initialStrategy := kind }
    | none => .error (.strategy name)

/-- All overrides, in the order in which they are applied. -/
def all : List Override :=
  [natural "WORKER_COUNT" wideBound fun n c => { c with workerCount := n },
   natural "MAX_QUEUE_CAPACITY" wideBound fun n c => { c with maxQueueCapacity := n },
   natural "THREAD_STACK_SIZE" wideBound fun n c => { c with threadStackSize := n },
   switch "WORK_STEALING" fun b c => { c with workStealing := b },
   natural "LATENCY_SAMPLE_CAPACITY" wideBound fun n c => { c with latencySampleCapacity := n },
   degradedUtilization,
   natural "SCHEDULER_TICK_MS" wideBound fun n c => { c with schedulerTickMs := n },
   natural "FAILURE_THRESHOLD" narrowBound fun n c =>
    { c with circuitBreaker := { c.circuitBreaker with failureThreshold := n } },
   natural "SUCCESS_THRESHOLD" narrowBound fun n c => c.withSuccessThreshold n,
   natural "RESET_TIMEOUT_MS" wideBound fun n c =>
    { c with circuitBreaker := { c.circuitBreaker with resetTimeoutMs := n } },
   switch "ADAPTIVE" fun b c => c.withAdaptive b,
   initialStrategy]

end Override

/-- A variable whose text could not be read. -/
structure BadVariable where
  /-- The name of the variable after the common start. -/
  key : String
  flaw : VariableFlaw
deriving DecidableEq, Repr

def BadVariable.message (bad : BadVariable) : String := bad.flaw.message bad.key

namespace EngineConfig

/-- Applies overrides in order, up to the first bad variable. -/
def overrideWith (env : Environment) : List Override → EngineConfig →
    EngineConfig × Option BadVariable
  | [], c => (c, none)
  | o :: rest, c =>
    match env (environmentPrefix ++ o.key) with
    | none => overrideWith env rest c
    | some text =>
      match o.apply text c with
      | .ok c => overrideWith env rest c
      | .error flaw => (c, some ⟨o.key, flaw⟩)

/-- The settings after the environment was applied, and the bad variable at which that stopped. -/
def applyEnvironment (env : Environment) (c : EngineConfig) : EngineConfig × Option BadVariable :=
  overrideWith env Override.all c

/-- Why an environment gives no usable settings. -/
inductive EnvironmentFlaw where
  | unreadable (bad : BadVariable)
  | invalid (flaw : ConfigFlaw)
deriving DecidableEq, Repr

def EnvironmentFlaw.message : EnvironmentFlaw → String
  | unreadable bad => bad.message
  | invalid flaw => flaw.message

/-- The defaults with the environment applied, if they are usable. -/
def ofEnvironment (env : Environment) : Except EnvironmentFlaw EngineConfig :=
  match applyEnvironment env {} with
  | (_, some bad) => .error (.unreadable bad)
  | (c, none) =>
    match c.validate with
    | .error flaw => .error (.invalid flaw)
    | .ok () => .ok c

end EngineConfig

end Dispatch
