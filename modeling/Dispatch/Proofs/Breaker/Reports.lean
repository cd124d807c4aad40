import Dispatch.Breaker.Reports
import Dispatch.Proofs.Breaker.History
import Dispatch.Proofs.Log
/-!
# The log of a breaker

The main statement of this module says that the log of a breaker is the list of the moves of its
circuit: each move is reported at once, as what it is, and nothing else is. So the messages form a path
from the closed circuit to the present state. This holds for all settings and all orders of calls.
-/

namespace Dispatch

open Breaker

/-- A move of the circuit from one state to another. -/
structure Circuit.Move where
  before : Circuit
  after : Circuit
  /-- What made the circuit move. -/
  event : Event
  movedAt : Instant
deriving DecidableEq

namespace Circuit.Move

/-- The record that reports a move. -/
def record (m : Circuit.Move) : LogRecord where
  level := if m.after = .opened then .warn else .info
  message := "circuit breaker " ++ m.before.text ++ " -> " ++ m.after.text
  loggedAt := m.movedAt.wallMillis

/-- Whether a circuit can move so. -/
def IsLegal (m : Circuit.Move) : Prop :=
  (m.before, m.after) ∈ [(.closed, .opened), (.opened, .halfOpen), (.halfOpen, .closed),
      (.halfOpen, .opened)] ∨
    m.before = .opened ∧ m.after = .closed ∧ m.event = .call .reset

/-- Whether moves follow each other from one state of the circuit to another. -/
def IsPath (first last : Circuit) : List Circuit.Move → Prop
  | [] => first = last
  | m :: later => m.before = first ∧ IsPath m.after last later

theorem IsPath.concat {first last : Circuit} {moves : List Circuit.Move} {m : Circuit.Move}
    (h : IsPath first last moves) (hm : m.before = last) :
    IsPath first m.after (moves ++ [m]) := by
  induction moves generalizing first with
  | nil => exact ⟨hm.trans h.symm, rfl⟩
  | cons n later ih => exact ⟨h.1, ih h.2⟩

end Circuit.Move

namespace Breaker

variable {b : Breaker} {now : Instant}

/-- A call counts one opening more if the circuit comes to be open by it. -/
theorem timesOpened_call (b : Breaker) (now : Instant) (c : Call) : (b.call now c).timesOpened =
    b.timesOpened + if b.circuit ≠ .opened ∧ (b.call now c).circuit = .opened then 1 else 0 := by
  cases c with
  | acquire =>
      by_cases htries : b.TriesNext now
      · simp [call, acquire_of_triesNext htries]
      · obtain ⟨_, heq⟩ := acquire_of_not_triesNext htries
        simp [call, heq]
  | success =>
      by_cases hcloses : b.ClosesNext
      · simp [call, onSuccess_of_closesNext hcloses, close]
      · simp [call, onSuccess_of_not_closesNext hcloses]
  | failure =>
      by_cases hopens : b.OpensNext
      · have hbefore : b.circuit ≠ .opened := by
          rcases hopens with hcircuit | ⟨hcircuit, -⟩ <;> simp [hcircuit]
        simp [call, onFailure_of_opensNext hopens, openAt, hbefore]
      · simp [call, onFailure_of_not_opensNext hopens]
  | reset => simp [call, reset, close]

/-- Only a reset closes an open circuit, and a closed one is never half opened. -/
theorem legal_call (b : Breaker) (now : Instant) (c : Call)
    (h : b.circuit ≠ (b.call now c).circuit) :
    Circuit.Move.IsLegal ⟨b.circuit, (b.call now c).circuit, .call c, now⟩ := by
  cases hcircuit : b.circuit with
  | closed =>
      rw [hcircuit, circuit_call_of_closed hcircuit] at h
      rw [circuit_call_of_closed hcircuit]
      split at h
      · rename_i hopens
        simp [Circuit.Move.IsLegal, hopens]
      · exact absurd rfl h
  | opened =>
      rw [hcircuit, circuit_call_of_opened hcircuit] at h
      rw [circuit_call_of_opened hcircuit]
      split at h
      · rename_i hreset
        simp [Circuit.Move.IsLegal, hreset]
      · split at h
        · rename_i hreset htries
          simp [Circuit.Move.IsLegal, htries]
        · exact absurd rfl h
  | halfOpen =>
      rw [hcircuit, circuit_call_of_halfOpen hcircuit] at h
      rw [circuit_call_of_halfOpen hcircuit]
      split at h
      · rename_i hopens
        simp [Circuit.Move.IsLegal, hopens]
      · split at h
        · rename_i hfailure hcloses
          simp [Circuit.Move.IsLegal, hfailure, hcloses]
        · exact absurd rfl h

/-- The moves of the circuit in a history, the earliest first. -/
def moves (config : BreakerConfig) (start : Instant) : List Event → List Circuit.Move
  | [] => []
  | e :: earlier =>
    let before := (after config start earlier).circuit
    let after := (after config start (e :: earlier)).circuit
    moves config start earlier ++
      if before = after then [] else [⟨before, after, e, clockAfter start earlier⟩]

variable {config : BreakerConfig} {start : Instant} {history : List Event} {e : Event}

theorem moves_of_same
    (h : (after config start history).circuit = (after config start (e :: history)).circuit) :
    moves config start (e :: history) = moves config start history := by
  rw [moves]
  simp only [if_pos h, List.append_nil]

theorem moves_of_ne
    (h : (after config start history).circuit ≠ (after config start (e :: history)).circuit) :
    moves config start (e :: history) = moves config start history ++
      [⟨(after config start history).circuit, (after config start (e :: history)).circuit, e,
        clockAfter start history⟩] := by
  rw [moves]
  simp only [if_neg h]

/-- The moves lead from the closed circuit to the present state. -/
theorem isPath_moves (config : BreakerConfig) (start : Instant) (history : List Event) :
    Circuit.Move.IsPath .closed (after config start history).circuit
      (moves config start history) := by
  induction history with
  | nil => rfl
  | cons e earlier ih =>
      by_cases hsame : (after config start earlier).circuit =
          (after config start (e :: earlier)).circuit
      · rw [moves_of_same hsame, ← hsame]
        exact ih
      · rw [moves_of_ne hsame]
        exact ih.concat (m := ⟨_, _, e, _⟩) rfl

theorem isLegal_of_mem_moves {m : Circuit.Move} (hm : m ∈ moves config start history) :
    m.IsLegal := by
  induction history with
  | nil => contradiction
  | cons e earlier ih =>
      by_cases hsame : (after config start earlier).circuit =
          (after config start (e :: earlier)).circuit
      · rw [moves_of_same hsame] at hm
        exact ih hm
      · rw [moves_of_ne hsame, List.mem_append, List.mem_singleton] at hm
        rcases hm with hm | rfl
        · exact ih hm
        · cases e with
          | advance d => exact absurd rfl hsame
          | call c => exact legal_call _ _ c hsame

/-- A circuit opens as often as it moves to the open state. -/
theorem timesOpened_eq_countP (config : BreakerConfig) (start : Instant) (history : List Event) :
    (after config start history).timesOpened =
      (moves config start history).countP (·.after = .opened) := by
  induction history with
  | nil => rfl
  | cons e earlier ih =>
      have hnext : (after config start (e :: earlier)).timesOpened =
          (after config start earlier).timesOpened +
            if (after config start earlier).circuit ≠ .opened ∧
              (after config start (e :: earlier)).circuit = .opened then 1 else 0 := by
        cases e with
        | advance d =>
            have hnot : ¬((after config start earlier).circuit ≠ .opened ∧
                (after config start earlier).circuit = .opened) := fun h => h.1 h.2
            exact (if_neg hnot ▸ rfl)
        | call c => exact timesOpened_call _ _ c
      by_cases hsame : (after config start earlier).circuit =
          (after config start (e :: earlier)).circuit
      · rw [moves_of_same hsame, hnext, ← hsame, if_neg fun h => h.1 h.2, ih, Nat.add_zero]
      · rw [moves_of_ne hsame, hnext, ih, List.countP_append]
        congr 1
        by_cases hopened : (after config start (e :: earlier)).circuit = .opened
        · simp [hopened, hopened ▸ hsame]
        · simp [hopened]

end Breaker

namespace Reporter

/-- The breaker and its book after a call at an instant. -/
def call (r : Reporter) (now : Instant) : Breaker.Call → Reporter
  | .acquire => (r.acquire now).1
  | .success => r.onSuccess now
  | .failure => r.onFailure now
  | .reset => r.reset now

/-- The breaker and its book after a history. -/
def after (config : BreakerConfig) (start : Instant) (book : LogBook) : List Event → Reporter
  | [] => ⟨{ config := config }, book⟩
  | .call c :: earlier => (after config start book earlier).call (clockAfter start earlier) c
  | .advance _ :: earlier => after config start book earlier

variable {r : Reporter} {now : Instant}

/-- Asking a breaker that reports is asking the breaker. -/
theorem acquire_eq (r : Reporter) (now : Instant) : r.acquire now =
    (⟨(r.breaker.acquire now).1,
      r.log.logChange now r.breaker.circuit (r.breaker.acquire now).1.circuit⟩,
      (r.breaker.acquire now).2) := by
  unfold acquire Breaker.acquire
  by_cases hopened : r.breaker.circuit = .opened
  · cases hleft : r.breaker.remaining? now with
    | some left => simp [hopened, hleft, become, LogBook.logChange]
    | none => simp [hopened, hleft, report, LogBook.logChange]
  · simp [hopened, LogBook.logChange]

theorem onSuccess_eq (r : Reporter) (now : Instant) : r.onSuccess now =
    ⟨r.breaker.onSuccess, r.log.logChange now r.breaker.circuit r.breaker.onSuccess.circuit⟩ := by
  unfold onSuccess Breaker.onSuccess
  by_cases htrial : r.breaker.circuit = .halfOpen
  · by_cases hlast : r.breaker.config.successThreshold ≤ r.breaker.successes + 1
    · simp [htrial, hlast, report, Breaker.close, LogBook.logChange]
    · simp [htrial, hlast, become, LogBook.logChange]
  · simp [htrial, become, LogBook.logChange]

theorem onFailure_eq (r : Reporter) (now : Instant) : r.onFailure now =
    ⟨r.breaker.onFailure now,
      r.log.logChange now r.breaker.circuit (r.breaker.onFailure now).circuit⟩ := by
  obtain ⟨⟨config, circuit, failures, successes, openedAt, timesOpened, rejections⟩, log⟩ := r
  cases circuit with
  | closed =>
      by_cases hlast : config.failureThreshold ≤ min (failures + 1) Breaker.failureLimit
      · simp [onFailure, countedFailure, opens, Breaker.onFailure, hlast, report, Breaker.openAt,
          LogBook.logChange]
      · simp [onFailure, countedFailure, opens, Breaker.onFailure, hlast, become, LogBook.logChange]
  | halfOpen =>
      simp [onFailure, countedFailure, opens, Breaker.onFailure, report, Breaker.openAt,
        LogBook.logChange]
  | opened => simp [onFailure, countedFailure, opens, Breaker.onFailure, become, LogBook.logChange]

theorem reset_eq (r : Reporter) (now : Instant) : r.reset now =
    ⟨r.breaker.reset, r.log.logChange now r.breaker.circuit r.breaker.reset.circuit⟩ := by
  unfold reset
  by_cases hclosed : r.breaker.circuit = .closed
  · simp [hclosed, become, Breaker.reset, Breaker.close, LogBook.logChange]
  · simp [hclosed, report, Breaker.reset, Breaker.close, LogBook.logChange]

/-- A call that reports does what the call does, and logs how the circuit has moved, if it has. -/
theorem call_eq (r : Reporter) (now : Instant) (c : Breaker.Call) : r.call now c =
    ⟨r.breaker.call now c,
      r.log.logChange now r.breaker.circuit (r.breaker.call now c).circuit⟩ := by
  cases c with
  | acquire => exact congrArg Prod.fst (acquire_eq r now)
  | success => exact onSuccess_eq r now
  | failure => exact onFailure_eq r now
  | reset => exact reset_eq r now

theorem gravity_eq (c : Circuit) : c.gravity = if c = .opened then .warn else .info := by
  cases c <;> rfl

theorem logChange_of_ne {book : LogBook} {m : Circuit.Move} (h : m.before ≠ m.after) :
    book.logChange m.movedAt m.before m.after = book.append m.record := by
  rw [LogBook.logChange, if_neg h, LogBook.log, gravity_eq]
  rfl

variable {config : BreakerConfig} {start : Instant} {book : LogBook} {history : List Event}

/-- The log is the list of moves, and reporting does not touch the breaker. -/
theorem after_eq (config : BreakerConfig) (start : Instant) (book : LogBook)
    (history : List Event) : after config start book history =
      ⟨Breaker.after config start history,
        book.addAll ((moves config start history).map Circuit.Move.record)⟩ := by
  induction history with
  | nil => rfl
  | cons e earlier ih =>
      cases e with
      | advance d => rw [after, ih, moves_of_same (e := .advance d) rfl, Breaker.after]
      | call c =>
          rw [after, call_eq, ih]
          by_cases hsame : (Breaker.after config start earlier).circuit =
              (Breaker.after config start (.call c :: earlier)).circuit
          · rw [moves_of_same hsame, LogBook.logChange]
            exact congrArg (Reporter.mk _) (if_pos hsame)
          · rw [moves_of_ne hsame, List.map_append, List.map_singleton, LogBook.addAll_concat]
            exact congrArg (Reporter.mk _) (logChange_of_ne (m := ⟨_, _, .call c, _⟩) hsame)

/-- Whether the log of a breaker is the faithful list of the moves of its circuit. -/
structure LogsMoves (config : BreakerConfig) (start : Instant) (book : LogBook)
    (history : List Event) : Prop where
  /-- Reporting does not touch the breaker. -/
  breaker_eq : (after config start book history).breaker = Breaker.after config start history
  /-- Each move has come into the book, in order, and nothing else. -/
  log_eq : (after config start book history).log =
    book.addAll ((moves config start history).map Circuit.Move.record)
  /-- A book with room for them holds the records of all moves. -/
  records_eq : book.records.length + (moves config start history).length ≤ book.limit →
    (after config start book history).log.records =
      book.records ++ (moves config start history).map Circuit.Move.record
  /-- The moves lead from the closed circuit to the present state. -/
  isPath : Circuit.Move.IsPath .closed (after config start book history).breaker.circuit
    (moves config start history)
  isLegal : ∀ m ∈ moves config start history, m.IsLegal
  /-- All moves to the open state are counted. -/
  timesOpened_eq : (after config start book history).breaker.timesOpened =
    (moves config start history).countP (·.after = .opened)
  /-- What leaves the circuit as it is logs nothing. -/
  log_of_same : ∀ e, (after config start book (e :: history)).breaker.circuit =
      (after config start book history).breaker.circuit →
    (after config start book (e :: history)).log = (after config start book history).log
  /-- What moves the circuit logs this one move. -/
  log_of_ne : ∀ e, (after config start book (e :: history)).breaker.circuit ≠
      (after config start book history).breaker.circuit →
    (after config start book (e :: history)).log =
      (after config start book history).log.append (Circuit.Move.record
        ⟨(after config start book history).breaker.circuit,
          (after config start book (e :: history)).breaker.circuit, e, clockAfter start history⟩)

/-- Whatever a breaker is asked and told, and whenever, its log is the list of the moves of its
circuit. -/
theorem after_logsMoves (config : BreakerConfig) (start : Instant) (book : LogBook)
    (history : List Event) : LogsMoves config start book history where
  breaker_eq := by rw [after_eq]
  log_eq := by rw [after_eq]
  records_eq hroom := by
    rw [after_eq]
    exact LogBook.records_addAll (by rwa [List.length_map])
  isPath := by
    rw [after_eq]
    exact isPath_moves config start history
  isLegal _ hm := isLegal_of_mem_moves hm
  timesOpened_eq := by
    rw [after_eq]
    exact timesOpened_eq_countP config start history
  log_of_same e hsame := by
    simp only [after_eq] at hsame ⊢
    rw [moves_of_same hsame.symm]
  log_of_ne e hne := by
    simp only [after_eq] at hne ⊢
    rw [moves_of_ne (Ne.symm hne), List.map_append, List.map_singleton, LogBook.addAll_concat]

/-- A failed trial: the circuit opens, is half opened, and opens anew. -/
example : (after pairedConfig 0 (.ofLimit 2) failedTrial).log.records.map LogRecord.message =
    ["circuit breaker open -> half_open", "circuit breaker half_open -> open"] := by
  decide

end Reporter

end Dispatch
