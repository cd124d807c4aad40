import Dispatch.Proofs.Task.Body
/-!
# What becomes of a cell

A cell is run and abandoned, in any order and as often as one likes, and at last it delivers. The main
statement of this module says that its body runs once if the first call runs it, and never otherwise, that
each call answers with the status of the outcome that it stores, and that the outcome of the last call is
what is delivered.
-/

namespace Dispatch

variable {α : Type}

/-! ## Outcomes and their statuses -/

/-- Whether a status says what an outcome is. -/
structure JobStatus.Describes (status : JobStatus) (o : Outcome α) : Prop where
  completed_iff : status = .completed ↔ ∃ a, o = .completed a
  failed_iff : ∀ reason, status = .failed reason ↔ o = .failed (.payloadFailed reason)
  cancelled_iff : status = .cancelled ↔ o = .cancelled
  /-- A refusal stands for every other fault. -/
  rejected_iff : status = .rejected ↔ ∃ f, o = .failed f ∧ ∀ reason, f ≠ .payloadFailed reason

theorem JobStatus.ofOutcome_describes (o : Outcome α) : (ofOutcome o).Describes o := by
  cases o with
  | completed a => constructor <;> simp [ofOutcome]
  | cancelled => constructor <;> simp [ofOutcome]
  | failed f => cases f <;> constructor <;> simp [ofOutcome]

/-- The end of a body is a value, a failure of its own, or that it gave up. -/
theorem Ending.ofOutcome_ne_rejected (e : Ending α) : JobStatus.ofOutcome e.outcome ≠ .rejected := by
  cases e with
  | value a => exact JobStatus.noConfusion
  | panic p => exact JobStatus.noConfusion
  | failure f =>
      rw [outcome]
      split
      · exact JobStatus.noConfusion
      · exact JobStatus.noConfusion

/-! ## Calls -/

/-- What is done to a cell before it delivers. -/
inductive CellCall where
  | run
  | abandon (reason : Fault)
deriving DecidableEq, Repr

/-- The outcome that a call is to store after earlier ones. -/
def CellCall.stored (e : Ending α) (earlier : List CellCall) : CellCall → Outcome α
  | run => if earlier = [] then e.outcome else .failed (.internal "task body already consumed")
  | abandon reason => .ofFault reason

namespace Cell

/-- The cell after a call more, with the answer of the call. -/
def serve (c : Cell α) : CellCall → Cell α × JobStatus
  | .run => c.run
  | .abandon reason => c.abandon reason

/-- The cell of a body after some calls, the latest of which comes first. -/
def after (e : Ending α) : List CellCall → Cell α
  | [] => ofEnding e
  | call :: earlier => ((after e earlier).serve call).1

variable {c : Cell α} {e : Ending α} {calls earlier : List CellCall} {call : CellCall}

/-- Whether a cell has its body until the first call, and has run it once if that was a run. -/
structure Spent (e : Ending α) (calls : List CellCall) (c : Cell α) : Prop where
  body_eq : c.body = if calls = [] then some e else none
  runs_eq : c.runs = if calls.getLast? = some .run then 1 else 0

/-- A call spends the body, stores its outcome and answers with the status of that. -/
theorem Spent.serve (h : Spent e earlier c) (call : CellCall) :
    Spent e (call :: earlier) (c.serve call).1 ∧
      HasEnded (call.stored e earlier) (c.serve call) := by
  obtain ⟨hbody, hruns⟩ := h
  cases call with
  | abandon reason =>
      refine ⟨⟨rfl, ?_⟩, hasEnded_abandon c reason⟩
      show c.runs = _
      rw [hruns]
      cases earlier with
      | nil => rfl
      | cons call' earlier => rw [List.getLast?_cons_cons]
  | run =>
      cases earlier with
      | nil =>
          have hrun : c.serve .run = { c with body := none, runs := c.runs + 1 }.finish e.outcome := by
            rw [Cell.serve, run, hbody]
            rfl
          rw [hrun]
          exact ⟨⟨rfl, congrArg (· + 1) hruns⟩, rfl, rfl⟩
      | cons call' earlier =>
          have hrun : c.serve .run = c.abandon consumed := by
            rw [Cell.serve, run, hbody]
            rfl
          rw [hrun]
          refine ⟨⟨rfl, ?_⟩, hasEnded_abandon c consumed⟩
          rw [List.getLast?_cons_cons]
          exact hruns

theorem spent_after (e : Ending α) (calls : List CellCall) : Spent e calls (after e calls) := by
  induction calls with
  | nil => exact ⟨rfl, rfl⟩
  | cons call earlier ih => exact (ih.serve call).1

/-! ## All calls -/

/-- Whether the body of a cell runs at most once, and what is delivered is what the last call answered. -/
structure InStep (e : Ending α) (calls : List CellCall) : Prop where
  /-- The body runs once if the first call is a run, and never otherwise. -/
  runs_eq : (after e calls).runs = if calls.getLast? = some .run then 1 else 0
  delivered_eq_none : calls = [] → (after e calls).delivered = none
  /-- Each call answers with the status of what it stores, and the last one's outcome is delivered. -/
  answers : ∀ call earlier, calls = call :: earlier →
    (after e calls).delivered = some (call.stored e earlier) ∧
      ((after e earlier).serve call).2.Describes (call.stored e earlier)
  /-- A first run is never refused, and a later one always is. -/
  rejected_iff : ∀ earlier, calls = .run :: earlier →
    (((after e earlier).serve .run).2 = .rejected ↔ earlier ≠ [])

theorem after_inStep (e : Ending α) (calls : List CellCall) : InStep e calls where
  runs_eq := (spent_after e calls).runs_eq
  delivered_eq_none := by
    rintro rfl
    rfl
  answers := by
    rintro call earlier rfl
    obtain ⟨hdelivered, hstatus⟩ := ((spent_after e earlier).serve call).2
    rw [hstatus]
    exact ⟨hdelivered, JobStatus.ofOutcome_describes _⟩
  rejected_iff := by
    rintro earlier rfl
    rw [((spent_after e earlier).serve .run).2.2]
    cases earlier with
    | nil => exact iff_of_false e.ofOutcome_ne_rejected (by simp)
    | cons call earlier => exact iff_of_true rfl (by simp)

-- a second run is refused, and its fault is delivered in place of the value
example : (after (.value 7) [.run, .run]).runs = 1 ∧
    (after (.value 7) [.run, .run]).delivered = some (.failed consumed) := by decide

end Cell

end Dispatch
