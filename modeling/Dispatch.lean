import Dispatch.Adaptive
import Dispatch.Breaker
import Dispatch.Breaker.Reports
import Dispatch.Breaker.Stored
import Dispatch.Breaker.Text
import Dispatch.Cancellation
import Dispatch.Config
import Dispatch.Config.Environment
import Dispatch.Config.Stored
import Dispatch.Config.Text
import Dispatch.Config.VariableFile
import Dispatch.Decimal.Layout
import Dispatch.Decimal.Reading
import Dispatch.Decimal.Shortest
import Dispatch.Engine
import Dispatch.Engine.Coordinator
import Dispatch.Engine.Requests
import Dispatch.Engine.Timeline
import Dispatch.Fault
import Dispatch.Health
import Dispatch.Health.Stored
import Dispatch.Json.Flaw
import Dispatch.Json.Lexeme
import Dispatch.Json.Reader
import Dispatch.Json.Record
import Dispatch.Json.Skip
import Dispatch.Json.Value
import Dispatch.Log
import Dispatch.Log.Stored
import Dispatch.Metrics
import Dispatch.Metrics.Stored
import Dispatch.Pool
import Dispatch.Pool.Start
import Dispatch.Pool.Stored
import Dispatch.Pool.Workers
import Dispatch.Priority
import Dispatch.Priority.Stored
import Dispatch.Proofs.Breaker.Calls
import Dispatch.Proofs.Breaker.History
import Dispatch.Proofs.Breaker.Reports
import Dispatch.Proofs.Breaker.Retry
import Dispatch.Proofs.Config.Blanks
import Dispatch.Proofs.Config.Environment
import Dispatch.Proofs.Config.Stored
import Dispatch.Proofs.Decimal.Digits
import Dispatch.Proofs.Engine.Alike
import Dispatch.Proofs.Engine.Cancelled
import Dispatch.Proofs.Engine.Circuit
import Dispatch.Proofs.Engine.Deadlines
import Dispatch.Proofs.Engine.Delays
import Dispatch.Proofs.Engine.Final
import Dispatch.Proofs.Engine.Idle
import Dispatch.Proofs.Engine.Immediate
import Dispatch.Proofs.Engine.Launch
import Dispatch.Proofs.Engine.Observers
import Dispatch.Proofs.Engine.Outcomes
import Dispatch.Proofs.Engine.Recurring
import Dispatch.Proofs.Engine.Refused
import Dispatch.Proofs.Engine.Run
import Dispatch.Proofs.Engine.Schedules
import Dispatch.Proofs.Engine.Sessions
import Dispatch.Proofs.Engine.Shutdown
import Dispatch.Proofs.Engine.Starts
import Dispatch.Proofs.Engine.Unobservable
import Dispatch.Proofs.Engine.Wakes
import Dispatch.Proofs.Health
import Dispatch.Proofs.Json.Floats
import Dispatch.Proofs.Json.Lexemes
import Dispatch.Proofs.Json.Overlays
import Dispatch.Proofs.Json.Readers
import Dispatch.Proofs.Json.Records
import Dispatch.Proofs.Json.Skipping
import Dispatch.Proofs.Json.Taking
import Dispatch.Proofs.Json.Written
import Dispatch.Proofs.Log
import Dispatch.Proofs.Metrics.Ranks
import Dispatch.Proofs.Pool.Act
import Dispatch.Proofs.Pool.Admission
import Dispatch.Proofs.Pool.Alert
import Dispatch.Proofs.Pool.Alike
import Dispatch.Proofs.Pool.AlikeRequests
import Dispatch.Proofs.Pool.Announced
import Dispatch.Proofs.Pool.Asleep
import Dispatch.Proofs.Pool.Balance
import Dispatch.Proofs.Pool.Cancelled
import Dispatch.Proofs.Pool.Channels
import Dispatch.Proofs.Pool.Circuit
import Dispatch.Proofs.Pool.Close
import Dispatch.Proofs.Pool.Closing
import Dispatch.Proofs.Pool.Crew
import Dispatch.Proofs.Pool.Growth
import Dispatch.Proofs.Pool.Idle
import Dispatch.Proofs.Pool.Idlers
import Dispatch.Proofs.Pool.Launch
import Dispatch.Proofs.Pool.OpenCircuit
import Dispatch.Proofs.Pool.Over
import Dispatch.Proofs.Pool.Punctual
import Dispatch.Proofs.Pool.Quiet
import Dispatch.Proofs.Pool.Release
import Dispatch.Proofs.Pool.Rest
import Dispatch.Proofs.Pool.Step
import Dispatch.Proofs.Pool.Still
import Dispatch.Proofs.Pool.Taking
import Dispatch.Proofs.Pool.Trace
import Dispatch.Proofs.Pool.Trial
import Dispatch.Proofs.Pool.Turn
import Dispatch.Proofs.Pool.Unseen
import Dispatch.Proofs.Pool.Urgent
import Dispatch.Proofs.Queue.Alike
import Dispatch.Proofs.Queue.AtHand
import Dispatch.Proofs.Queue.Bounded
import Dispatch.Proofs.Queue.Calls
import Dispatch.Proofs.Queue.Checked
import Dispatch.Proofs.Queue.Counters
import Dispatch.Proofs.Queue.Custody
import Dispatch.Proofs.Queue.Dealing
import Dispatch.Proofs.Queue.Exhausted
import Dispatch.Proofs.Queue.Idle
import Dispatch.Proofs.Queue.Line
import Dispatch.Proofs.Queue.Locked
import Dispatch.Proofs.Queue.Observed
import Dispatch.Proofs.Queue.Pieces
import Dispatch.Proofs.Queue.Sharded
import Dispatch.Proofs.Queue.Single
import Dispatch.Proofs.Queue.Stock
import Dispatch.Proofs.Queue.Strategy
import Dispatch.Proofs.Queue.Waits
import Dispatch.Proofs.Recurring.Bookkeeping
import Dispatch.Proofs.Recurring.Calls
import Dispatch.Proofs.Recurring.Grid
import Dispatch.Proofs.Recurring.Lag
import Dispatch.Proofs.Selector.Means
import Dispatch.Proofs.Selector.Spacing
import Dispatch.Proofs.Selector.Streaks
import Dispatch.Proofs.Stored
import Dispatch.Proofs.Sum
import Dispatch.Proofs.Task.Body
import Dispatch.Proofs.Task.Cell
import Dispatch.Proofs.Task.Next
import Dispatch.Proofs.Task.Order
import Dispatch.Queue
import Dispatch.Queue.Calls
import Dispatch.Queue.Contention
import Dispatch.Queue.Kind
import Dispatch.Queue.Locked
import Dispatch.Queue.Sharded
import Dispatch.Queue.Strategy
import Dispatch.Recurring
import Dispatch.Recurring.Identifier
import Dispatch.Task
import Dispatch.Task.Body
import Dispatch.Task.Cell
import Dispatch.Text.Blank
import Dispatch.Text.Hidden
import Dispatch.Text.Lower
import Dispatch.Text.Quoted
import Dispatch.Text.Record
import Dispatch.Time
import Dispatch.Time.Text
