import Dispatch.Log
import Dispatch.Json.Record
import Dispatch.Json.Value
/-!
# Stored log records
-/

namespace Dispatch

open Json

namespace Level

def value (l : Level) : Value := .str l.text

def read : Reader Level := .variant (all.map fun l => (l.text, l))

end Level

namespace LogRecord

def value (r : LogRecord) : Value :=
  .obj [("level", r.level.value), ("message", .str r.message), ("logged_at_ms", .int r.loggedAt)]

def form : RecordForm LogRecord where
  name := "LogRecord"
  start := ⟨.debug, "", 0⟩
  isLenient := false
  fields :=
    [.of "level" Level.read fun l r => { r with level := l },
     .of "message" .string fun s r => { r with message := s },
     .of "logged_at_ms" .nat128 fun n r => { r with loggedAt := n }]

end LogRecord

end Dispatch
