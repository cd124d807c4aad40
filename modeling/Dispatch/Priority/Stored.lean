import Dispatch.Priority
import Dispatch.Json.Reader
import Dispatch.Json.Value
/-!
# Stored priorities

A priority is stored as its level. A level that is read is not capped.
-/

namespace Dispatch.Priority

open Json

def value (p : Priority) : Value := .int p.level

def read : Reader Priority := Reader.map Priority.mk .nat8

end Dispatch.Priority
