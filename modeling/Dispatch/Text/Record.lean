/-!
# Records as text

A record is shown as its name and its fields in braces. A record that shows only some of its fields
ends with two dots.
-/

namespace Dispatch.Text

def fieldText (field : String × String) : String := field.1 ++ ": " ++ field.2

/-- The text of a record all of whose fields are shown. -/
def record (name : String) (fields : List (String × String)) : String :=
  name ++ " \x7b " ++ ", ".intercalate (fields.map fieldText) ++ " \x7d"

/-- The text of a record that has more fields than are shown. -/
def partialRecord (name : String) (fields : List (String × String)) : String :=
  name ++ " \x7b " ++ ", ".intercalate (fields.map fieldText) ++ ", .. \x7d"

def truth (b : Bool) : String := if b then "true" else "false"

end Dispatch.Text
