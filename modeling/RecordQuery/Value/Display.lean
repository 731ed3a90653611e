import RecordQuery.Json.Writer

/-!
Values as plain text: a text stands for itself, a container is compact JSON. An output line shows the
items of a row separated by commas.
-/

namespace RecordQuery.Value

def display : Value → Text
  | .null => "null"
  | .bool b => Text.ofString (if b then "true" else "false")
  | .number n => n.text
  | .text t => t
  | v => Json.write 0 v

-- A value as one result of a run. Objects are JSON, on one line if `compact`.
def line (compact : Bool) : Value → Text
  | .object fields => Json.write (if compact then 0 else 2) (.object fields)
  | .list items => Text.join [44] (items.map display)
  | .tuple items => Text.join [44] (items.map display)
  | v => v.display

end RecordQuery.Value
