import RecordQuery.Flow
import RecordQuery.Value.Key

/-!
Rows without repeats: of equal rows the first one stays.
-/

namespace RecordQuery.Row

-- A row after rows with the given keys: nothing if its key is among them.
def unseen (keys : List Text) (row : Value) : List Text × Flow Value :=
  let key := row.key
  if keys.contains key then (keys, .done) else (key :: keys, .ofList [row])

def distinct (rows : Flow Value) : Flow Value := rows.expand unseen []

end RecordQuery.Row
