import RecordQuery.Flow
import RecordQuery.Row.Column
import RecordQuery.Value.Key

/-!
The join of two sets of rows on their first columns. The rows of the first set are all read into a
table before the second set is read; each row of the second set is then joined as it comes.
-/

namespace RecordQuery.Row

-- The items of a row with the key of its first column.
structure Keyed where
  key : Text
  items : List Value

def Keyed.of (row : Value) : Except Failure Keyed :=
  match Row.items row (.ofNat 0), column row (.ofNat 0) with
  | .ok items, .ok first => .ok ⟨first.key, items⟩
  | .error e, _ => .error (.column e)
  | _, .error e => .error (.column e)

-- The items of the rows read so far by the keys of the rows, those of one key the last one first.
abbrev Table := Fields (List (List Value))

def Table.add (table : Table) (row : Keyed) : Table :=
  table.set row.key (row.items :: (table.get? row.key).getD [])

-- The tuples that a row makes with the rows of a table that have its key: all of the one and the
-- rest of the other.
def Table.matching (table : Table) (row : Keyed) : List Value :=
  ((table.get? row.key).getD []).reverse.map fun items => .tuple (items ++ row.items.drop 1)

-- The rows of the second set joined to a table of the first.
def joinTo (table : Table) (rows : Flow Value) : Flow Value :=
  rows.expand (fun _ row =>
    ((), match Keyed.of row with
      | .ok row => .ofList (table.matching row)
      | .error e => .failed e)) ()

def join (first second : Flow Value) : Flow Value :=
  first.gather (fun table row => (Keyed.of row).map table.add) (fun table => joinTo table second) []

end RecordQuery.Row
