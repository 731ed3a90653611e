import RecordQuery.Flow
import RecordQuery.Row.Column
import RecordQuery.Row.Reducer
import RecordQuery.Value.Key

/-!
Groups of rows that agree in the key columns, each reduced to one tuple: the items in the key
columns, then what every reducer makes of the items in the value column.
-/

namespace RecordQuery.Row

-- How rows are grouped and what is made of a group.
structure Grouping where
  reducers : List Reducer
  keyColumns : List Double
  valueColumn : Double

-- The items in the key columns of the first row, and those in the value column of all rows, the
-- last one first.
structure Group where
  key : List Value
  reversed : List Value

-- The groups so far, in the order of their first rows, by the text that equal keys share.
abbrev Groups := Fields Group

def Groups.add (groups : Groups) (key : List Value) (v : Value) : Groups :=
  let id := (Value.list key).key
  match groups.get? id with
  | some group => groups.set id ⟨group.key, v :: group.reversed⟩
  | none => groups.set id ⟨key, [v]⟩

namespace Grouping

-- The groups after one more row.
def add (grouping : Grouping) (groups : Groups) (row : Value) : Except Failure Groups :=
  match project grouping.keyColumns row with
  | .error e => .error (.column e)
  | .ok key =>
    match column row grouping.valueColumn with
    | .error e => .error (.column e)
    | .ok v => .ok (groups.add key v)

-- The tuple that a group makes.
def tupleOf (grouping : Grouping) (group : Group) : Except Fault Value := do
  let values := group.reversed.reverse
  let reduced ← grouping.reducers.mapM fun reducer => reducer.reduce values
  return .tuple (group.key ++ reduced)

-- The tuples of the groups up to the first that cannot be reduced.
def tuples (grouping : Grouping) : List Group → Flow Value
  | [] => .done
  | group :: rest =>
    match grouping.tupleOf group with
    | .ok tuple => .item tuple fun _ => grouping.tuples rest
    | .error e => .failed (.evaluation (.ofFault e))

end Grouping

def aggregate (grouping : Grouping) (rows : Flow Value) : Flow Value :=
  rows.gather grouping.add (fun groups => grouping.tuples groups.values) []

end RecordQuery.Row
