import RecordQuery.Failure
import RecordQuery.Value.Access

/-!
Columns of a row. A row is a list or a tuple; a column is a position in it, counted from the end if
negative.
-/

namespace RecordQuery.Row

-- The items of a row that is asked for a column.
def items (row : Value) (column : Double) : Except ColumnError (List Value) :=
  match row.items? with
  | some items => .ok items
  | none => .error (.noItems column row)

-- The item in a column; a position between two columns means the one nearer to zero.
def column (row : Value) (column : Double) : Except ColumnError Value := do
  let items ← items row column
  match (column.trunc.toInt?.bind (Value.place? items.length)).bind (items[·]?) with
  | some v => .ok v
  | none => .error (.outOfRange column items.length)

-- The items in several columns.
def project (columns : List Double) (row : Value) : Except ColumnError (List Value) :=
  columns.mapM fun c => column row c

end RecordQuery.Row
