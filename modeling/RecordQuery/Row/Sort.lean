import RecordQuery.Flow
import RecordQuery.Row.Column
import RecordQuery.Value.Order

/-!
Rows in the order of some of their columns, the earlier columns first. Rows that agree in them stay
in the order they came in, also when the order is reversed.
-/

namespace RecordQuery.Row

-- Which columns to sort by, and in which direction.
structure SortOrder where
  columns : List Double
  reversed : Bool

-- A row with its items in the sort columns.
structure Sortable where
  key : List Value
  row : Value

-- Whether one row may stand before another.
def SortOrder.allows (order : SortOrder) (a b : Sortable) : Bool :=
  let comparison := Value.compareItems a.key b.key
  if order.reversed then comparison.isGE else comparison.isLE

def SortOrder.sort (order : SortOrder) (rows : List Sortable) : List Sortable :=
  rows.mergeSort order.allows

def SortOrder.prepare (order : SortOrder) (row : Value) : Except Failure Sortable :=
  match project order.columns row with
  | .ok key => .ok ⟨key, row⟩
  | .error e => .error (.column e)

def sort (order : SortOrder) (rows : Flow Value) : Flow Value :=
  rows.gather (fun sorted row => do return (← order.prepare row) :: sorted)
    (fun rows => .ofList ((order.sort rows.reverse).map Sortable.row)) []

end RecordQuery.Row
