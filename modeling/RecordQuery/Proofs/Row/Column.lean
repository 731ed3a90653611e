import Mathlib.Tactic
import RecordQuery.Row.Column

/-!
What a row has in its columns. A row either lacks a column or has an item in it, and several columns
are asked for up to the first that is lacking.
-/

namespace RecordQuery.Row

-- The place that a column means in a row with so many items.
def position? (column : Double) (length : Nat) : Option Nat :=
  column.trunc.toInt?.bind (Value.place? length)

-- Why a row has no item in a column.
def lacks? (row : Value) (column : Double) : Option ColumnError :=
  match row.items? with
  | none => some (.noItems column row)
  | some items =>
    if (position? column items.length).isSome then none
    else some (.outOfRange column items.length)

-- The item in a column of a row that has it.
def cell (row : Value) (column : Double) : Value :=
  ((row.items?.bind fun items => (position? column items.length).bind (items[·]?)).getD .null)

theorem cell_eq_null_or_mem (row : Value) (c : Double) :
    cell row c = .null ∨ ∃ items, row.items? = some items ∧ cell row c ∈ items := by
  rw [cell]
  cases hcell : row.items?.bind fun items => (position? c items.length).bind (items[·]?) with
  | none => exact .inl rfl
  | some v =>
    obtain ⟨items, hitems, hv⟩ := Option.bind_eq_some_iff.mp hcell
    obtain ⟨i, -, hi⟩ := Option.bind_eq_some_iff.mp hv
    exact .inr ⟨items, hitems, List.mem_of_getElem? hi⟩

theorem lt_of_position? {column : Double} {length i : Nat} (h : position? column length = some i) :
    i < length := by
  obtain ⟨n, -, hn⟩ := Option.bind_eq_some_iff.mp h
  simp only [Value.place?] at hn
  split at hn <;> grind

theorem column_eq (row : Value) (c : Double) :
    column row c = (lacks? row c).elim (.ok (cell row c)) .error := by
  rw [column, Row.items, lacks?, cell]
  cases row.items? with
  | none => rfl
  | some items =>
    have hplace : c.trunc.toInt?.bind (Value.place? items.length) = position? c items.length := rfl
    simp only [bind, Except.bind, hplace, Option.bind_some]
    cases h : position? c items.length with
    | none => rfl
    | some i => simp [List.getElem?_eq_getElem (lt_of_position? h)]

-- The first of several columns that a row lacks.
def lacksAny? (columns : List Double) (row : Value) : Option Failure :=
  (columns.findSome? (lacks? row)).map .column

def cells (columns : List Double) (row : Value) : List Value := columns.map (cell row)

theorem project_eq (columns : List Double) (row : Value) : project columns row =
    (columns.findSome? (lacks? row)).elim (.ok (cells columns row)) .error := by
  induction columns with
  | nil => rfl
  | cons c rest ih =>
    rw [project, List.mapM_cons, column_eq, List.findSome?_cons]
    cases lacks? row c with
    | some e => rfl
    | none =>
      change (project rest row >>= fun items => pure (cell row c :: items)) = _
      rw [ih]
      cases rest.findSome? (lacks? row) <;> rfl

end RecordQuery.Row
