import RecordQuery.Flow

/-!
A limit on the number of rows. Zero means no limit; a count that is no integer lets through the row
that reaches it.
-/

namespace RecordQuery.Row

-- How many rows a count lets through, at least one; nothing where there is no limit.
def bound? (count : Double) : Option Nat :=
  if count.isZero || count.isNaN then none
  else
    match count.ceil.toInt? with
    | some n => some (max 1 n.toNat)
    | none => if count.isNegative then some 1 else none

def limit {α : Type} (count : Double) (rows : Flow α) : Flow α :=
  match bound? count with
  | some n => rows.take n
  | none => rows

end RecordQuery.Row
