import RecordQuery.Value.Order

/-!
The value of a given rank, found without sorting everything: the values are split around a pivot from
both ends, and the search goes on in the part that holds the rank.
-/

namespace RecordQuery.Value

-- The first place from `i` on whose value is not below the pivot.
def scanUp (values : Array Value) (pivot : Value) (i : Nat) : Nat :=
  if h : i < values.size then
    if compare values[i] pivot == .lt then scanUp values pivot (i + 1) else i
  else i
termination_by values.size - i

-- The end of the values before `stop` once those above the pivot are left out at the end.
def scanDown (values : Array Value) (pivot : Value) : Nat → Nat
  | 0 => 0
  | stop + 1 =>
    if h : stop < values.size then
      if compare values[stop] pivot == .gt then scanDown values pivot stop else stop + 1
    else stop + 1

-- The values split around the pivot between `i` and `stop`, with the places where the scans met.
structure Partition where
  values : Array Value
  upper : Nat
  lower : Nat

theorem le_scanUp (values : Array Value) (pivot : Value) (i : Nat) : i ≤ scanUp values pivot i := by
  fun_induction scanUp values pivot i with
  | case1 i _ _ ih => omega
  | case2 => exact Nat.le_refl _
  | case3 => exact Nat.le_refl _

theorem scanDown_le (values : Array Value) (pivot : Value) (stop : Nat) :
    scanDown values pivot stop ≤ stop := by
  fun_induction scanDown values pivot stop with
  | case1 => exact Nat.le_refl _
  | case2 stop _ _ ih => omega
  | case3 => exact Nat.le_refl _
  | case4 => exact Nat.le_refl _

def partition (values : Array Value) (pivot : Value) (i stop : Nat) : Partition :=
  if i < stop then
    let up := scanUp values pivot i
    let down := scanDown values pivot stop
    if up < down then
      partition (values.swapIfInBounds up (down - 1)) pivot (up + 1) (down - 1)
    else ⟨values, up, down⟩
  else ⟨values, i, stop⟩
termination_by stop - i
decreasing_by
  have := le_scanUp values pivot i
  have := scanDown_le values pivot stop
  omega

-- The value of rank `rank` among those from `first` to before `stop`. Each round goes on with fewer
-- values.
def rankFrom (values : Array Value) (rank first stop : Nat) : Option Value :=
  if first + 1 < stop then
    match values[first + (stop - 1 - first) / 2]? with
    | none => none
    | some pivot =>
      match partition values pivot first stop with
      | ⟨parts, upper, lower⟩ =>
        if rank < lower then
          if lower < stop then rankFrom parts rank first lower else parts[rank]?
        else if upper ≤ rank then
          if first < upper then rankFrom parts rank upper stop else parts[rank]?
        else parts[rank]?
  else values[rank]?
termination_by stop - first

-- The value at place `rank` of the sorted values, if they are so many.
def ofRank? (values : List Value) (rank : Nat) : Option Value :=
  if rank < values.length then rankFrom values.toArray rank 0 values.length else none

end RecordQuery.Value
