/-!
Sets of code points as ascending ranges, and case mappings as runs of code points that move together.
-/

namespace RecordQuery.Text

-- Ranges of code points, both ends included, in ascending order.
abbrev Ranges := List (Nat × Nat)

-- Whether a code point lies in one of the ranges; the search ends at the first range beyond it.
def Ranges.contains (n : Nat) : Ranges → Bool
  | [] => false
  | (first, last) :: rest => if n < first then false else n ≤ last || contains n rest

-- Every `step`-th code point from `first` to `last` maps to the one as far from `target` as it is
-- from `first`.
structure CaseRun where
  first : Nat
  last : Nat
  step : Nat
  target : Nat

-- The code point that a run maps `n` to.
def CaseRun.image? (run : CaseRun) (n : Nat) : Option Nat :=
  if run.first ≤ n ∧ n ≤ run.last ∧ (n - run.first) % run.step = 0 then
    some (run.target + (n - run.first))
  else none

end RecordQuery.Text
