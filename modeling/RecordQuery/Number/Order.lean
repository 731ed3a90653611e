import RecordQuery.Number.Basic

/-!
The order of numbers by exact value, whatever their form, with NaN above all others and equal to
itself.
-/

namespace RecordQuery

-- The order of two doubles neither of which is NaN.
def Double.compare (x y : Double) : Ordering :=
  if lt x y then .lt else if lt y x then .gt else .eq

namespace Number

-- An integer beside a double that is not NaN. A double with a fraction lies so far inside the safe
-- range that the integer nearest to it in size is a double itself, and rounding keeps the order.
def compareToDouble (n : Int) (x : Double) : Ordering :=
  match x.toInt? with
  | some m => Ord.compare n m
  | none =>
    if x.isFinite then (Double.ofInt n).compare x
    else if x.isNegative then .gt
    else .lt

def compare (a b : Number) : Ordering :=
  if a.isNaN then (if b.isNaN then .eq else .gt)
  else if b.isNaN then .lt
  else
    match a, b with
    | .float x, .float y => x.compare y
    | .float x, .big n => (compareToDouble n x).swap
    | .big m, .big n => Ord.compare m n
    | .big n, .float y => compareToDouble n y

end Number

end RecordQuery
