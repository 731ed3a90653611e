import RecordQuery.Double.Power

/-!
Rounding to a number of decimal places by scaling, rounding to an integer and scaling back. Each of
the three steps rounds on its own, so the result can differ from the decimal nearest to the number.
-/

namespace RecordQuery.Double

def isEven (x : Double) : Bool :=
  match x.toInt? with
  | some n => n % 2 == 0
  | none => false

-- The integer nearest to `x`, the even one of two that are equally near.
def roundEven (x : Double) : Double :=
  let half := ofBits 0x3FE0000000000000
  let below := floor x
  let excess := x - below
  if lt half excess then below + one
  else if lt excess half || isEven below then below
  else below + one

-- `x` rounded to `digits` places after the point, before it if `digits` is negative.
def roundTo (x digits : Double) : Double :=
  let factor := pow (ofNat 10) digits
  roundEven (x * factor) / factor

end RecordQuery.Double
