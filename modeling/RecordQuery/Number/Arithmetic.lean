import RecordQuery.Double.Power
import RecordQuery.Number.Order

/-!
Arithmetic on numbers. Integers stay exact: where doubles would lose digits the result is computed on
integers. Everything else is arithmetic on doubles.
-/

namespace RecordQuery.Number

-- Operations that are exact on integers. A quotient is rounded down and a remainder takes the sign
-- of the divisor.
inductive Operation
  | add
  | sub
  | mul
  | quotient
  | remainder
  | power
  deriving DecidableEq

-- The operation on doubles.
def Operation.onDoubles (op : Operation) (x y : Double) : Double :=
  match op with
  | .add => x + y
  | .sub => x - y
  | .mul => x * y
  | .quotient => (x / y).floor
  | .remainder => x - y * (x / y).floor
  | .power => x.pow y

-- A power of an integer. Powers of 0, 1 and -1 are known whatever the exponent's size.
def intPower (x : Int) (n : Nat) : Int :=
  if n = 0 then 1
  else if x = 0 ∨ x = 1 then x
  else if x = -1 then if n % 2 = 0 then 1 else -1
  else Int.pow x n

-- The operation on integers. Division drops the fraction, so a quotient and a remainder are corrected
-- where there is a rest and the signs differ.
def Operation.onInts (op : Operation) (x y : Int) : Int :=
  let corrected := x.tmod y ≠ 0 ∧ decide (x < 0) ≠ decide (y < 0)
  match op with
  | .add => x + y
  | .sub => x - y
  | .mul => x * y
  | .quotient => if corrected then x.tdiv y - 1 else x.tdiv y
  | .remainder => if corrected then x.tmod y + y else x.tmod y
  | .power => intPower x y.toNat

-- Whether both numbers are doubles.
def areFloats : Number → Number → Bool
  | .float _, .float _ => true
  | _, _ => false

-- The operation on numbers. Two integers have an exact result, which the doubles' result already is
-- when it lies in the safe range; a power with a negative exponent or beyond the range of doubles
-- is a double.
def Operation.apply (op : Operation) (a b : Number) : Number :=
  let approx := op.onDoubles a.toDouble b.toDouble
  match a.toExact?, b.toExact? with
  | some x, some y =>
    if op = .power ∧ y < 0 then .float approx
    else if areFloats a b && approx.toSafeInt?.isSome then .float approx
    else if op = .power ∧ !approx.isFinite then .float approx
    else ofInt (op.onInts x y)
  | _, _ => .float approx

end RecordQuery.Number
