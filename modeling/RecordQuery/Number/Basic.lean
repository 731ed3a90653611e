import RecordQuery.Double.Decimal

/-!
Numbers of the query language: doubles, and integers too large for a double to tell them from their
neighbours. An integer has one canonical form, a double within the safe range and exact beyond it.
-/

namespace RecordQuery

inductive Number
  | float (x : Double)
  | big (n : Int)
  deriving DecidableEq

namespace Number

-- The canonical form of an integer.
def ofInt (n : Int) : Number :=
  if -Double.maxSafe ≤ n ∧ n ≤ Double.maxSafe then .float (Double.ofInt n) else .big n

def ofNat (n : Nat) : Number := ofInt n

def zero : Number := .float (Double.zero false)

-- The nearest double.
def toDouble : Number → Double
  | .float x => x
  | .big n => Double.ofInt n

-- The integer that a number is, where its form leaves no doubt about the last digit.
def toExact? : Number → Option Int
  | .float x => x.toSafeInt?
  | .big n => some n

def isZero : Number → Bool
  | .float x => x.isZero
  | .big n => n == 0

def isNaN : Number → Bool
  | .float x => x.isNaN
  | .big _ => false

def neg : Number → Number
  | .float x => .float x.neg
  | .big n => ofInt (-n)

def abs : Number → Number
  | .float x => .float x.abs
  | .big n => .big n.natAbs

def text : Number → Text
  | .float x => x.text
  | .big n => Text.ofInt n

-- The text that equal numbers share: every digit of an integer, in whatever form it comes.
def key : Number → Text
  | .float x =>
    match x.toInt? with
    | some n => Text.ofInt n
    | none => x.text
  | .big n => Text.ofInt n

-- Digits after an optional sign, and nothing else.
def isIntegerText (t : Text) : Bool :=
  let digits := if t.head? == some 43 || t.head? == some 45 then t.drop 1 else t
  !digits.isEmpty && digits.all Text.isDigit

-- The integer that digits after an optional sign spell.
def integerValue (t : Text) : Int :=
  match t with
  | 45 :: digits => -(Text.digitsValue digits : Int)
  | 43 :: digits => Text.digitsValue digits
  | digits => Text.digitsValue digits

def ofIntegerText (t : Text) : Number := ofInt (integerValue t)

end Number

end RecordQuery
