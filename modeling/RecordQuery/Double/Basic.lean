/-!
Double precision numbers as data: a sign, a significand and a binary exponent, or one of the values
that are not finite. Every rational number has one nearest double, and every finite double is a
rational number, so arithmetic is exact arithmetic followed by one rounding.
-/

namespace RecordQuery

-- A significand and an exponent that stand for `significand * 2 ^ exponent` in the one way allowed:
-- the significand has 53 bits, or fewer with the least exponent.
def Double.Canonical (significand : Nat) (exponent : Int) : Prop :=
  significand < 0x20000000000000 ∧ -1074 ≤ exponent ∧ exponent ≤ 971 ∧
    (0x10000000000000 ≤ significand ∨ exponent = -1074)

instance (significand : Nat) (exponent : Int) :
    Decidable (Double.Canonical significand exponent) :=
  inferInstanceAs (Decidable (_ ∧ _ ∧ _ ∧ (_ ∨ _)))

inductive Double
  | nan
  | infinite (negative : Bool)
  | finite (negative : Bool) (significand : Nat) (exponent : Int)
      (canonical : Double.Canonical significand exponent)
  deriving DecidableEq

namespace Double

def zero (negative : Bool) : Double := .finite negative 0 (-1074) (by decide)

-- The double with these parts. A significand of 2^53, which rounding can produce, is halved; what is
-- too large for a double is infinite.
def ofParts (negative : Bool) (significand : Nat) (exponent : Int) : Double :=
  if h : Canonical significand exponent then .finite negative significand exponent h
  else if h : Canonical (significand / 2) (exponent + 1) then
    .finite negative (significand / 2) (exponent + 1) h
  else .infinite negative

-- The unit of the `k`-th binary place.
def powerOfTwo (k : Nat) : Nat := 1 <<< k

-- The natural number nearest to `n / d`, the even one of two that are equally near.
def nearest (n d : Nat) : Nat :=
  let below := n / d
  let twice := 2 * (n % d)
  if twice < d then below
  else if twice = d then below + below % 2
  else below + 1

-- The binary logarithm of `n / d`, rounded down, for positive `n` and `d`.
def log2 (n d : Nat) : Int :=
  let k : Int := (n.log2 : Int) - d.log2
  if d <<< k.toNat ≤ n <<< (-k).toNat then k else k - 1

-- The double nearest to `n / d`, with the given sign. The exponent leaves 53 bits to the
-- significand, or is the least one.
def ofFraction (negative : Bool) (n d : Nat) : Double :=
  if n = 0 then zero negative
  else
    let exponent := max (-1074) (log2 n d - 52)
    ofParts negative (nearest (n <<< (-exponent).toNat) (d <<< exponent.toNat)) exponent

-- The double nearest to `n * 2 ^ exponent`, with the given sign.
def ofDyadic (negative : Bool) (n : Nat) (exponent : Int) : Double :=
  if n = 0 then zero negative
  else
    let target := max (-1074) (exponent + n.log2 - 52)
    if target ≤ exponent then ofParts negative (n <<< (exponent - target).toNat) target
    else ofParts negative (nearest n (powerOfTwo (target - exponent).toNat)) target

-- The double nearest to `n * 2 ^ exponent`; `negativeZero` is the sign that zero takes.
def ofScaled (negativeZero : Bool) (n : Int) (exponent : Int) : Double :=
  ofDyadic (if n = 0 then negativeZero else decide (n < 0)) n.natAbs exponent

def ofNat (n : Nat) : Double := ofDyadic false n 0

def ofInt (n : Int) : Double := ofScaled false n 0

-- The magnitude `significand * 2 ^ exponent`. One that is an integer needs no reduced fraction.
def magnitude (significand : Nat) (exponent : Int) : Rat :=
  if 0 ≤ exponent then ((significand <<< exponent.toNat : Nat) : Rat)
  else
    let unit := powerOfTwo (-exponent).toNat
    if significand % unit = 0 then ((significand / unit : Nat) : Rat) else mkRat significand unit

-- A natural number with a sign.
def signed (negative : Bool) (n : Nat) : Int := if negative then -(n : Int) else n

-- The rational number that a finite double is.
def toRat? : Double → Option Rat
  | .finite negative significand exponent _ =>
    some (if negative then -magnitude significand exponent else magnitude significand exponent)
  | _ => none

-- The sign, which zeros and infinities have too.
def isNegative : Double → Bool
  | .nan => false
  | .infinite negative => negative
  | .finite negative _ _ _ => negative

def isNaN : Double → Bool
  | .nan => true
  | _ => false

def isFinite : Double → Bool
  | .finite .. => true
  | _ => false

def isZero : Double → Bool
  | .finite _ significand _ _ => significand == 0
  | _ => false

-- The integer that a double is, if it is one.
def toInt? : Double → Option Int
  | .finite negative significand exponent _ =>
    if 0 ≤ exponent then some (signed negative (significand <<< exponent.toNat))
    else
      let unit := powerOfTwo (-exponent).toNat
      if significand % unit = 0 then some (signed negative (significand / unit)) else none
  | _ => none

-- The largest integer up to which every integer is a double of its own.
def maxSafe : Int := 9007199254740991

-- The integer that a double is, if it is one and no other integer rounds to it.
def toSafeInt? (x : Double) : Option Int :=
  match x.toInt? with
  | some n => if -maxSafe ≤ n ∧ n ≤ maxSafe then some n else none
  | none => none

-- The double with the given 64 bits: sign, 11 bits of exponent and 52 bits of significand.
def ofBits (bits : Nat) : Double :=
  let negative := bits >>> 63 % 2 == 1
  let exponent : Nat := bits >>> 52 % 2048
  let fraction : Nat := bits % 0x10000000000000
  if exponent == 0 then ofParts negative fraction (-1074)
  else if exponent < 2047 then ofParts negative (0x10000000000000 + fraction) ((exponent : Int) - 1075)
  else if fraction == 0 then .infinite negative
  else .nan

end Double

end RecordQuery
