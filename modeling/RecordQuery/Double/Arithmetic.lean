import RecordQuery.Double.Basic

/-!
Arithmetic on doubles. Finite operands are combined exactly and the result is rounded once; the other
cases follow the rules for zeros, infinities and NaN.
-/

namespace RecordQuery.Double

def neg : Double → Double
  | .nan => .nan
  | .infinite negative => .infinite !negative
  | .finite negative significand exponent canonical =>
    .finite (!negative) significand exponent canonical

def abs : Double → Double
  | .nan => .nan
  | .infinite _ => .infinite false
  | .finite _ significand exponent canonical => .finite false significand exponent canonical

-- The sum of numbers that are integers is formed as it stands, that of others at a common exponent.
-- A sum of zero is negative only for two negative zeros.
def add (x y : Double) : Double :=
  let negativeZero := x.isNegative && y.isNegative
  match x.toInt?, y.toInt? with
  | some a, some b => ofScaled negativeZero (a + b) 0
  | _, _ =>
    match x, y with
    | .finite negative m e _, .finite negative' n f _ =>
      let base := min e f
      ofScaled negativeZero
        (signed negative (m <<< (e - base).toNat) + signed negative' (n <<< (f - base).toNat)) base
    | .finite .., _ => y
    | _, .finite .. => x
    | _, _ => if x = y then x else .nan

def sub (x y : Double) : Double := add x y.neg

-- The product; like a quotient it is negative if just one operand is, zeros included.
def mul (x y : Double) : Double :=
  let negative := x.isNegative != y.isNegative
  match x.toInt?, y.toInt? with
  | some a, some b => ofScaled negative (a * b) 0
  | _, _ =>
    match x, y with
    | .finite _ m e _, .finite _ n f _ => ofDyadic negative (m * n) (e + f)
    | _, _ => if x.isNaN || y.isNaN || x.isZero || y.isZero then .nan else .infinite negative

def div (x y : Double) : Double :=
  let negative := x.isNegative != y.isNegative
  match x, y with
  | .finite _ m e _, .finite _ n f _ =>
    if n ≠ 0 then ofFraction negative (m <<< (e - f).toNat) (n <<< (f - e).toNat)
    else if m = 0 then .nan
    else .infinite negative
  | .finite .., _ => if y.isNaN then .nan else zero negative
  | _, .finite .. => if x.isNaN then .nan else .infinite negative
  | _, _ => .nan

instance : Neg Double := ⟨neg⟩
instance : Add Double := ⟨add⟩
instance : Sub Double := ⟨sub⟩
instance : Mul Double := ⟨mul⟩
instance : Div Double := ⟨div⟩

-- Rounding to an integer by `f`, which takes a fraction to an integer. Integers, infinities and NaN
-- stay as they are, and a result of zero keeps the sign of its operand.
def roundBy (f : Int → Int → Int) : Double → Double
  | .finite negative significand exponent canonical =>
    if significand = 0 ∨ 0 ≤ exponent then .finite negative significand exponent canonical
    else ofScaled negative (f (signed negative significand) (powerOfTwo (-exponent).toNat)) 0
  | x => x

def floor : Double → Double := roundBy Int.fdiv

def ceil : Double → Double := roundBy fun n d => -(-n).fdiv d

-- Rounding towards zero.
def trunc : Double → Double := roundBy Int.tdiv

-- Where a double lies among the others. NaN lies above all.
inductive Place
  | below
  | at (r : Rat)
  | above
  | unordered

def place (x : Double) : Place :=
  match x with
  | .nan => .unordered
  | .infinite negative => if negative then .below else .above
  | .finite negative significand exponent _ =>
    .at (if negative then -magnitude significand exponent else magnitude significand exponent)

-- The strict order of numbers, in which NaN is neither below nor above anything.
def lt (x y : Double) : Bool :=
  match x.place, y.place with
  | .unordered, _ => false
  | _, .unordered => false
  | .at r, .at s => r < s
  | .below, .below => false
  | .below, _ => true
  | .at _, .above => true
  | _, _ => false

-- The double with the lowest `count` bits of its significand cleared.
def clearLow (count : Nat) : Double → Double
  | .finite negative significand exponent _ =>
    ofParts negative (significand >>> count <<< count) exponent
  | x => x

-- `x` times a power of two, rounded once.
def scale (x : Double) (k : Int) : Double :=
  match x with
  | .finite negative significand exponent _ => ofDyadic negative significand (exponent + k)
  | x => x

-- The square root of a natural number, rounded down.
def natSqrt (n : Nat) : Nat :=
  if n = 0 then 0
  else
    let root := 2 * natSqrt (n / 4)
    if (root + 1) * (root + 1) ≤ n then root + 1 else root
termination_by n
decreasing_by omega

-- The square root. The root of the significand, made long enough, is exact or strictly between two
-- neighbours; one more bit tells which, so the last rounding is right.
def sqrt : Double → Double
  | .nan => .nan
  | .infinite negative => if negative then .nan else .infinite false
  | .finite negative significand exponent canonical =>
    if significand = 0 then .finite negative significand exponent canonical
    else if negative then .nan
    else
      let odd := (exponent % 2).toNat
      let long := significand <<< (128 + odd)
      let root := natSqrt long
      let last := if root * root = long then 0 else 1
      let half := (exponent - odd - 128) / 2
      scaleRoot (2 * root + last) (half - 1)
where
  scaleRoot (n : Nat) (k : Int) : Double :=
    ofFraction false (n <<< k.toNat) (powerOfTwo (-k).toNat)

end RecordQuery.Double
