import RecordQuery.Double.Arithmetic

/-!
Powers of doubles. The binary logarithm of the base is computed in two parts, multiplied by the
exponent, and two is raised to the product by a polynomial. The result is close to the exact power
and not always the double nearest to it.
-/

namespace RecordQuery.Double

-- A number as the sum of a high part, whose low bits are zero, and a small low part.
structure Split where
  high : Double
  low : Double

def one : Double := ofBits 0x3FF0000000000000

-- The value of a polynomial whose coefficients are given from the constant one up.
def polynomial (x : Double) : List Double → Double
  | [] => zero false
  | [a] => a
  | a :: rest => a + x * polynomial x rest

-- Coefficients of the logarithm's series and of the exponential's correction.
def logCoefficients : List Double :=
  [0x3FE3333333333303, 0x3FDB6DB6DB6FABFF, 0x3FD55555518F264D, 0x3FD17460A91D4101,
    0x3FCD864A93C9DB65, 0x3FCA7E284A454EEF].map ofBits

def expCoefficients : List Double :=
  [0x3FC555555555553E, 0xBF66C16C16BEBD93, 0x3F11566AAF25DE2C, 0xBEBBBD41C5D26BF1,
    0x3E66376972BEA4D0].map ofBits

-- A positive number as a significand of 53 bits and an exponent.
def normalized (significand : Nat) (exponent : Int) : Nat × Int :=
  let shift := 52 - significand.log2
  (significand <<< shift, exponent - shift)

-- The binary logarithm of a number near one.
def logNearOne (ax : Double) : Split :=
  let t := ax - one
  let w := (t * t) * (ofBits 0x3FE0000000000000
    - t * (ofBits 0x3FD5555555555555 - t * ofBits 0x3FD0000000000000))
  let u := ofBits 0x3FF7154760000000 * t
  let v := t * ofBits 0x3E54AE0BF85DDF44 - w * ofBits 0x3FF71547652B82FE
  let high := clearLow 32 (u + v)
  ⟨high, v - (high - u)⟩

-- The binary logarithm of a positive number with a significand of 53 bits. The number is brought
-- near 1 or near 3/2, and the logarithm of the quotient is a series in (x - b) / (x + b).
def logOf (significand : Nat) (exponent : Int) : Split :=
  let fraction := (significand - 0x10000000000000) >>> 32
  let nearUpper := 0x3988E < fraction && fraction < 0xBB67A
  let halved := 0xBB67A ≤ fraction
  let n : Int := exponent + 52 + (if halved then 1 else 0)
  let ax := ofParts false significand (if halved then -53 else -52)
  let b := if nearUpper then ofBits 0x3FF8000000000000 else one
  let bHigh := if nearUpper then ofBits 0x3FE2B80340000000 else zero false
  let bLow := if nearUpper then ofBits 0x3E4CFDEB43CFD006 else zero false
  let u := ax - b
  let v := one / (ax + b)
  let s := u * v
  let sHigh := clearLow 32 s
  let tHigh := clearLow 33 ax + b
  let tLow := ax - (tHigh - b)
  let sLow := v * ((u - sHigh * tHigh) - sHigh * tLow)
  let s2 := s * s
  let r := s2 * s2 * polynomial s2 logCoefficients + sLow * (sHigh + s)
  let s2 := sHigh * sHigh
  let three := ofBits 0x4008000000000000
  let tHigh := clearLow 32 (three + s2 + r)
  let tLow := r - ((tHigh - three) - s2)
  let u := sHigh * tHigh
  let v := sLow * tHigh + tLow * s
  let pHigh := clearLow 32 (u + v)
  let pLow := v - (pHigh - u)
  let zHigh := ofBits 0x3FEEC709E0000000 * pHigh
  let zLow := ofBits 0xBE3E2FE0145B01F5 * pHigh + pLow * ofBits 0x3FEEC709DC3A03FD + bLow
  let t := ofInt n
  let high := clearLow 32 (((zHigh + zLow) + bHigh) + t)
  ⟨high, zLow - (((high - t) - bHigh) - zHigh)⟩

-- Two to the power of `high + low`.
def expOf (p : Split) : Double :=
  let z := p.low + p.high
  let top := ofNat 1024
  let bottom := neg (ofNat 1075)
  if lt top z || (z = top && lt (z - p.high) (p.low + ofBits 0x3C971547652B82FE)) then
    .infinite false
  else if lt z bottom || (z = bottom && !lt (z - p.high) p.low) then zero false
  else
    let half := ofBits 0x3FE0000000000000
    let size := clearLow 32 z.abs
    let steps : Int := if lt half size then (floor (size + half)).toInt?.getD 0 else 0
    let n := if z.isNegative then -steps else steps
    let high := p.high - ofInt n
    let t := clearLow 32 (p.low + high)
    let u := t * ofBits 0x3FE62E4300000000
    let v := (p.low - (t - high)) * ofBits 0x3FE62E42FEFA39EF + t * ofBits 0xBE205C610CA86C39
    let z := u + v
    let w := v - (z - u)
    let t := z * z
    let t1 := z - t * polynomial t expCoefficients
    let r := (z * t1) / ((t1 - ofNat 2) - (w + z * w))
    scale (one - (r - z)) n

-- A positive number that is not one, to a finite power: the logarithm times the exponent, which is
-- split as well, and the exponential. Far from one, a huge exponent decides alone.
def powerPositive (significand : Nat) (exponent : Int) (y : Double) : Double :=
  let ax := ofParts false significand exponent
  let huge := lt (ofNat 0x80000000) (clearLow 32 y.abs)
  let extreme := lt (ofNat 0x10000000000000000) (clearLow 32 y.abs)
  let belowOne := lt ax one
  let nearBelow := !lt ax (ofBits 0x3FEFFFFF00000000)
  let nearAbove := lt ax (ofBits 0x3FF0000100000000)
  if huge && (extreme || !(nearBelow && nearAbove)) then
    if belowOne == y.isNegative then .infinite false else zero false
  else
    let log := if huge then logNearOne ax
      else
        let parts := normalized significand exponent
        logOf parts.1 parts.2
    let yHigh := clearLow 32 y
    expOf ⟨yHigh * log.high, (y - yHigh) * log.high + y * log.low⟩

-- Whether a double is an odd integer.
def isOdd (x : Double) : Bool :=
  match x.toInt? with
  | some n => n % 2 == 1
  | none => false

-- `x` to the power of `y`. A power of one with an infinite exponent is NaN, and so is a negative
-- number to a power that is no integer.
def pow (x y : Double) : Double :=
  if y.isZero then one
  else if x.isNaN || y.isNaN then .nan
  else
    match y with
    | .infinite negative =>
      if x.abs = one then .nan
      else if lt x.abs one == negative then .infinite false
      else zero false
    | _ =>
      if y = one then x
      else if y = neg one then one / x
      else if y = ofNat 2 then x * x
      else if y = ofBits 0x3FE0000000000000 && !x.isNegative then sqrt x
      else
        let signed (z : Double) : Double := if x.isNegative && y.isOdd then neg z else z
        match x with
        | .finite negative significand exponent _ =>
          if significand = 0 then
            signed (if y.isNegative then .infinite false else zero false)
          else if negative && y.toInt?.isNone then .nan
          else if x.abs = one then signed one
          else signed (powerPositive significand exponent y)
        | _ => signed (if y.isNegative then zero false else .infinite false)

end RecordQuery.Double
