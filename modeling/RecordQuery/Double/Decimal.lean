import RecordQuery.Double.Arithmetic
import RecordQuery.Text.Basic

/-!
Doubles as decimal text. Reading rounds the exact decimal once. Writing uses the fewest digits that
read back as the same double and, of those, the nearest decimal; it is positional from 1e-6 up to
1e21 and has an exponent beyond.
-/

namespace RecordQuery.Double

-- The double nearest to `coefficient * 10 ^ exponent`. Exponents that leave the range of doubles
-- whatever the coefficient's size are decided without computing the power.
def ofDecimal (negative : Bool) (coefficient : Nat) (exponent : Int) : Double :=
  if coefficient = 0 then zero negative
  else if 400 < exponent then .infinite negative
  else if exponent < -(402 + coefficient.log2 : Int) then zero negative
  else ofFraction negative (coefficient * Nat.pow 10 exponent.toNat) (Nat.pow 10 (-exponent).toNat)

-- The number of decimal digits of `n`, where zero has one.
def digitCount (n : Nat) : Nat := (Text.ofNat n).length

-- The exponent `k` with `10 ^ (k - 1) ≤ n / d < 10 ^ k`, for positive `n` and `d`.
def log10 (n d : Nat) : Int :=
  let k : Int := (digitCount n : Int) - digitCount d
  if n * Nat.pow 10 (-k).toNat < d * Nat.pow 10 k.toNat then k else k + 1

-- Of the two multiples of `10 ^ exponent` around `n / d`, the nearer one that reads back as `x`.
def multiple? (x : Double) (n d : Nat) (exponent : Int) : Option Nat :=
  let num := n * Nat.pow 10 (-exponent).toNat
  let den := d * Nat.pow 10 exponent.toNat
  let lower := num / den
  let readsBack (coefficient : Nat) : Bool := ofDecimal false coefficient exponent = x
  if readsBack (nearest num den) then some (nearest num den)
  else if readsBack lower then some lower
  else if readsBack (lower + 1) then some (lower + 1)
  else none

-- The first of the candidate exponents whose grid has a decimal that reads back as `x`.
def coarsest? (x : Double) (n d : Nat) : List Int → Option (Nat × Int)
  | [] => none
  | exponent :: finer =>
    match multiple? x n d exponent with
    | some coefficient => some (coefficient, exponent)
    | none => coarsest? x n d finer

-- The coefficient and exponent of the decimal to write for a positive double: one with the fewest
-- digits, from one to seventeen, or its exact value.
def shortest (significand : Nat) (exponent : Int) : Nat × Int :=
  let n := significand <<< exponent.toNat
  let d := powerOfTwo (-exponent).toNat
  let top := log10 n d
  let x := ofParts false significand exponent
  let grids := (List.range 17).map fun i : Nat => top - ((i : Int) + 1)
  (coarsest? x n d grids).getD
    (significand <<< exponent.toNat * Nat.pow 5 (-exponent).toNat, min exponent 0)

-- The decimal without zeros at its end.
def withoutZeros (coefficient : Nat) (exponent : Int) : Nat × Int :=
  if h : coefficient ≠ 0 ∧ coefficient % 10 = 0 then
    withoutZeros (coefficient / 10) (exponent + 1)
  else (coefficient, exponent)
termination_by coefficient
decreasing_by omega

-- A decimal as text, given its digits and the place of the point counted from the first digit.
def layout (digits : Text) (point : Int) : Text :=
  let count : Int := digits.length
  if count ≤ point ∧ point ≤ 21 then digits ++ List.replicate (point - count).toNat 48
  else if 0 < point ∧ point ≤ 21 then digits.take point.toNat ++ 46 :: digits.drop point.toNat
  else if -6 < point ∧ point ≤ 0 then 48 :: 46 :: (List.replicate (-point).toNat 48 ++ digits)
  else
    let mantissa := match digits with
      | first :: second :: rest => first :: 46 :: second :: rest
      | short => short
    let exponent := point - 1
    mantissa ++ 101 :: (if exponent < 0 then 45 else 43) :: Text.ofNat exponent.natAbs

-- The text of a finite double that is no safe integer.
def decimalText (negative : Bool) (significand : Nat) (exponent : Int) : Text :=
  let decimal := shortest significand exponent
  let trimmed := withoutZeros decimal.1 decimal.2
  let digits := Text.ofNat trimmed.1
  let body := layout digits (digits.length + trimmed.2)
  if negative then 45 :: body else body

-- The text of a double. A safe integer is written with its digits, and zero has no sign.
def text (x : Double) : Text :=
  match x.toSafeInt?, x with
  | some n, _ => Text.ofInt n
  | none, .finite negative significand exponent _ => decimalText negative significand exponent
  | none, .infinite negative => Text.ofString (if negative then "-Infinity" else "Infinity")
  | none, .nan => Text.ofString "NaN"

-- The exponent after the digits of a decimal: nothing, or a letter, an optional sign and digits.
def readExponent? : Text → Option Int
  | [] => some 0
  | letter :: rest =>
    if letter != 101 && letter != 69 then none
    else
      let negative := rest.head? == some 45
      let digits := if negative || rest.head? == some 43 then rest.drop 1 else rest
      if digits.isEmpty || !digits.all Text.isDigit then none
      else some (if negative then -(Text.digitsValue digits : Int) else Text.digitsValue digits)

-- An unsigned decimal: digits with an optional point among, before or after them, and an optional
-- exponent.
def readDecimal? (negative : Bool) (t : Text) : Option Double :=
  let whole := t.takeWhile Text.isDigit
  let afterWhole := t.dropWhile Text.isDigit
  let hasPoint := afterWhole.head? == some 46
  let fraction := if hasPoint then (afterWhole.drop 1).takeWhile Text.isDigit else []
  let afterFraction :=
    if hasPoint then (afterWhole.drop 1).dropWhile Text.isDigit else afterWhole
  if whole.isEmpty && fraction.isEmpty then none
  else
    (readExponent? afterFraction).map fun exponent =>
      ofDecimal negative (Text.digitsValue (whole ++ fraction)) (exponent - fraction.length)

-- A decimal or the word for infinity.
def readMagnitude? (negative : Bool) (t : Text) : Option Double :=
  if t = Text.ofString "Infinity" then some (.infinite negative) else readDecimal? negative t

-- The value of a digit or letter in bases above ten.
def radixDigit? (radix : Nat) (u : UInt16) : Option Nat :=
  let n := u.toNat
  let value :=
    if 48 ≤ n ∧ n ≤ 57 then n - 48
    else if 97 ≤ n ∧ n ≤ 122 then n - 87
    else if 65 ≤ n ∧ n ≤ 90 then n - 55
    else radix
  if value < radix then some value else none

-- The number that digits of a radix spell, at least one of them.
def readRadix? (radix : Nat) (t : Text) : Option Double :=
  if t.isEmpty then none
  else (t.mapM (radixDigit? radix)).map fun digits =>
    ofNat (digits.foldl (fun n digit => radix * n + digit) 0)

-- A number as it may be spelled in data: a signed decimal, a signed infinity, or an unsigned number
-- in base 16, 8 or 2 after `0x`, `0o` or `0b`.
def read? (t : Text) : Option Double :=
  match t with
  | 43 :: rest => readMagnitude? false rest
  | 45 :: rest => readMagnitude? true rest
  | 48 :: mark :: rest =>
    if mark == 120 || mark == 88 then readRadix? 16 rest
    else if mark == 111 || mark == 79 then readRadix? 8 rest
    else if mark == 98 || mark == 66 then readRadix? 2 rest
    else readMagnitude? false t
  | _ => readMagnitude? false t

end RecordQuery.Double
