import RecordQuery.Text.Character

/-!
Quoted texts: a text between double quotes in which quotes, backslashes, control characters and
halves of pairs that stand alone are escaped, so that different texts have different quoted forms.
-/

namespace RecordQuery.Text

-- The digit of `n` in base 16, with small letters.
def hexDigit (n : Nat) : UInt16 := (if n < 10 then 48 + n else 87 + n).toUInt16

-- A unit by its number in four digits.
def escapedByNumber (u : UInt16) : Text :=
  let n := u.toNat
  [92, 117, hexDigit (n / 4096), hexDigit (n / 256 % 16), hexDigit (n / 16 % 16), hexDigit (n % 16)]

-- A unit that is no half of a pair, as it is written between quotes.
def escapedUnit (u : UInt16) : Text :=
  if u == 34 then [92, 34]
  else if u == 92 then [92, 92]
  else if u == 8 then [92, 98]
  else if u == 12 then [92, 102]
  else if u == 10 then [92, 110]
  else if u == 13 then [92, 114]
  else if u == 9 then [92, 116]
  else if u < 32 then escapedByNumber u
  else [u]

-- The text between the quotes. A pair is written as it is.
def escaped : Text → Text
  | [] => []
  | [u] => if isSurrogate u then escapedByNumber u else escapedUnit u
  | u :: v :: rest =>
    if isHigh u && isLow v then u :: v :: escaped rest
    else (if isSurrogate u then escapedByNumber u else escapedUnit u) ++ escaped (v :: rest)

def quoted (t : Text) : Text := 34 :: (escaped t ++ [34])

end RecordQuery.Text
