/-!
Texts as sequences of 16-bit units, with the few operations on units that everything else uses:
building them from characters, decimal digits, blanks and order.
-/

namespace RecordQuery

-- A text is a sequence of 16-bit units. A character beyond U+FFFF takes two units, a high one and a
-- low one, and either of the two may also stand alone, so every sequence of units is a text.
abbrev Text := List UInt16

namespace Text

-- The units of one character.
def ofChar (c : Char) : Text :=
  if c.val < 0x10000 then [c.val.toUInt16]
  else
    let offset := c.val - 0x10000
    [(0xD800 + offset / 0x400).toUInt16, (0xDC00 + offset % 0x400).toUInt16]

def ofChars (cs : List Char) : Text := cs.flatMap ofChar

def ofString (s : String) : Text := ofChars s.toList

instance : Coe String Text := ⟨ofString⟩

-- Parts one after another, for texts with fixed words and varying ones.
def concat (parts : List Text) : Text := parts.flatten

-- Units are ordered by their number, texts by their first difference, a shorter text before its
-- continuations.
def compare : Text → Text → Ordering := List.compareLex Ord.compare

def le (a b : Text) : Bool := (compare a b).isLE

-- White space as trimming and splitting see it. U+0085, U+180E and U+200B do not belong to it.
def isBlank (u : UInt16) : Bool :=
  (0x09 ≤ u && u ≤ 0x0D) || u == 0x20 || u == 0xA0 || u == 0x1680 || (0x2000 ≤ u && u ≤ 0x200A)
    || u == 0x2028 || u == 0x2029 || u == 0x202F || u == 0x205F || u == 0x3000 || u == 0xFEFF

-- What is left after dropping units in `p` from the end.
def dropEndWhile (p : UInt16 → Bool) (t : Text) : Text := (t.reverse.dropWhile p).reverse

-- What is left after dropping units in `p` from both ends.
def dropAround (p : UInt16 → Bool) (t : Text) : Text := dropEndWhile p (t.dropWhile p)

def trim (t : Text) : Text := dropAround isBlank t

def isDigit (u : UInt16) : Bool := 48 ≤ u && u ≤ 57

-- The number a digit stands for.
def digitValue (u : UInt16) : Nat := u.toNat - 48

def digit (n : Nat) : UInt16 := (48 + n % 10).toUInt16

-- The number that a run of decimal digits spells.
def digitsValue (t : Text) : Nat := t.foldl (fun n u => 10 * n + digitValue u) 0

-- Decimal digits of `n` in front of `rest`.
def decimalBefore (n : Nat) (rest : Text) : Text :=
  if n < 10 then digit n :: rest else decimalBefore (n / 10) (digit n :: rest)
termination_by n
decreasing_by omega

def ofNat (n : Nat) : Text := decimalBefore n []

def ofInt (n : Int) : Text := if n < 0 then 45 :: ofNat n.natAbs else ofNat n.natAbs

-- Parts with `separator` between neighbours.
def join (separator : Text) (parts : List Text) : Text := separator.intercalate parts

end Text

end RecordQuery
