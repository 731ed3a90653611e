import RecordQuery.Text.Basic

/-!
Characters of a text: two units that form a pair are one character, any other unit is one alone.
The parts of `characters` always join to the text they came from.
-/

namespace RecordQuery.Text

-- The first unit of a pair.
def isHigh (u : UInt16) : Bool := 0xD800 ≤ u && u ≤ 0xDBFF

-- The second unit of a pair.
def isLow (u : UInt16) : Bool := 0xDC00 ≤ u && u ≤ 0xDFFF

def isSurrogate (u : UInt16) : Bool := 0xD800 ≤ u && u ≤ 0xDFFF

-- The text cut into characters.
def characters : Text → List Text
  | [] => []
  | [u] => [[u]]
  | u :: v :: rest =>
    if isHigh u && isLow v then [u, v] :: characters rest else [u] :: characters (v :: rest)

-- The first character and what follows it.
def nextCharacter? : Text → Option (Text × Text)
  | [] => none
  | [u] => some ([u], [])
  | u :: v :: rest =>
    if isHigh u && isLow v then some ([u, v], rest) else some ([u], v :: rest)

-- The code point of a character: a pair counts from U+10000, a unit alone is its own number.
def codePoint : Text → Nat
  | [u, v] => 0x10000 + (u.toNat - 0xD800) * 0x400 + (v.toNat - 0xDC00)
  | u :: _ => u.toNat
  | [] => 0

-- The units of a code point; one below U+10000 is a unit alone, whether or not it is half of a pair.
def ofCodePoint (n : Nat) : Text :=
  if n < 0x10000 then [n.toUInt16]
  else [(0xD800 + (n - 0x10000) / 0x400).toUInt16, (0xDC00 + (n - 0x10000) % 0x400).toUInt16]

-- The longest run of characters in front whose code points are in `p`, and what follows it.
def spanCharacters (p : Nat → Bool) : Text → Text × Text
  | [] => ([], [])
  | [u] => if p u.toNat then ([u], []) else ([], [u])
  | u :: v :: rest =>
    if isHigh u && isLow v then
      if p (codePoint [u, v]) then
        let run := spanCharacters p rest
        (u :: v :: run.1, run.2)
      else ([], u :: v :: rest)
    else if p u.toNat then
      let run := spanCharacters p (v :: rest)
      (u :: run.1, run.2)
    else ([], u :: v :: rest)

def codePoints (t : Text) : List Nat := (characters t).map codePoint

-- No half of a pair stands alone.
def isWellFormed (t : Text) : Bool := (characters t).all fun c => c.length == 2 || !c.any isSurrogate

-- The text with U+FFFD for every half of a pair that stands alone.
def wellFormed (t : Text) : Text :=
  (characters t).flatMap fun c => if c.length == 2 || !c.any isSurrogate then c else [0xFFFD]

theorem flatten_characters (t : Text) : (characters t).flatten = t := by
  fun_induction characters t with
  | case1 => rfl
  | case2 => rfl
  | case3 u v rest h ih => simp [ih]
  | case4 u v rest h ih => simp [ih]

theorem spanCharacters_append (p : Nat → Bool) (t : Text) :
    (spanCharacters p t).1 ++ (spanCharacters p t).2 = t := by
  fun_induction spanCharacters p t with
  | case1 => rfl
  | case2 => simp
  | case3 => simp
  | case4 u v rest _ _ run ih => simpa [run] using ih
  | case5 => simp
  | case6 u v rest _ _ run ih => simpa [run] using ih
  | case7 => simp

theorem nextCharacter?_append {t c rest : Text} (h : nextCharacter? t = some (c, rest)) :
    c ++ rest = t ∧ 0 < c.length := by
  revert h
  fun_cases nextCharacter? t <;> rintro ⟨⟩ <;> simp

-- The characters as a string; a half that stands alone becomes U+FFFD.
def toString (t : Text) : String :=
  String.ofList ((codePoints (wellFormed t)).map Char.ofNat)

end RecordQuery.Text
