import RecordQuery.Expr.SyntaxError
import RecordQuery.Text.Identifier

/-!
Scanning a source into tokens. At every place the longest token wins, and blanks between tokens are
skipped.
-/

namespace RecordQuery.Token

-- A unit that may stand inside a number.
def isNumberUnit (u : UInt16) : Bool := Text.isDigit u || u == 95

-- The digits that a text opens with, which must start with one.
def digitsPrefix? : Text → Option (Text × Text)
  | [] => none
  | u :: rest =>
    if Text.isDigit u then
      some (u :: rest.takeWhile isNumberUnit, rest.dropWhile isNumberUnit)
    else none

-- The exponent that a text opens with: a letter, an optional sign and digits. Without the letter it
-- is empty; `none` stands for a letter without digits.
def exponentPrefix? : Text → Option (Text × Text)
  | [] => some ([], [])
  | letter :: rest =>
    if letter == 101 || letter == 69 then
      match rest with
      | 43 :: digits => (digitsPrefix? digits).map fun p => (letter :: 43 :: p.1, p.2)
      | 45 :: digits => (digitsPrefix? digits).map fun p => (letter :: 45 :: p.1, p.2)
      | digits => (digitsPrefix? digits).map fun p => (letter :: p.1, p.2)
    else some ([], letter :: rest)

-- The fraction that a text opens with, the point included.
def fractionPrefix (t : Text) : Text × Text :=
  match t with
  | 46 :: rest => (46 :: rest.takeWhile isNumberUnit, rest.dropWhile isNumberUnit)
  | t => ([], t)

-- Zeros before another digit.
def hasLeadingZeros (digits : Text) : Bool :=
  digits.head? == some 48 && !(digits.dropWhile (· == 48)).isEmpty

-- The number that a text opens with. Nothing that could start an identifier may follow it.
def scanNumber (position : Nat) (t : Text) : Except SyntaxError Token :=
  let whole := t.takeWhile isNumberUnit
  let fraction := fractionPrefix (t.dropWhile isNumberUnit)
  match exponentPrefix? fraction.2 with
  | none => .error (.malformedNumber position)
  | some exponent =>
    if (Text.identifierPrefix? exponent.2).isSome then .error (.malformedNumber position)
    else
      let source := whole ++ fraction.1 ++ exponent.1
      let digits := source.filter (· != 95)
      if !(fraction.1 ++ exponent.1).isEmpty then .ok ⟨.float, digits, position, source.length⟩
      else if hasLeadingZeros digits then .error (.leadingZeros position)
      else .ok ⟨.integer, digits, position, source.length⟩

-- The unit that one after a backslash stands for.
def escaped (u : UInt16) : UInt16 :=
  if u == 110 then 10
  else if u == 114 then 13
  else if u == 116 then 9
  else if u == 48 then 0
  else u

-- The text up to the closing quote, escapes resolved, and the number of units up to and with it.
def stringBody? (quote : UInt16) : Text → Option (Text × Nat)
  | [] => none
  | u :: rest =>
    if u == quote then some ([], 1)
    else if u == 92 then
      match rest with
      | [] => none
      | v :: rest => (stringBody? quote rest).map fun p => (escaped v :: p.1, p.2 + 2)
    else (stringBody? quote rest).map fun p => (u :: p.1, p.2 + 1)

def scanString (position : Nat) (quote : UInt16) (body : Text) : Except SyntaxError Token :=
  match stringBody? quote body with
  | some p => .ok ⟨.string, p.1, position, p.2 + 1⟩
  | none => .error (.unterminatedString position)

-- The symbol that a text opens with, the longer of two that fit.
def symbolPrefix? : Text → Option Symbol
  | 42 :: 42 :: _ => some .stars
  | 47 :: 47 :: _ => some .slashes
  | 61 :: 61 :: _ => some .equal
  | 33 :: 61 :: _ => some .notEqual
  | 60 :: 61 :: _ => some .lessEqual
  | 62 :: 61 :: _ => some .greaterEqual
  | 40 :: _ => some .leftParen
  | 41 :: _ => some .rightParen
  | 91 :: _ => some .leftBracket
  | 93 :: _ => some .rightBracket
  | 123 :: _ => some .leftBrace
  | 125 :: _ => some .rightBrace
  | 44 :: _ => some .comma
  | 58 :: _ => some .colon
  | 46 :: _ => some .dot
  | 43 :: _ => some .plus
  | 45 :: _ => some .minus
  | 42 :: _ => some .star
  | 47 :: _ => some .slash
  | 37 :: _ => some .percent
  | 60 :: _ => some .less
  | 62 :: _ => some .greater
  | _ => none

-- The number of units that blanks and the word `in` take where a text opens with them and the word
-- ends there.
def memberWidth? (t : Text) : Option Nat :=
  let blanks := t.takeWhile Text.isBlank
  match t.dropWhile Text.isBlank with
  | 105 :: 110 :: rest =>
    let continues := ((Text.nextCharacter? rest).map fun p =>
      Text.isIdentifierPart (Text.codePoint p.1)).getD false
    if !blanks.isEmpty && !continues then some (blanks.length + 2) else none
  | _ => none

-- The token that an identifier is; `not` joins with a following `in`.
def ofIdentifier (position : Nat) (name rest : Text) : Token :=
  match Keyword.ofName? name with
  | none => ⟨.name, name, position, name.length⟩
  | some .not =>
    match memberWidth? rest with
    | some more =>
      ⟨.keyword .notMember, Keyword.notMember.label, position, name.length + more⟩
    | none => ⟨.keyword .not, name, position, name.length⟩
  | some k => ⟨.keyword k, name, position, name.length⟩

-- Whether a number starts here: a digit, or a point before a digit.
def opensNumber : Text → Bool
  | 46 :: v :: _ => Text.isDigit v
  | u :: _ => Text.isDigit u
  | [] => false

-- The token that a text starting with `u` opens with.
def scanOne (position : Nat) (u : UInt16) (rest : Text) : Except SyntaxError Token :=
  if opensNumber (u :: rest) then scanNumber position (u :: rest)
  else if u == 34 || u == 39 then scanString position u rest
  else
    match symbolPrefix? (u :: rest) with
    | some s => .ok ⟨.symbol s, s.label, position, s.label.length⟩
    | none =>
      match Text.identifierPrefix? (u :: rest) with
      | some p => .ok (ofIdentifier position p.1 p.2)
      | none => .error (.unexpectedCharacter u position)

-- The tokens of a source whose first unit has the given place. No token is without width.
def scanFrom (position : Nat) (t : Text) : Except SyntaxError (List Token) :=
  match t with
  | [] => .ok []
  | u :: rest =>
    if Text.isBlank u then scanFrom (position + 1) rest
    else
      match scanOne position u rest with
      | .error e => .error e
      | .ok token =>
        (scanFrom (position + token.width) (rest.drop (token.width - 1))).map (token :: ·)
termination_by t.length
decreasing_by
  · simp
  · simp only [List.length_drop, List.length_cons]
    omega

-- The tokens of a source.
def scan (source : Text) : Except SyntaxError (List Token) := scanFrom 0 source

end RecordQuery.Token
