import RecordQuery.Text.Quoted
import RecordQuery.Number.Basic

/-!
The tokens of JSON text. Blanks between tokens are spaces, tabs and line ends and nothing else; an
integer keeps every digit, any other number is the nearest double.
-/

namespace RecordQuery.Json

inductive Token
  | null
  | bool (b : Bool)
  | number (n : Number)
  | text (t : Text)
  | leftBracket
  | rightBracket
  | leftBrace
  | rightBrace
  | comma
  | colon
  deriving DecidableEq

def isBlank (u : UInt16) : Bool := u == 32 || u == 9 || u == 10 || u == 13

-- The value of a digit in base 16.
def hexValue? (u : UInt16) : Option Nat := Double.radixDigit? 16 u

-- The unit that a letter after a backslash stands for.
def simpleEscape? (u : UInt16) : Option UInt16 :=
  if u == 34 || u == 92 || u == 47 then some u
  else if u == 98 then some 8
  else if u == 102 then some 12
  else if u == 110 then some 10
  else if u == 114 then some 13
  else if u == 116 then some 9
  else none

-- The unit whose number four digits in base 16 give.
def unitOfHex? (a b c d : UInt16) : Option UInt16 := do
  let a ← hexValue? a
  let b ← hexValue? b
  let c ← hexValue? c
  let d ← hexValue? d
  return (((a * 16 + b) * 16 + c) * 16 + d).toUInt16

-- The text up to the closing quote, escapes resolved, and what follows the quote.
def readString? : Text → Option (Text × Text)
  | [] => none
  | 34 :: rest => some ([], rest)
  | 92 :: 117 :: a :: b :: c :: d :: rest => do
    let u ← unitOfHex? a b c d
    let (t, rest) ← readString? rest
    return (u :: t, rest)
  | 92 :: letter :: rest => do
    let u ← simpleEscape? letter
    let (t, rest) ← readString? rest
    return (u :: t, rest)
  | u :: rest =>
    if u < 32 || u == 92 then none
    else do
      let (t, rest) ← readString? rest
      return (u :: t, rest)

-- A run of digits, at least one, and what follows it.
def readDigits? (t : Text) : Option (Text × Text) :=
  let digits := t.takeWhile Text.isDigit
  if digits.isEmpty then none else some (digits, t.dropWhile Text.isDigit)

-- The digits before the point: a zero alone, or digits that start with another one.
def readWhole? : Text → Option (Text × Text)
  | 48 :: rest => some ([48], rest)
  | t => readDigits? t

-- A point with digits after it, or nothing.
def readFraction? : Text → Option (Text × Text)
  | 46 :: rest => (readDigits? rest).map fun p => (46 :: p.1, p.2)
  | t => some ([], t)

-- The letter of an exponent with an optional sign and digits, or nothing.
def readExponent? : Text → Option (Text × Text)
  | [] => some ([], [])
  | letter :: rest =>
    if letter == 101 || letter == 69 then
      match rest with
      | 43 :: digits => (readDigits? digits).map fun p => (letter :: 43 :: p.1, p.2)
      | 45 :: digits => (readDigits? digits).map fun p => (letter :: 45 :: p.1, p.2)
      | digits => (readDigits? digits).map fun p => (letter :: p.1, p.2)
    else some ([], letter :: rest)

-- An unsigned number as spelled, and what follows it.
def readMagnitude? (t : Text) : Option (Text × Text) := do
  let (whole, t) ← readWhole? t
  let (fraction, t) ← readFraction? t
  let (exponent, t) ← readExponent? t
  return (whole ++ fraction ++ exponent, t)

-- A number as spelled, and what follows it.
def readSpelling? : Text → Option (Text × Text)
  | 45 :: rest => (readMagnitude? rest).map fun p => (45 :: p.1, p.2)
  | t => readMagnitude? t

-- The number that a spelling stands for.
def numberOf? (spelling : Text) : Option Number :=
  if Number.isIntegerText spelling then some (Number.ofIntegerText spelling)
  else (Double.read? spelling).map .float

-- A given word in front, with its token.
def readWord? (word : Text) (token : Token) (t : Text) : Option (Token × Text) :=
  if word.isPrefixOf t then some (token, t.drop word.length) else none

-- One of the three words of JSON in front.
def readConstant? (t : Text) : Option (Token × Text) :=
  (readWord? "null" .null t).or <|
    (readWord? "true" (.bool true) t).or (readWord? "false" (.bool false) t)

def punctuation? (u : UInt16) : Option Token :=
  if u == 91 then some .leftBracket
  else if u == 93 then some .rightBracket
  else if u == 123 then some .leftBrace
  else if u == 125 then some .rightBrace
  else if u == 44 then some .comma
  else if u == 58 then some .colon
  else none

-- The token that a text opens with, and what follows it.
def readToken? : Text → Option (Token × Text)
  | [] => none
  | u :: rest =>
    match punctuation? u with
    | some token => some (token, rest)
    | none =>
      if u == 34 then (readString? rest).map fun p => (.text p.1, p.2)
      else if u == 45 || Text.isDigit u then do
        let (spelling, rest) ← readSpelling? (u :: rest)
        let n ← numberOf? spelling
        return (.number n, rest)
      else readConstant? (u :: rest)

theorem readString?_length {t s rest : Text} (h : readString? t = some (s, rest)) :
    rest.length < t.length := by
  fun_induction readString? t generalizing s rest with
  | case1 => cases h
  | case2 => cases h; simp
  | case3 a b c d tail ih =>
    simp only [Option.bind_eq_bind, Option.bind_eq_some_iff, Option.pure_def, Option.some.injEq,
      Prod.mk.injEq, Prod.exists] at h
    obtain ⟨u, -, r, v, hr, -, rfl⟩ := h
    have := ih hr
    simp
    omega
  | case4 letter tail _ ih =>
    simp only [Option.bind_eq_bind, Option.bind_eq_some_iff, Option.pure_def, Option.some.injEq,
      Prod.mk.injEq, Prod.exists] at h
    obtain ⟨u, -, r, v, hr, -, rfl⟩ := h
    have := ih hr
    simp
    omega
  | case5 => cases h
  | case6 u tail _ _ _ _ ih =>
    simp only [Option.bind_eq_bind, Option.bind_eq_some_iff, Option.pure_def, Option.some.injEq,
      Prod.mk.injEq, Prod.exists] at h
    obtain ⟨r, v, hr, -, rfl⟩ := h
    have := ih hr
    simp
    omega

theorem readDigits?_append {t digits rest : Text} (h : readDigits? t = some (digits, rest)) :
    digits ++ rest = t ∧ 0 < digits.length := by
  simp only [readDigits?] at h
  split at h
  · cases h
  · next hne =>
    obtain ⟨rfl, rfl⟩ := by simpa using h
    exact ⟨List.takeWhile_append_dropWhile, List.length_pos_iff.2 (by simpa using hne)⟩

theorem readWhole?_length {t s rest : Text} (h : readWhole? t = some (s, rest)) :
    rest.length < t.length := by
  unfold readWhole? at h
  split at h
  · cases h; simp
  · obtain ⟨rfl, hpos⟩ := readDigits?_append h
    simp
    omega

theorem readFraction?_length {t s rest : Text} (h : readFraction? t = some (s, rest)) :
    rest.length ≤ t.length := by
  unfold readFraction? at h
  split at h
  · simp only [Option.map_eq_some_iff, Prod.mk.injEq] at h
    obtain ⟨⟨digits, tail⟩, hd, -, rfl⟩ := h
    obtain ⟨rfl, -⟩ := readDigits?_append hd
    simp
    omega
  · cases h; exact Nat.le_refl _

theorem readExponent?_length {t s rest : Text} (h : readExponent? t = some (s, rest)) :
    rest.length ≤ t.length := by
  have shorter {u s tail : Text} {f : Text → Text}
      (h : (readDigits? u).map (fun p => (f p.1, p.2)) = some (s, tail)) :
      tail.length ≤ u.length := by
    simp only [Option.map_eq_some_iff, Prod.mk.injEq] at h
    obtain ⟨⟨digits, tail⟩, hd, -, rfl⟩ := h
    obtain ⟨rfl, -⟩ := readDigits?_append hd
    simp
  unfold readExponent? at h
  split at h
  · cases h; exact Nat.le_refl _
  · split at h
    · split at h
      · exact Nat.le_trans (shorter (f := fun d => _ :: 43 :: d) h) (by simp; omega)
      · exact Nat.le_trans (shorter (f := fun d => _ :: 45 :: d) h) (by simp; omega)
      · exact Nat.le_trans (shorter (f := fun d => _ :: d) h) (by simp)
    · cases h; exact Nat.le_refl _

theorem readMagnitude?_length {t s rest : Text} (h : readMagnitude? t = some (s, rest)) :
    rest.length < t.length := by
  simp only [readMagnitude?, Option.bind_eq_bind, Option.bind_eq_some_iff, Option.pure_def,
    Option.some.injEq, Prod.mk.injEq, Prod.exists] at h
  obtain ⟨_, _, h₁, _, _, h₂, _, _, h₃, -, rfl⟩ := h
  have := readWhole?_length h₁
  have := readFraction?_length h₂
  have := readExponent?_length h₃
  omega

theorem readSpelling?_length {t s rest : Text} (h : readSpelling? t = some (s, rest)) :
    rest.length < t.length := by
  unfold readSpelling? at h
  split at h
  · simp only [Option.map_eq_some_iff, Prod.mk.injEq, Prod.exists] at h
    obtain ⟨_, _, hm, -, rfl⟩ := h
    have := readMagnitude?_length hm
    simp
    omega
  · exact readMagnitude?_length h

theorem readWord?_length {word t rest : Text} {token found : Token} (hw : 0 < word.length)
    (h : readWord? word token t = some (found, rest)) : rest.length < t.length := by
  unfold readWord? at h
  split at h
  · next hp =>
    obtain ⟨tail, rfl⟩ := List.isPrefixOf_iff_prefix.1 hp
    obtain ⟨-, rfl⟩ := by simpa using h
    simp
    omega
  · cases h

theorem readConstant?_length {t rest : Text} {token : Token}
    (h : readConstant? t = some (token, rest)) : rest.length < t.length := by
  simp only [readConstant?, Option.or_eq_some_iff] at h
  rcases h with h | ⟨-, h | ⟨-, h⟩⟩
  · exact readWord?_length (by decide) h
  · exact readWord?_length (by decide) h
  · exact readWord?_length (by decide) h

theorem readToken?_length {t rest : Text} {token : Token} (h : readToken? t = some (token, rest)) :
    rest.length < t.length := by
  unfold readToken? at h
  split at h
  · cases h
  · split at h
    · cases h; simp
    · split at h
      · simp only [Option.map_eq_some_iff, Prod.mk.injEq, Prod.exists] at h
        obtain ⟨_, _, hs, -, rfl⟩ := h
        have := readString?_length hs
        simp
        omega
      · split at h
        · simp only [Option.bind_eq_bind, Option.bind_eq_some_iff, Option.pure_def,
            Option.some.injEq, Prod.mk.injEq, Prod.exists] at h
          obtain ⟨_, _, hs, _, -, -, rfl⟩ := h
          exact readSpelling?_length hs
        · exact readConstant?_length h

-- The tokens of a text, if it consists of tokens and blanks.
def tokens? (t : Text) : Option (List Token) :=
  match t with
  | [] => some []
  | u :: rest =>
    if isBlank u then tokens? rest
    else
      match _hread : readToken? (u :: rest) with
      | none => none
      | some (token, after) => (tokens? after).map (token :: ·)
termination_by t.length
decreasing_by
  · simp
  · exact readToken?_length _hread

end RecordQuery.Json
