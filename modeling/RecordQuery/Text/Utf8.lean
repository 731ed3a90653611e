import RecordQuery.Text.Character

/-!
Texts from bytes in UTF-8. Every longest piece of a broken character becomes one U+FFFD, so decoding
never fails.
-/

namespace RecordQuery.Text

-- A character whose first bytes have been read: the bits so far, the number of bytes to come, and
-- the bounds of the next byte, which rule out overlong forms, surrogates and values above U+10FFFF.
structure Utf8Partial where
  bits : Nat
  missing : Nat
  low : UInt8
  high : UInt8

-- What a first byte announces.
inductive Utf8Lead
  | single (codePoint : Nat)
  | opens (start : Utf8Partial)
  | invalid

def utf8Lead (b : UInt8) : Utf8Lead :=
  if b < 0x80 then .single b.toNat
  else if b < 0xC2 then .invalid
  else if b < 0xE0 then .opens ⟨b.toNat - 0xC0, 1, 0x80, 0xBF⟩
  else if b == 0xE0 then .opens ⟨0, 2, 0xA0, 0xBF⟩
  else if b == 0xED then .opens ⟨0xD, 2, 0x80, 0x9F⟩
  else if b < 0xF0 then .opens ⟨b.toNat - 0xE0, 2, 0x80, 0xBF⟩
  else if b == 0xF0 then .opens ⟨0, 3, 0x90, 0xBF⟩
  else if b < 0xF4 then .opens ⟨b.toNat - 0xF0, 3, 0x80, 0xBF⟩
  else if b == 0xF4 then .opens ⟨4, 3, 0x80, 0x8F⟩
  else .invalid

-- Decoding with a character under way or none. A byte that cannot go on ends that character as
-- U+FFFD and is read as a first byte.
def decodeUtf8From (pending : Option Utf8Partial) : List UInt8 → Text
  | [] => if pending.isSome then [0xFFFD] else []
  | b :: rest =>
    let fresh : List UInt16 × Option Utf8Partial := match utf8Lead b with
      | .single n => ([n.toUInt16], none)
      | .opens start => ([], some start)
      | .invalid => ([0xFFFD], none)
    match pending with
    | none => fresh.1 ++ decodeUtf8From fresh.2 rest
    | some p =>
      if p.low ≤ b && b ≤ p.high then
        let bits := p.bits * 64 + (b.toNat - 0x80)
        if p.missing ≤ 1 then ofCodePoint bits ++ decodeUtf8From none rest
        else decodeUtf8From (some ⟨bits, p.missing - 1, 0x80, 0xBF⟩) rest
      else 0xFFFD :: (fresh.1 ++ decodeUtf8From fresh.2 rest)

def decodeUtf8 (bytes : List UInt8) : Text := decodeUtf8From none bytes

-- The number of bytes that a first byte asks for, whether or not a character can follow it.
def announcedLength (b : UInt8) : Nat :=
  if 0xC0 ≤ b && b ≤ 0xDF then 2
  else if 0xE0 ≤ b && b ≤ 0xEF then 3
  else if 0xF0 ≤ b && b ≤ 0xF7 then 4
  else 1

-- The length of a last character that lacks bytes, looked for among the last three bytes, which are
-- given in reverse; `length` counts the bytes already passed.
def unfinishedLength (length : Nat) : List UInt8 → Nat
  | [] => 0
  | b :: rest =>
    if 0x80 ≤ b && b ≤ 0xBF then
      if length < 2 then unfinishedLength (length + 1) rest else 0
    else if length + 1 < announcedLength b then length + 1
    else 0

-- The bytes without a last character that is not finished.
def finishedBytes (bytes : List UInt8) : List UInt8 :=
  bytes.take (bytes.length - unfinishedLength 0 bytes.reverse)

end RecordQuery.Text
