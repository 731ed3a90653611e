import RecordQuery.Text.Character
import RecordQuery.Text.IdentifierTable

/-!
Identifiers: a letter or an underscore, then letters, digits and marks. Any text has an identifier
form, in which other characters become underscores.
-/

namespace RecordQuery.Text

-- A code point that may start an identifier, the underscore apart.
def isIdentifierStart (n : Nat) : Bool := startRanges.contains n

-- A code point that may stand in an identifier after its start.
def isIdentifierPart (n : Nat) : Bool := isIdentifierStart n || continueOnlyRanges.contains n

-- An identifier starts like a word or with an underscore.
def opensIdentifier (n : Nat) : Bool := isIdentifierStart n || n == 95

-- The identifier that the text opens with, and the text after it.
def identifierPrefix? (t : Text) : Option (Text × Text) :=
  match nextCharacter? t with
  | none => none
  | some (c, rest) =>
    if opensIdentifier (codePoint c) then
      let run := spanCharacters isIdentifierPart rest
      some (c ++ run.1, run.2)
    else none

theorem identifierPrefix?_append {t name rest : Text}
    (h : identifierPrefix? t = some (name, rest)) : name ++ rest = t ∧ 0 < name.length := by
  unfold identifierPrefix? at h
  split at h
  · cases h
  · next c tail hc =>
    split at h
    · obtain ⟨rfl, rfl⟩ := by simpa using h
      obtain ⟨rfl, hpos⟩ := nextCharacter?_append hc
      simp [spanCharacters_append]
      omega
    · cases h

-- Characters with every run of those that no identifier has turned into one underscore. `inRun` says
-- that the character before was in such a run.
def underscored (inRun : Bool) : List Text → Text
  | [] => []
  | c :: rest =>
    if isIdentifierPart (codePoint c) then c ++ underscored false rest
    else if inRun then underscored true rest
    else 95 :: underscored true rest

-- The identifier form of a key: runs of other characters become underscores, and one more comes
-- first where the result could not start an identifier.
def identifierOf (key : Text) : Text :=
  let name := underscored false (characters key)
  match characters name with
  | [] => [95]
  | c :: _ => if opensIdentifier (codePoint c) then name else 95 :: name

end RecordQuery.Text
