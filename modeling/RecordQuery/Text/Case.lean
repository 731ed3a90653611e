import RecordQuery.Text.Character
import RecordQuery.Text.CaseTable

/-!
Lower and upper case of whole texts. A code point may map to several, and a capital sigma at the end
of a word has a lower case form of its own.
-/

namespace RecordQuery.Text

-- The code points that a table of sequences and one of runs map `n` to; itself if neither has it.
def mapCase (sequences : List (Nat × List Nat)) (runs : List CaseRun) (n : Nat) : List Nat :=
  match sequences.lookup n with
  | some ns => ns
  | none => match runs.findSome? (·.image? n) with
    | some m => [m]
    | none => [n]

-- Whether the nearest code point that case rules do not look past has case.
def meetsCased : List Nat → Bool
  | [] => false
  | n :: rest => if ignorableRanges.contains n then meetsCased rest else casedRanges.contains n

-- Lower case of the code points that follow; `seen` holds those before them, the last one first. A
-- capital sigma is final when a letter comes before it and none after it.
def lowerFrom (seen : List Nat) : List Nat → List Nat
  | [] => []
  | n :: rest =>
    (if n == 0x3A3 then [if meetsCased seen && !meetsCased rest then 0x3C2 else 0x3C3]
      else mapCase lowerSequences lowerRuns n) ++ lowerFrom (n :: seen) rest

def lower (t : Text) : Text := (lowerFrom [] (codePoints t)).flatMap ofCodePoint

def upper (t : Text) : Text :=
  ((codePoints t).flatMap (mapCase upperSequences upperRuns)).flatMap ofCodePoint

end RecordQuery.Text
