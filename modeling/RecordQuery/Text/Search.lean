import RecordQuery.Text.Basic

/-!
Looking for one text in another: containment, splitting at a separator or at blanks, and replacing
every occurrence.
-/

namespace RecordQuery.Text

-- Whether `part` occurs anywhere, the empty text everywhere.
def contains (part : Text) : Text → Bool
  | [] => part.isEmpty
  | u :: rest => part.isPrefixOf (u :: rest) || contains part rest

-- The pieces of the text that follows, `skip` units of it being the rest of a separator already met
-- and `piece` the reversed piece under way.
def splitFrom (separator : Text) (skip : Nat) (piece : Text) : Text → List Text
  | [] => [piece.reverse]
  | u :: rest =>
    match skip with
    | n + 1 => splitFrom separator n piece rest
    | 0 =>
      if separator.isPrefixOf (u :: rest) then
        piece.reverse :: splitFrom separator (separator.length - 1) [] rest
      else splitFrom separator 0 (u :: piece) rest

-- The pieces between occurrences of a separator, found from the left without overlap.
def split (separator t : Text) : List Text := splitFrom separator 0 [] t

-- The pieces between runs of blanks; `piece` is the reversed piece under way.
def wordsFrom (piece : Text) : Text → List Text
  | [] => if piece.isEmpty then [] else [piece.reverse]
  | u :: rest =>
    if isBlank u then
      if piece.isEmpty then wordsFrom [] rest else piece.reverse :: wordsFrom [] rest
    else wordsFrom (u :: piece) rest

-- The non-empty pieces between blanks.
def words (t : Text) : List Text := wordsFrom [] t

-- A replacement with its marks filled in: `$$` is a dollar sign, `$&` the replaced text, a dollar
-- sign with a grave accent the text before it, which is given reversed, and one with an apostrophe
-- the text after it.
def expand (seen found after : Text) : Text → Text
  | 36 :: 36 :: rest => 36 :: expand seen found after rest
  | 36 :: 38 :: rest => found ++ expand seen found after rest
  | 36 :: 96 :: rest => seen.reverse ++ expand seen found after rest
  | 36 :: 39 :: rest => after ++ expand seen found after rest
  | u :: rest => u :: expand seen found after rest
  | [] => []

-- Replacing in the text that follows; `seen` is the reversed text before it, and `skip` units are
-- the rest of an occurrence already replaced.
def replaceFrom (part replacement : Text) (skip : Nat) (seen : Text) : Text → Text
  | [] => if part.isEmpty then expand seen part [] replacement else []
  | u :: rest =>
    match skip with
    | n + 1 => replaceFrom part replacement n (u :: seen) rest
    | 0 =>
      if part.isEmpty then
        expand seen part (u :: rest) replacement
          ++ u :: replaceFrom part replacement 0 (u :: seen) rest
      else if part.isPrefixOf (u :: rest) then
        expand seen part ((u :: rest).drop part.length) replacement
          ++ replaceFrom part replacement (part.length - 1) (u :: seen) rest
      else u :: replaceFrom part replacement 0 (u :: seen) rest

-- Every occurrence of `part`, from the left and without overlap, replaced. The empty text occurs
-- before every unit and at the end.
def replaceAll (part replacement t : Text) : Text := replaceFrom part replacement 0 [] t

end RecordQuery.Text
