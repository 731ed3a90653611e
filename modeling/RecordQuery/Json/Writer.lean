import RecordQuery.Text.Quoted
import RecordQuery.Value.Basic

/-!
Values as JSON. Integers are written with every digit, tuples as arrays, and numbers that are not
finite as null. With an indent of zero everything is on one line.
-/

namespace RecordQuery.Json

-- How a container is laid out: the blanks in front of its lines, what follows the opening bracket,
-- what stands between members, what comes before the closing bracket, and what stands between a name
-- and its value.
structure Layout where
  pad : Text
  opening : Text
  between : Text
  closing : Text
  colon : Text

-- The layout of a container that starts in a line indented by `pad`.
def Layout.of (indent : Nat) (pad : Text) : Layout :=
  if indent = 0 then ⟨pad, [], [44], [], [58]⟩
  else
    let inner := pad ++ List.replicate indent 32
    ⟨inner, 10 :: inner, 44 :: 10 :: inner, 10 :: pad, [58, 32]⟩

def number : Number → Text
  | .float x => if x.isFinite then x.text else Text.ofString "null"
  | .big n => Text.ofInt n

mutual

-- A value in front of `rest`. An empty container has nothing between its brackets.
def writeBefore (indent : Nat) (pad rest : Text) : Value → Text
  | .null => Text.ofString "null" ++ rest
  | .bool b => Text.ofString (if b then "true" else "false") ++ rest
  | .number n => number n ++ rest
  | .text t => t.quoted ++ rest
  | .list items =>
    if items.isEmpty then 91 :: 93 :: rest
    else
      let layout := Layout.of indent pad
      91 :: writeItems indent layout layout.opening (layout.closing ++ 93 :: rest) items
  | .tuple items =>
    if items.isEmpty then 91 :: 93 :: rest
    else
      let layout := Layout.of indent pad
      91 :: writeItems indent layout layout.opening (layout.closing ++ 93 :: rest) items
  | .object fields =>
    if fields.isEmpty then 123 :: 125 :: rest
    else
      let layout := Layout.of indent pad
      123 :: writeFields indent layout layout.opening (layout.closing ++ 125 :: rest) fields

-- Items in front of `rest`, `lead` being what stands before the first of them.
def writeItems (indent : Nat) (layout : Layout) (lead rest : Text) : List Value → Text
  | [] => rest
  | v :: more =>
    lead ++ writeBefore indent layout.pad (writeItems indent layout layout.between rest more) v

def writeFields (indent : Nat) (layout : Layout) (lead rest : Text) :
    List (Text × Value) → Text
  | [] => rest
  | (name, v) :: more =>
    lead ++ name.quoted ++ layout.colon
      ++ writeBefore indent layout.pad (writeFields indent layout layout.between rest more) v

end

def write (indent : Nat) (v : Value) : Text := writeBefore indent [] [] v

end RecordQuery.Json
