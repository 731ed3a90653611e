import RecordQuery.Text.Quoted
import RecordQuery.Value.Basic

/-!
The key of a value is a text that it shares with exactly the values equal to it: numbers are keyed by
value and not by form, and fields by name and not by place.
-/

namespace RecordQuery.Value

-- Entries in ascending order of their names.
def sortedByName {α : Type} (entries : List (Text × α)) : List (Text × α) :=
  entries.mergeSort fun a b => Text.le a.1 b.1

-- The key of an object, given the keys of its fields.
def objectKey (entries : List (Text × Text)) : Text :=
  let members := (sortedByName entries).map fun e => e.1.quoted ++ 58 :: e.2
  123 :: (Text.join [44] members ++ [125])

mutual

def key : Value → Text
  | .null => [110]
  | .bool b => if b then [84] else [70]
  | .number n => 35 :: n.key
  | .text t => t.quoted
  | .list items => 91 :: (Text.join [44] (keys items) ++ [93])
  | .tuple items => 40 :: (Text.join [44] (keys items) ++ [41])
  | .object fields => objectKey (fieldKeys fields)

def keys : List Value → List Text
  | [] => []
  | v :: rest => v.key :: keys rest

def fieldKeys : List (Text × Value) → List (Text × Text)
  | [] => []
  | (name, v) :: rest => (name, v.key) :: fieldKeys rest

end

-- Equality as queries see it.
def equals (a b : Value) : Bool := a.key == b.key

end RecordQuery.Value
