import RecordQuery.Number.Basic
import RecordQuery.Value.Fields

/-!
Values of the query language. Lists and tuples both hold items; a tuple is one row of the output
where a list is as many rows as it has items.
-/

namespace RecordQuery

inductive Value
  | null
  | bool (b : Bool)
  | number (n : Number)
  | text (t : Text)
  | list (items : List Value)
  | tuple (items : List Value)
  | object (fields : List (Text × Value))

-- The kinds of value that a query can tell apart.
inductive Kind
  | null
  | boolean
  | number
  | string
  | list
  | tuple
  | object
  deriving DecidableEq

def Kind.name : Kind → Text
  | .null => "null"
  | .boolean => "boolean"
  | .number => "number"
  | .string => "string"
  | .list => "list"
  | .tuple => "tuple"
  | .object => "object"

namespace Value

instance : Inhabited Value := ⟨.null⟩

def kind : Value → Kind
  | .null => .null
  | .bool _ => .boolean
  | .number _ => .number
  | .text _ => .string
  | .list _ => .list
  | .tuple _ => .tuple
  | .object _ => .object

def ofInt (n : Int) : Value := .number (Number.ofInt n)

def ofNat (n : Nat) : Value := .number (Number.ofNat n)

-- The items of a list or tuple.
def items? : Value → Option (List Value)
  | .list items => some items
  | .tuple items => some items
  | _ => none

-- Null, false, zero, NaN and everything empty count as false.
def isTruthy : Value → Bool
  | .null => false
  | .bool b => b
  | .number n => !n.isZero && !n.isNaN
  | .text t => !t.isEmpty
  | .list items => !items.isEmpty
  | .tuple items => !items.isEmpty
  | .object fields => !fields.isEmpty

end Value

end RecordQuery
