import RecordQuery.Function.Basic

/-!
Functions on objects, and the look-up that never fails for want of a key.
-/

namespace RecordQuery.Function

def keys : Function :=
  fixed 1 1 fun args => do
    return .list ((← fieldsArgument "keys" args[0]?).keys.map .text)

def values : Function :=
  fixed 1 1 fun args => do return .list (← fieldsArgument "values" args[0]?).values

-- The fields as pairs of key and value.
def items : Function :=
  fixed 1 1 fun args => do
    return .list ((← fieldsArgument "items" args[0]?).map fun e => .tuple [.text e.1, e.2])

-- The item under a key or at an index, if there is one.
def found? (container : Value) (key : Option Value) : Option Value :=
  match container, key with
  | .object fields, some (.text key) => Fields.get? key fields
  | .list items, some (.number (.float x)) =>
    x.toInt?.bind fun i => (Value.place? items.length i).bind (items[·]?)
  | .tuple items, some (.number (.float x)) =>
    x.toInt?.bind fun i => (Value.place? items.length i).bind (items[·]?)
  | _, _ => none

-- Whether something can be looked up in a value.
def isContainer : Value → Bool
  | .object _ => true
  | .list _ => true
  | .tuple _ => true
  | _ => false

def get : Function :=
  fixed 2 3 fun args => do
    match args[0]? with
    | some container =>
      if isContainer container then
        return (found? container args[1]?).getD (args[2]?.getD .null)
      else refuse "get" .container (some container)
    | none => refuse "get" .container none

def objects : Library := [("keys", keys), ("values", values), ("items", items), ("get", get)]

end RecordQuery.Function
