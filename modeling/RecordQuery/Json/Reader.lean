import RecordQuery.Json.Token
import RecordQuery.Value.Basic

/-!
JSON documents as values. A document is read token by token; the containers that are still open wait
on a stack, so every step looks at one token and the top of the stack.
-/

namespace RecordQuery.Json

-- A container that waits for a value: an array with the items before it, or an object with the
-- entries before it and the name it belongs to. Both lists are reversed.
inductive Frame
  | item (before : List Value)
  | member (before : List (Text × Value)) (name : Text)

-- What may come next: a value; after an opening bracket a value or the end of the array; after a
-- value a comma or an end; a name, or the end of the object if `empty`; or the colon after a name.
inductive State
  | value (stack : List Frame)
  | opened (stack : List Frame)
  | after (v : Value) (stack : List Frame)
  | name (before : List (Text × Value)) (empty : Bool) (stack : List Frame)
  | colon (before : List (Text × Value)) (name : Text) (stack : List Frame)

-- A token where a value is due.
def stepValue (stack : List Frame) : Token → Option State
  | .null => some (.after .null stack)
  | .bool b => some (.after (.bool b) stack)
  | .number n => some (.after (.number n) stack)
  | .text t => some (.after (.text t) stack)
  | .leftBracket => some (.opened stack)
  | .leftBrace => some (.name [] true stack)
  | _ => none

def step : State → Token → Option State
  | .value stack, token => stepValue stack token
  | .opened stack, .rightBracket => some (.after (.list []) stack)
  | .opened stack, token => stepValue (.item [] :: stack) token
  | .after v (.item before :: stack), .comma => some (.value (.item (v :: before) :: stack))
  | .after v (.item before :: stack), .rightBracket =>
    some (.after (.list (v :: before).reverse) stack)
  | .after v (.member before name :: stack), .comma => some (.name ((name, v) :: before) false stack)
  | .after v (.member before name :: stack), .rightBrace =>
    some (.after (.object (Fields.ofEntries ((name, v) :: before).reverse)) stack)
  | .name before _ stack, .text name => some (.colon before name stack)
  | .name _ true stack, .rightBrace => some (.after (.object []) stack)
  | .colon before name stack, .colon => some (.value (.member before name :: stack))
  | _, _ => none

def run (state : State) (tokens : List Token) : Option State := tokens.foldlM step state

-- The value of a document: exactly one value, with nothing before or after it.
def read? (t : Text) : Option Value := do
  let tokens ← tokens? t
  match ← run (.value []) tokens with
  | .after v [] => some v
  | _ => none

end RecordQuery.Json
