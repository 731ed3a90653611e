import RecordQuery.Fault
import RecordQuery.Text.Identifier
import RecordQuery.Text.Search
import RecordQuery.Value.Key

/-!
Looking into values: fields, positions, slices, membership, and the items that a loop runs over.
Positions in a text count units, its items are characters.
-/

namespace RecordQuery.Value

-- The field that a name refers to: the one of just this key, else the first whose identifier form is
-- the name.
def fieldNamed? (name : Text) (fields : Fields Value) : Option Value :=
  (fields.get? name).or
    ((fields.find? fun e => Text.identifierOf e.1 == name).map Prod.snd)

def namedField (name : Text) : Value → Except Fault Value
  | .object fields =>
    match fieldNamed? name fields with
    | some v => .ok v
    | none => .error (.missingField name)
  | v => .error (.noAttributes v.kind name)

-- The place among `length` items that an index refers to; a negative one counts from the end.
def place? (length : Nat) (i : Int) : Option Nat :=
  let resolved := if i < 0 then length + i else i
  if 0 ≤ resolved ∧ resolved < length then some resolved.toNat else none

-- The item at an index.
def itemAt {α : Type} (items : List α) (index : Value) : Except Fault α :=
  match index with
  | .number (.big n) => .error (.indexOutOfRange (.big n))
  | .number (.float x) =>
    match x.toInt? with
    | none => .error (.indexKind .number)
    | some i =>
      match (place? items.length i).bind (items[·]?) with
      | some a => .ok a
      | none => .error (.indexOutOfRange (.float x))
  | v => .error (.indexKind v.kind)

def index (container index : Value) : Except Fault Value :=
  match container with
  | .text t => (itemAt t index).map fun u => .text [u]
  | .list items => itemAt items index
  | .tuple items => itemAt items index
  | .object fields =>
    match index with
    | .text key =>
      match Fields.get? key fields with
      | some v => .ok v
      | none => .error (.missingKey key)
    | v => .error (.nameKind v.kind)
  | v => .error (.notSubscriptable v.kind)

-- A bound of a slice: a place, or one beyond either end of any sequence.
inductive Bound
  | at (i : Int)
  | beyond (negative : Bool)

-- The place among `length` items that a bound stands for; a negative one counts from the end.
def Bound.resolve (length : Nat) : Bound → Nat
  | .at i => if i < 0 then (length + i).toNat else min i.toNat length
  | .beyond negative => if negative then 0 else length

-- The bound that a value gives; null gives none.
def bound? : Value → Except Fault (Option Bound)
  | .null => .ok none
  | .number (.big n) => .ok (some (.beyond (n < 0)))
  | .number (.float x) =>
    match x.toInt? with
    | some i => .ok (some (.at i))
    | none => .error (.sliceKind .number)
  | v => .error (.sliceKind v.kind)

-- The items between two bounds.
def between {α : Type} (start stop : Option Bound) (items : List α) : List α :=
  let first := (start.map (Bound.resolve items.length)).getD 0
  let last := (stop.map (Bound.resolve items.length)).getD items.length
  (items.take last).drop first

def slice (container start stop : Value) : Except Fault Value := do
  let start ← bound? start
  let stop ← bound? stop
  match container with
  | .text t => return .text (between start stop t)
  | .list items => return .list (between start stop items)
  | .tuple items => return .tuple (between start stop items)
  | v => .error (.notSubscriptable v.kind)

def contains (container item : Value) : Except Fault Bool :=
  match container with
  | .text t =>
    match item with
    | .text part => .ok (Text.contains part t)
    | v => .error (.notPartOfText v.kind)
  | .list items => .ok (items.any (·.equals item))
  | .tuple items => .ok (items.any (·.equals item))
  | .object fields =>
    match item with
    | .text key => .ok ((Fields.get? key fields).isSome)
    | _ => .ok false
  | v => .error (.notContainer v.kind)

-- The items of anything that can be looped over: of a text its characters, of an object its keys.
def iterated? : Value → Option (List Value)
  | .list items => some items
  | .tuple items => some items
  | .text t => some (t.characters.map .text)
  | .object fields => some ((Fields.keys fields).map .text)
  | _ => none

end RecordQuery.Value
