import RecordQuery.Csv.Row
import RecordQuery.Expr.Literal
import RecordQuery.Failure
import RecordQuery.Json.Reader
import RecordQuery.Log
import RecordQuery.Text.Identifier

/-!
Records: one line of input each. Lines are JSON objects up to the first line that is none; from there
on every line is a row of comma separated fields, whatever it looks like.
-/

namespace RecordQuery

-- What a line is taken for.
inductive Mode
  | json
  | csv
  deriving DecidableEq

-- A record and the names that a query on it sees.
structure Record where
  value : Value
  scope : Scope

namespace Record

-- The name of the whole record.
def selfName : Text := "_"

-- The scope of an object: each field under the identifier form of its key, where the last of several
-- keys with one form counts, and then the whole object.
def scopeOf (fields : Fields Value) : Scope :=
  (Fields.ofEntries (fields.map fun e => (Text.identifierOf e.1, e.2))).set selfName (.object fields)

-- The fields of a line that is a JSON object.
def object? (line : Text) : Option (Fields Value) :=
  match Json.read? line with
  | some (.object fields) => some fields
  | _ => none

-- The record of an object, whose fields stand over the default ones.
def ofObject (defaults fields : Fields Value) : Record :=
  let fields := defaults.merge fields
  ⟨.object fields, scopeOf fields⟩

-- The tuple of a row, in which a field that spells a literal is its value.
def tupleOf (fields : List Text) : Except Fault Value :=
  (fields.mapM Value.ofSpelling).map .tuple

-- Why a line is no record: it is no row, or a field spells a literal that has no value.
inductive Refusal
  | unreadable
  | fault (e : Fault)

-- The record of a row; only the record itself has a name.
def ofRow (line : Text) : Except Refusal Record :=
  match Csv.fields line with
  | .error _ => .error .unreadable
  | .ok fields =>
    match tupleOf fields with
    | .error e => .error (.fault e)
    | .ok v => .ok ⟨v, [(selfName, v)]⟩

-- The record of a line, and what later lines are taken for.
def read (defaults : Fields Value) (mode : Mode) (line : Text) : Mode × Except Refusal Record :=
  match mode, object? line with
  | .json, some fields => (.json, .ok (ofObject defaults fields))
  | _, _ => (.csv, ofRow line)

-- What the log says of a line after which lines are taken for something else than before.
def changed (source : Option Text) (number : Option Nat) (before after : Mode) : Option LogEntry :=
  if before = after then none else some (.separated source number)

-- The failure of a line with the given number.
def Refusal.failure (line : Text) (number : Option Nat) : Refusal → Failure
  | .unreadable => .unreadable line number
  | .fault e => .evaluation (.ofFault e)

end Record

end RecordQuery
