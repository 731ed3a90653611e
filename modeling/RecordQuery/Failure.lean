import RecordQuery.Expr.SyntaxError
import RecordQuery.Fault
import RecordQuery.Value.Display

/-!
Why a run fails: a cause, the message that reports it and the status that the program ends with.
Only settings that cannot be run have the status 2, and they are refused before any input is read.
-/

namespace RecordQuery

-- The most inputs that a run can have.
def maxInputs : Nat := 2

-- Settings that do not fit together.
inductive ConfigurationError
  | inputCount (count : Nat)
  | queryCount (queries inputs : Nat)
  | noReducers
  | noSortColumns
  | limit (x : Double)
  | strayArgument (argument : Text)
  | standardInputTwice
  | lacks (option needed : Text)
  | defaultsNotJson (t : Text)
  | defaultsNotObject (t : Text)

def ConfigurationError.message : ConfigurationError → Text
  | .inputCount count =>
    .concat ["expected 1 or ", .ofNat maxInputs, " inputs, got ", .ofNat count]
  | .queryCount queries inputs =>
    .concat ["got ", .ofNat queries, " queries for ", .ofNat inputs,
      " inputs; give one query per input"]
  | .noReducers => "no aggregate functions given"
  | .noSortColumns => "no order-by columns given"
  | .limit x => .concat ["limit must be a non-negative integer, got ", x.text]
  | .strayArgument argument =>
    .concat ["unexpected argument '", argument, "'; pass inputs with -f"]
  | .standardInputTwice => "standard input can only be read once"
  | .lacks option needed => .concat ["--", option, " requires --", needed]
  | .defaultsNotJson t => .concat ["--default is not valid JSON: ", t]
  | .defaultsNotObject t => .concat ["--default must be a JSON object: ", t]

-- A column that a row does not have; a row without items has none at all.
inductive ColumnError
  | outOfRange (column : Double) (length : Nat)
  | noItems (column : Double) (row : Value)

namespace ColumnError

def column : ColumnError → Double
  | .outOfRange column _ => column
  | .noItems column _ => column

-- The number of columns of the row.
def rowLength : ColumnError → Nat
  | .outOfRange _ length => length
  | .noItems _ _ => 0

def message : ColumnError → Text
  | .outOfRange column length =>
    .concat ["column ", column.text, " out of range for row of length ", .ofNat length]
  | .noItems column row =>
    .concat ["column ", column.text, " requested from non-tuple row ", row.display]

end ColumnError

-- Why an input cannot be opened.
inductive OpenError
  | missing
  | other (reason : Text)

def OpenError.message : OpenError → Text
  | .missing => "No such file or directory"
  | .other reason => reason

inductive Failure
  | configuration (e : ConfigurationError)
  | query (e : SyntaxError)
  | evaluation (e : EvaluationError)
  | unreadable (line : Text) (number : Option Nat)
  | column (e : ColumnError)
  | input (name : Text) (e : OpenError)

namespace Failure

def message : Failure → Text
  | .configuration e => e.message
  | .query e => e.message
  | .evaluation e => e.message
  | .unreadable line none => .concat ["cannot parse line: ", line]
  | .unreadable line (some number) => .concat ["cannot parse line ", .ofNat number, ": ", line]
  | .column e => e.message
  | .input name e => .concat [name, ": ", e.message]

-- The status that the program ends with.
def status : Failure → Nat
  | .configuration _ => 2
  | _ => 1

end Failure

end RecordQuery
