import RecordQuery.Operator
import RecordQuery.Text.Quoted
import RecordQuery.Value.Basic

/-!
What can go wrong while a query is evaluated, and how it is reported. A fault becomes an evaluation
error when it is known for which line of input it arose, if for any.
-/

namespace RecordQuery

-- What a function asks of an argument.
inductive Expected
  | number
  | string
  | object
  | iterable
  | strings
  | container
  | numberOrString

def Expected.phrase : Expected → Text
  | .number => "a number"
  | .string => "a string"
  | .object => "an object"
  | .iterable => "a sequence"
  | .strings => "strings"
  | .container => "an object or sequence"
  | .numberOrString => "a number or string"

inductive Fault
  | reported (message : Text)
  | undefinedName (name : Text)
  | unknownFunction (name : Text)
  | operand (op : UnaryOp) (kind : Kind)
  | operands (op : BinaryOp) (left right : Kind)
  | divisionByZero
  | unordered (op : CompareOp) (left right : Kind)
  | notPartOfText (kind : Kind)
  | notContainer (kind : Kind)
  | noAttributes (kind : Kind) (name : Text)
  | missingField (name : Text)
  | missingKey (key : Text)
  | nameKind (kind : Kind)
  | notSubscriptable (kind : Kind)
  | indexKind (kind : Kind)
  | indexOutOfRange (index : Number)
  | sliceKind (kind : Kind)
  | notIterable (kind : Kind)
  | cannotUnpack (kind : Kind) (count : Nat)
  | argument (function : Text) (expected : Expected) (kind : Kind)
  | integerTooLarge (function : Text) (n : Int)
  | notInteger (function : Text) (x : Double)
  | integerText (t : Text)
  | noInteger (x : Double)
  | floatText (t : Text)
  | emptyArgument (function : Text)
  | rankOutOfRange (rank : Double) (count : Nat)
  | fractionOutOfRange (fraction : Double)
  | emptyPercentile
  | zeroStep
  | rangeTooLong (length : Double) (limit : Nat)
  | emptySeparator

def Fault.message : Fault → Text
  | .reported message => message
  | .undefinedName name => .concat ["name '", name, "' is not defined"]
  | .unknownFunction name => .concat ["unknown function '", name, "'"]
  | .operand op kind => .concat ["unsupported operand type for '", op.spelling, "': ", kind.name]
  | .operands op left right =>
    .concat ["unsupported operand types for '", op.spelling, "': ", left.name, " and ", right.name]
  | .divisionByZero => "division by zero"
  | .unordered op left right =>
    .concat ["'", op.spelling, "' not supported between ", left.name, " and ", right.name]
  | .notPartOfText kind =>
    .concat ["'in <string>' requires string as left operand, not ", kind.name]
  | .notContainer kind => .concat ["argument of type ", kind.name, " is not iterable"]
  | .noAttributes kind name => .concat [kind.name, " has no attribute '", name, "'"]
  | .missingField name => .concat ["record has no field '", name, "'"]
  | .missingKey key => .concat ["key not found: ", key.quoted]
  | .nameKind kind => .concat ["object keys must be strings, not ", kind.name]
  | .notSubscriptable kind => .concat [kind.name, " is not subscriptable"]
  | .indexKind kind => .concat ["sequence indices must be integers, not ", kind.name]
  | .indexOutOfRange index => .concat ["index ", index.text, " out of range"]
  | .sliceKind kind => .concat ["slice indices must be integers or null, not ", kind.name]
  | .notIterable kind => .concat [kind.name, " is not iterable"]
  | .cannotUnpack kind count =>
    .concat ["cannot unpack ", kind.name, " into ", .ofNat count, " names"]
  | .argument function expected kind =>
    .concat [function, "() expects ", expected.phrase, ", got ", kind.name]
  | .integerTooLarge function n => .concat [function, "() integer ", .ofInt n, " is too large"]
  | .notInteger function x => .concat [function, "() expects an integer, got ", x.text]
  | .integerText t => .concat ["invalid literal for int(): '", t, "'"]
  | .noInteger x => .concat ["cannot convert ", x.text, " to integer"]
  | .floatText t => .concat ["could not convert string to float: '", t, "'"]
  | .emptyArgument function => .concat [function, "() arg is an empty sequence"]
  | .rankOutOfRange rank count =>
    .concat ["order statistic ", rank.text, " out of range for ", .ofNat count, " values"]
  | .fractionOutOfRange fraction =>
    .concat ["percentile() fraction must be in [0, 1), got ", fraction.text]
  | .emptyPercentile => "percentile() of an empty sequence"
  | .zeroStep => "range() step must not be zero"
  | .rangeTooLong length limit =>
    .concat ["range() of ", length.text, " items exceeds the limit of ", .ofNat limit]
  | .emptySeparator => "split() separator must not be empty"

-- A fault with the number of the input line for which it arose.
structure EvaluationError where
  fault : Fault
  line : Option Nat

namespace EvaluationError

-- A fault of which the line is not known.
def ofFault (fault : Fault) : EvaluationError := ⟨fault, none⟩

-- The error with a line number, unless it has one.
def atLine (e : EvaluationError) (line : Nat) : EvaluationError :=
  ⟨e.fault, some (e.line.getD line)⟩

def message (e : EvaluationError) : Text :=
  match e.line with
  | none => e.fault.message
  | some line => .concat ["line ", .ofNat line, ": ", e.fault.message]

end EvaluationError

end RecordQuery
