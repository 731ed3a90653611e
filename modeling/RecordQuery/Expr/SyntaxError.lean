import RecordQuery.Token.Basic

/-!
Why a text is no query, or no reducer. Most causes have a place in the text.
-/

namespace RecordQuery

-- How many arguments a function takes; without a `most` there is no upper bound.
structure Arity where
  least : Nat
  most : Option Nat
  deriving DecidableEq

namespace Arity

def allows (a : Arity) (count : Nat) : Bool :=
  a.least ≤ count && (match a.most with
    | some most => count ≤ most
    | none => true)

def phrase (a : Arity) : Text :=
  match a.most with
  | none => .concat ["at least ", .ofNat a.least]
  | some most =>
    if a.least = most then .ofNat most else .concat [.ofNat a.least, " to ", .ofNat most]

end Arity

inductive SyntaxError
  | empty
  | unexpectedCharacter (u : UInt16) (position : Nat)
  | malformedNumber (position : Nat)
  | leadingZeros (position : Nat)
  | unterminatedString (position : Nat)
  | unexpectedEnd (position : Nat)
  | unexpectedToken (text : Text) (position : Nat)
  | expected (kind : Token.Kind) (found : Option Text) (position : Nat)
  | unknownFunction (name : Text)
  | argumentCount (name : Text) (arity : Arity) (given : Nat)
  | reducerShape (spec : Text)
  | reducerArgument (spec : Text)
  | unknownReducer (name : Text)
  | reducerArity (name : Text) (extra : Nat)

namespace SyntaxError

def position? : SyntaxError → Option Nat
  | .empty => some 0
  | .unexpectedCharacter _ position => some position
  | .malformedNumber position => some position
  | .leadingZeros position => some position
  | .unterminatedString position => some position
  | .unexpectedEnd position => some position
  | .unexpectedToken _ position => some position
  | .expected _ _ position => some position
  | _ => none

-- A message about a place.
def located (parts : List Text) (position : Nat) : Text :=
  Text.concat parts ++ Text.concat [" at position ", .ofNat position]

def message : SyntaxError → Text
  | .empty => "empty expression"
  | .unexpectedCharacter u position => located ["unexpected character '", [u], "'"] position
  | .malformedNumber position => located ["malformed number"] position
  | .leadingZeros position => located ["leading zeros in integer literal"] position
  | .unterminatedString position => located ["unterminated string starting"] position
  | .unexpectedEnd position => located ["unexpected end of expression"] position
  | .unexpectedToken text position => located ["unexpected token '", text, "'"] position
  | .expected kind none position =>
    located ["expected '", kind.label, "' but found end of expression"] position
  | .expected kind (some found) position =>
    located ["expected '", kind.label, "' but found '", found, "'"] position
  | .unknownFunction name => .concat ["unknown function '", name, "'"]
  | .argumentCount name arity given =>
    .concat [name, "() takes ", arity.phrase, " argument(s), ", .ofNat given, " given"]
  | .reducerShape spec => .concat ["invalid aggregate function: ", spec]
  | .reducerArgument spec => .concat ["aggregate function arguments must be literals: ", spec]
  | .unknownReducer name => .concat ["unknown aggregate function '", name, "'"]
  | .reducerArity name extra =>
    .concat [name, "() cannot reduce a list with ", .ofNat extra, " extra argument(s)"]

end SyntaxError

end RecordQuery
