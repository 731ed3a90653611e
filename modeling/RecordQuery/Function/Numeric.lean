import RecordQuery.Double.Rounding
import RecordQuery.Function.Basic

/-!
Functions on numbers, and the readings of texts as numbers.
-/

namespace RecordQuery.Function

def abs : Function :=
  fixed 1 1 fun args => do return .number (← numberArgument "abs" args[0]?).abs

-- An integer beyond the safe range stays as it is; any other number is rounded as a double.
def round : Function :=
  fixed 1 2 fun args => do
    match ← numberArgument "round" args[0]? with
    | .big n => return .number (.big n)
    | .float x =>
      let digits ← match args[1]? with
        | some v => integerArgument "round" (some v)
        | none => .ok (Double.zero false)
      return .number (.float (x.roundTo digits))

def int : Function :=
  fixed 1 1 fun args => do
    match args.head? with
    | some (.text t) =>
      let trimmed := t.trim
      if Number.isIntegerText trimmed then return .number (Number.ofIntegerText trimmed)
      else .error (.integerText t)
    | v =>
      match ← numberArgument "int" v with
      | .big n => return .number (.big n)
      | .float x => if x.isFinite then return .number (.float x.trunc) else .error (.noInteger x)

def float : Function :=
  fixed 1 1 fun args => do
    match args.head? with
    | some (.text t) =>
      match Double.read? t.trim with
      | some x => return .number (.float x)
      | none => .error (.floatText t)
    | v =>
      match v.bind Value.numeric? with
      | some n => return .number (.float n.toDouble)
      | none => refuse "float" .numberOrString v

def numerics : Library := [("abs", abs), ("round", round), ("int", int), ("float", float)]

end RecordQuery.Function
