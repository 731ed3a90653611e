import RecordQuery.Function.Basic
import RecordQuery.Text.Case

/-!
Functions on texts.
-/

namespace RecordQuery.Function

def lower : Function :=
  fixed 1 1 fun args => do return .text (← textArgument "lower" args[0]?).lower

def upper : Function :=
  fixed 1 1 fun args => do return .text (← textArgument "upper" args[0]?).upper

-- An optional argument, where null counts as absent.
def given? (v : Option Value) : Option Value :=
  match v with
  | some .null => none
  | v => v

-- Blanks, or the units that are characters of a given text, dropped at both ends.
def strip : Function :=
  fixed 1 2 fun args => do
    let t ← textArgument "strip" args[0]?
    match given? args[1]? with
    | none => return .text t.trim
    | some v =>
      let set := (← textArgument "strip" (some v)).characters
      return .text (Text.dropAround (fun u => set.contains [u]) t)

-- The pieces between blanks, or between occurrences of a separator.
def split : Function :=
  fixed 1 2 fun args => do
    let t ← textArgument "split" args[0]?
    match given? args[1]? with
    | none => return .list (t.words.map .text)
    | some v =>
      let separator ← textArgument "split" (some v)
      if separator.isEmpty then .error .emptySeparator
      else return .list ((Text.split separator t).map .text)

def join : Function :=
  fixed 2 2 fun args => do
    let separator ← textArgument "join" args[0]?
    let items ← itemsArgument "join" args[1]?
    let parts ← items.mapM fun v =>
      match v with
      | .text t => .ok t
      | v => refuse "join" .strings (some v)
    return .text (Text.join separator parts)

def startsWith : Function :=
  fixed 2 2 fun args => do
    let t ← textArgument "startswith" args[0]?
    return .bool ((← textArgument "startswith" args[1]?).isPrefixOf t)

def endsWith : Function :=
  fixed 2 2 fun args => do
    let t ← textArgument "endswith" args[0]?
    return .bool ((← textArgument "endswith" args[1]?).isSuffixOf t)

def replace : Function :=
  fixed 3 3 fun args => do
    let t ← textArgument "replace" args[0]?
    let part ← textArgument "replace" args[1]?
    return .text (Text.replaceAll part (← textArgument "replace" args[2]?) t)

def strings : Library :=
  [("lower", lower), ("upper", upper), ("strip", strip), ("split", split), ("join", join),
    ("startswith", startsWith), ("endswith", endsWith), ("replace", replace)]

end RecordQuery.Function
