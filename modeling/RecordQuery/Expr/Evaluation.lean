import RecordQuery.Expr.Basic
import RecordQuery.Function.Basic
import RecordQuery.Value.Comparison

/-!
Evaluation of expressions. A scope gives names their values; the targets of a comprehension are bound
in front of it, for the element and the condition alone.
-/

namespace RecordQuery

-- The names that an expression sees; the first entry under a name counts.
abbrev Scope := Fields Value

namespace Expr

-- The scope of one round of a comprehension, in front of the scope around it. One target takes the
-- item itself, several take its items; of a target named twice the last one counts.
def bindTargets (targets : List Text) (item : Value) : Except Fault Scope :=
  match targets with
  | [target] => .ok [(target, item)]
  | targets =>
    match item.items? with
    | some items =>
      if items.length = targets.length then .ok (targets.zip items).reverse
      else .error (.cannotUnpack item.kind targets.length)
    | none => .error (.cannotUnpack item.kind targets.length)

-- The object that evaluated entries make. Every key must be a text.
def objectOf (entries : List (Value × Value)) : Except Fault Value := do
  let fields ← entries.mapM fun e =>
    match e.1 with
    | .text key => .ok (key, e.2)
    | v => .error (.nameKind v.kind)
  return .object (Fields.ofEntries fields)

mutual

def evaluate (library : Library) (scope : Scope) : Expr → Except Fault Value
  | .literal v => return v
  | .name n =>
    match scope.get? n with
    | some v => return v
    | none => .error (.undefinedName n)
  | .tuple elements => return .tuple (← evaluateAll library scope elements)
  | .list elements => return .list (← evaluateAll library scope elements)
  | .object entries => do objectOf (← evaluateEntries library scope entries)
  | .comprehension element targets source condition => do
    let source ← evaluate library scope source
    match source.iterated? with
    | none => .error (.notIterable source.kind)
    | some items =>
      let found ← items.filterMapM fun item => do
        let inner := (← bindTargets targets item) ++ scope
        if ← isMet library inner condition then return some (← evaluate library inner element)
        else return none
      return .list found
  | .unary op operand => do Value.unary op (← evaluate library scope operand)
  | .binary op left right => do
    let left ← evaluate library scope left
    let right ← evaluate library scope right
    Value.binary op left right
  | .compare first links => do
    let first ← evaluate library scope first
    return .bool (← allHold library scope first links)
  | .logical op left right => do
    let left ← evaluate library scope left
    match op with
    | .and => if left.isTruthy then evaluate library scope right else return left
    | .or => if left.isTruthy then return left else evaluate library scope right
  | .conditional test consequent alternate => do
    if (← evaluate library scope test).isTruthy then evaluate library scope consequent
    else evaluate library scope alternate
  | .attribute container word => do Value.namedField word (← evaluate library scope container)
  | .index container position => do
    let container ← evaluate library scope container
    let position ← evaluate library scope position
    Value.index container position
  | .slice container start stop => do
    let container ← evaluate library scope container
    let start ← evaluateBound library scope start
    let stop ← evaluateBound library scope stop
    Value.slice container start stop
  | .call function arguments =>
    match library.get? function with
    | none => .error (.unknownFunction function)
    | some f => do f.call (← evaluateAll library scope arguments)

def evaluateAll (library : Library) (scope : Scope) : List Expr → Except Fault (List Value)
  | [] => return []
  | e :: rest => do
    let v ← evaluate library scope e
    let vs ← evaluateAll library scope rest
    return v :: vs

def evaluateEntries (library : Library) (scope : Scope) :
    List (Expr × Expr) → Except Fault (List (Value × Value))
  | [] => return []
  | (key, value) :: rest => do
    let key ← evaluate library scope key
    let value ← evaluate library scope value
    let more ← evaluateEntries library scope rest
    return (key, value) :: more

-- The value of a bound; an absent one counts as null.
def evaluateBound (library : Library) (scope : Scope) : Option Expr → Except Fault Value
  | none => return .null
  | some e => evaluate library scope e

-- Whether the condition of a comprehension, if there is one, is met.
def isMet (library : Library) (scope : Scope) : Option Expr → Except Fault Bool
  | none => return true
  | some e => return (← evaluate library scope e).isTruthy

-- Whether every link of a comparison holds; links after the first that does not are not evaluated.
def allHold (library : Library) (scope : Scope) (left : Value) :
    List (CompareOp × Expr) → Except Fault Bool
  | [] => return true
  | (op, e) :: rest => do
    let right ← evaluate library scope e
    if ← Value.holds op left right then allHold library scope right rest else return false

end

end Expr

end RecordQuery
