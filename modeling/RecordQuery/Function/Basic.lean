import RecordQuery.Expr.SyntaxError
import RecordQuery.Value.Access
import RecordQuery.Value.Arithmetic

/-!
Functions that queries can call, and what they ask of their arguments. An argument that is absent is
refused as an object would be.
-/

namespace RecordQuery

structure Function where
  arity : Arity
  call : List Value → Except Fault Value

-- The functions that queries can call, by name.
abbrev Library := Fields Function

namespace Function

-- A function of just one argument or of some bounded number of them.
def fixed (least most : Nat) (call : List Value → Except Fault Value) : Function :=
  ⟨⟨least, some most⟩, call⟩

-- The fault of a function that was given the wrong kind of argument.
def refuse {α : Type} (name : Text) (expected : Expected) (v : Option Value) : Except Fault α :=
  .error (.argument name expected ((v.map Value.kind).getD .object))

def numberArgument (name : Text) (v : Option Value) : Except Fault Number :=
  match v.bind Value.numeric? with
  | some n => .ok n
  | none => refuse name .number v

def doubleArgument (name : Text) (v : Option Value) : Except Fault Double :=
  (numberArgument name v).map Number.toDouble

-- A double that is an integer.
def integerArgument (name : Text) (v : Option Value) : Except Fault Double := do
  match ← numberArgument name v with
  | .big n => .error (.integerTooLarge name n)
  | .float x => if x.toInt?.isSome then return x else .error (.notInteger name x)

def textArgument (name : Text) (v : Option Value) : Except Fault Text :=
  match v with
  | some (.text t) => .ok t
  | v => refuse name .string v

def fieldsArgument (name : Text) (v : Option Value) : Except Fault (Fields Value) :=
  match v with
  | some (.object fields) => .ok fields
  | v => refuse name .object v

def itemsArgument (name : Text) (v : Option Value) : Except Fault (List Value) :=
  match v.bind Value.iterated? with
  | some items => .ok items
  | none => refuse name .iterable v

end Function

end RecordQuery
