import RecordQuery.Expr.Literal
import RecordQuery.Failure

/-!
Reducers: functions of the library that take a list of values to one. A reducer is given by the name
of its function, or by a call with the arguments that come after the list, which must be literals.
-/

namespace RecordQuery

structure Reducer where
  name : Text
  function : Function
  arguments : List Value

namespace Reducer

def reduce (reducer : Reducer) (values : List Value) : Except Fault Value :=
  reducer.function.call (.list values :: reducer.arguments)

-- The arguments of a call that was given as a reducer.
def argumentsOf (spec : Text) (arguments : List Expr) : Except Failure (List Value) :=
  arguments.mapM fun e =>
    match e.literal? with
    | .ok (some v) => .ok v
    | .ok none => .error (.query (.reducerArgument spec))
    | .error e => .error (.evaluation (.ofFault e))

-- The function that a name and further arguments mean.
def functionOf (library : Library) (name : Text) (arguments : List Value) :
    Except Failure Function :=
  match library.get? name with
  | none => .error (.query (.unknownReducer name))
  | some function =>
    if function.arity.allows (arguments.length + 1) then .ok function
    else .error (.query (.reducerArity name arguments.length))

-- The reducer that a text spells.
def parse (library : Library) (spec : Text) : Except Failure Reducer := do
  let expr ← match Expr.parse spec with
    | .ok expr => .ok expr
    | .error e => .error (.query e)
  let (name, arguments) ← match expr with
    | .name name => .ok (name, [])
    | .call name arguments => do
      let values ← argumentsOf spec arguments
      .ok (name, values)
    | _ => .error (.query (.reducerShape spec))
  return ⟨spec.trim, ← functionOf library name arguments, arguments⟩

end Reducer

end RecordQuery
