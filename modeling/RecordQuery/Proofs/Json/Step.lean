import Mathlib.Tactic
import RecordQuery.Json.Reader

/-!
The steps of the reader as a relation, with one case for each thing that a token can do. What holds of
all that has been read, and what has been read when a state is reached, follow from it case by case.
-/

namespace RecordQuery.Json

-- The states in which a value is due, and the containers that wait for it.
inductive Awaits : State → List Frame → Prop
  | value (stack : List Frame) : Awaits (.value stack) stack
  | opened (stack : List Frame) : Awaits (.opened stack) (.item [] :: stack)

-- The tokens that are a document of their own.
inductive Constant : Token → Value → Prop
  | null : Constant .null .null
  | bool (b : Bool) : Constant (.bool b) (.bool b)
  | number (n : Number) : Constant (.number n) (.number n)
  | text (t : Text) : Constant (.text t) (.text t)

-- What a token does in a state.
inductive Steps : State → Token → State → Prop
  | constant {s : State} {stack : List Frame} {token : Token} {v : Value} (hs : Awaits s stack)
    (hv : Constant token v) : Steps s token (.after v stack)
  | openArray {s : State} {stack : List Frame} (hs : Awaits s stack) :
    Steps s .leftBracket (.opened stack)
  | openObject {s : State} {stack : List Frame} (hs : Awaits s stack) :
    Steps s .leftBrace (.name [] true stack)
  | emptyArray (stack : List Frame) : Steps (.opened stack) .rightBracket (.after (.list []) stack)
  | nextItem (v : Value) (before : List Value) (stack : List Frame) :
    Steps (.after v (.item before :: stack)) .comma (.value (.item (v :: before) :: stack))
  | closeArray (v : Value) (before : List Value) (stack : List Frame) :
    Steps (.after v (.item before :: stack)) .rightBracket
      (.after (.list (v :: before).reverse) stack)
  | nextMember (v : Value) (before : List (Text × Value)) (name : Text) (stack : List Frame) :
    Steps (.after v (.member before name :: stack)) .comma (.name ((name, v) :: before) false stack)
  | closeObject (v : Value) (before : List (Text × Value)) (name : Text) (stack : List Frame) :
    Steps (.after v (.member before name :: stack)) .rightBrace
      (.after (.object (Fields.ofEntries ((name, v) :: before).reverse)) stack)
  | memberName (before : List (Text × Value)) (empty : Bool) (name : Text) (stack : List Frame) :
    Steps (.name before empty stack) (.text name) (.colon before name stack)
  | emptyObject (before : List (Text × Value)) (stack : List Frame) :
    Steps (.name before true stack) .rightBrace (.after (.object []) stack)
  | memberColon (before : List (Text × Value)) (name : Text) (stack : List Frame) :
    Steps (.colon before name stack) .colon (.value (.member before name :: stack))

variable {s s' : State} {stack : List Frame} {token : Token}

theorem Awaits.step_eq (h : Awaits s stack) (hne : token ≠ .rightBracket) :
    step s token = stepValue stack token := by
  cases h with
  | value => rw [step]
  | opened => rw [step.eq_3 _ _ hne]

theorem Awaits.steps (hs : Awaits s stack) (h : stepValue stack token = some s') :
    Steps s token s' := by
  cases token <;> simp only [stepValue, Option.some.injEq, reduceCtorEq] at h <;> subst h
  case null => exact .constant hs .null
  case bool b => exact .constant hs (.bool b)
  case number n => exact .constant hs (.number n)
  case text t => exact .constant hs (.text t)
  case leftBracket => exact .openArray hs
  case leftBrace => exact .openObject hs

theorem Steps.step_eq (h : Steps s token s') : step s token = some s' := by
  cases h with
  | constant hs hv => cases hv <;> exact hs.step_eq (by simp)
  | openArray hs => exact hs.step_eq (by simp)
  | openObject hs => exact hs.step_eq (by simp)
  | memberName before empty => cases empty <;> rfl
  | emptyArray | nextItem | closeArray | nextMember | closeObject | emptyObject | memberColon => rfl

-- A step does one of these things and nothing else.
theorem step_eq_some_iff : step s token = some s' ↔ Steps s token s' := by
  refine ⟨fun h => ?_, Steps.step_eq⟩
  fun_cases step s token <;> simp only [step, Option.some.injEq, reduceCtorEq] at h
  case case1 stack => exact (Awaits.value stack).steps h
  case case3 stack _ => exact (Awaits.opened stack).steps h
  all_goals subst h
  · exact .emptyArray ..
  · exact .nextItem ..
  · exact .closeArray ..
  · exact .nextMember ..
  · exact .closeObject ..
  · exact .memberName ..
  · exact .emptyObject ..
  · exact .memberColon ..

end RecordQuery.Json
