import RecordQuery.Expr.Evaluation
import RecordQuery.Expr.Parser

/-!
Literals: expressions that are constants all through. A text that is one can stand for its value.
-/

namespace RecordQuery

namespace Expr

-- A number as it stands, without an operator.
def isNumberLiteral : Expr → Bool
  | .literal (.number _) => true
  | _ => false

mutual

-- Constants, numbers with one sign, and tuples, lists and objects of literals.
def isLiteral : Expr → Bool
  | .literal _ => true
  | .unary op operand =>
    match op with
    | .not => false
    | .minus => operand.isNumberLiteral
    | .plus => operand.isNumberLiteral
  | .tuple elements => areLiterals elements
  | .list elements => areLiterals elements
  | .object entries => areLiteralEntries entries
  | _ => false

def areLiterals : List Expr → Bool
  | [] => true
  | e :: rest => isLiteral e && areLiterals rest

def areLiteralEntries : List (Expr × Expr) → Bool
  | [] => true
  | (key, value) :: rest => isLiteral key && isLiteral value && areLiteralEntries rest

end

-- The value of a literal, and nothing for another expression. A literal needs neither names nor
-- functions, but an object in it may have a key that is no text.
def literal? (e : Expr) : Except Fault (Option Value) :=
  if e.isLiteral then (e.evaluate [] []).map some else .ok none

end Expr

-- The value that a text spells as a literal, if it does.
def Value.ofLiteral? (t : Text) : Except Fault (Option Value) :=
  match Expr.parse t with
  | .ok e => e.literal?
  | .error _ => .ok none

-- The value that a text spells as a literal, or else the text itself.
def Value.ofSpelling (t : Text) : Except Fault Value :=
  (Value.ofLiteral? t).map fun v => v.getD (.text t)

end RecordQuery
