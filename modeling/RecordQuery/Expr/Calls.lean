import RecordQuery.Expr.Evaluation
import RecordQuery.Expr.Parser

/-!
Queries: expressions in which every call, at any depth, names a function of the library and gives it
a number of arguments that it takes.
-/

namespace RecordQuery

namespace Expr

-- A call of the named function with so many arguments.
def checkCall (library : Library) (function : Text) (given : Nat) : Except SyntaxError Unit :=
  match library.get? function with
  | none => .error (.unknownFunction function)
  | some f =>
    if f.arity.allows given then .ok ()
    else .error (.argumentCount function f.arity given)

mutual

-- The first call that is wrong, an outer one before those in it.
def checkCalls (library : Library) : Expr → Except SyntaxError Unit
  | .literal _ => return
  | .name _ => return
  | .tuple elements => checkAll library elements
  | .list elements => checkAll library elements
  | .object entries => checkEntries library entries
  | .comprehension element _ source condition => do
    checkCalls library element
    checkCalls library source
    checkOption library condition
  | .unary _ operand => checkCalls library operand
  | .binary _ left right => do
    checkCalls library left
    checkCalls library right
  | .compare first links => do
    checkCalls library first
    checkLinks library links
  | .logical _ left right => do
    checkCalls library left
    checkCalls library right
  | .conditional test consequent alternate => do
    checkCalls library test
    checkCalls library consequent
    checkCalls library alternate
  | .attribute container _ => checkCalls library container
  | .index container position => do
    checkCalls library container
    checkCalls library position
  | .slice container start stop => do
    checkCalls library container
    checkOption library start
    checkOption library stop
  | .call function arguments => do
    checkCall library function arguments.length
    checkAll library arguments

def checkAll (library : Library) : List Expr → Except SyntaxError Unit
  | [] => return
  | e :: rest => do
    checkCalls library e
    checkAll library rest

def checkEntries (library : Library) : List (Expr × Expr) → Except SyntaxError Unit
  | [] => return
  | (key, value) :: rest => do
    checkCalls library key
    checkCalls library value
    checkEntries library rest

def checkLinks (library : Library) : List (CompareOp × Expr) → Except SyntaxError Unit
  | [] => return
  | (_, e) :: rest => do
    checkCalls library e
    checkLinks library rest

def checkOption (library : Library) : Option Expr → Except SyntaxError Unit
  | none => return
  | some e => checkCalls library e

end

end Expr

-- A query with its source and the functions it calls.
structure Query where
  library : Library
  source : Text
  expr : Expr

namespace Query

-- The query that a source spells, if the library has the functions it calls.
def compile (library : Library) (source : Text) : Except SyntaxError Query := do
  let expr ← Expr.parse source
  expr.checkCalls library
  return ⟨library, source, expr⟩

def evaluate (query : Query) (scope : Scope) : Except Fault Value :=
  query.expr.evaluate query.library scope

end Query

end RecordQuery
