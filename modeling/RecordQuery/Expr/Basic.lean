import RecordQuery.Operator
import RecordQuery.Value.Basic

/-!
Expressions of the query language.
-/

namespace RecordQuery

-- A comparison holds its first operand and then each operator with the operand after it. A
-- comprehension binds its targets to each item of its source, and a slice may lack either bound.
inductive Expr
  | literal (v : Value)
  | name (n : Text)
  | tuple (elements : List Expr)
  | list (elements : List Expr)
  | object (entries : List (Expr × Expr))
  | comprehension (element : Expr) (targets : List Text) (source : Expr) (condition : Option Expr)
  | unary (op : UnaryOp) (operand : Expr)
  | binary (op : BinaryOp) (left right : Expr)
  | compare (first : Expr) (links : List (CompareOp × Expr))
  | logical (op : LogicalOp) (left right : Expr)
  | conditional (test consequent alternate : Expr)
  | attribute (object : Expr) (name : Text)
  | index (object index : Expr)
  | slice (object : Expr) (start stop : Option Expr)
  | call (function : Text) (arguments : List Expr)

end RecordQuery
