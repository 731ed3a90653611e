import RecordQuery.Number.Arithmetic

/-!
The operators of the query language and how they are spelled.
-/

namespace RecordQuery

inductive UnaryOp
  | minus
  | plus
  | not
  deriving DecidableEq

def UnaryOp.spelling : UnaryOp → Text
  | .minus => "-"
  | .plus => "+"
  | .not => "not"

-- Division always gives a double; the other operators are exact on integers.
inductive BinaryOp
  | exact (op : Number.Operation)
  | divide
  deriving DecidableEq

def BinaryOp.spelling : BinaryOp → Text
  | .exact .add => "+"
  | .exact .sub => "-"
  | .exact .mul => "*"
  | .exact .quotient => "//"
  | .exact .remainder => "%"
  | .exact .power => "**"
  | .divide => "/"

inductive CompareOp
  | eq
  | ne
  | lt
  | le
  | gt
  | ge
  | member
  | notMember
  deriving DecidableEq

def CompareOp.spelling : CompareOp → Text
  | .eq => "=="
  | .ne => "!="
  | .lt => "<"
  | .le => "<="
  | .gt => ">"
  | .ge => ">="
  | .member => "in"
  | .notMember => "not in"

inductive LogicalOp
  | and
  | or
  deriving DecidableEq

def LogicalOp.spelling : LogicalOp → Text
  | .and => "and"
  | .or => "or"

end RecordQuery
