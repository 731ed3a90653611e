import RecordQuery.Fault

/-!
The arithmetic operators on values. Booleans count as 0 and 1; texts, lists and tuples can be joined
to their own kind and repeated.
-/

namespace RecordQuery.Value

-- The number that a value counts as in arithmetic.
def numeric? : Value → Option Number
  | .number n => some n
  | .bool b => some (Number.ofNat b.toNat)
  | _ => none

-- `count` copies of some items in a row. Copies of nothing are not made at all.
def copies {α : Type} (count : Nat) (items : List α) : List α :=
  if items.isEmpty then [] else (List.replicate count items).flatten

-- A text, list or tuple `count` times over.
def repeated? (count : Nat) : Value → Option Value
  | .text t => some (.text (copies count t))
  | .list items => some (.list (copies count items))
  | .tuple items => some (.tuple (copies count items))
  | _ => none

-- How often a number asks to repeat something: never, if it is negative.
def count? : Value → Option Nat
  | .number (.float x) => x.toInt?.map Int.toNat
  | _ => none

-- Two values of a kind that can be joined, one after the other.
def joined? : Value → Value → Option Value
  | .text a, .text b => some (.text (a ++ b))
  | .list a, .list b => some (.list (a ++ b))
  | .tuple a, .tuple b => some (.tuple (a ++ b))
  | _, _ => none

-- One value repeated as often as the other says; the first is repeated if both could be.
def product? (a b : Value) : Option Value :=
  ((count? b).bind (repeated? · a)).or ((count? a).bind (repeated? · b))

-- Whether an operation divides by zero. A negative power of zero does.
def dividesByZero (op : BinaryOp) (x y : Number) : Bool :=
  match op with
  | .divide => y.isZero
  | .exact .quotient => y.isZero
  | .exact .remainder => y.isZero
  | .exact .power => x.isZero && y.compare Number.zero == .lt
  | _ => false

def onNumbers (op : BinaryOp) (x y : Number) : Except Fault Value :=
  if dividesByZero op x y then .error .divisionByZero
  else
    match op with
    | .divide => .ok (.number (.float (x.toDouble / y.toDouble)))
    | .exact op => .ok (.number (op.apply x y))

def binary (op : BinaryOp) (a b : Value) : Except Fault Value :=
  match a.numeric?, b.numeric? with
  | some x, some y => onNumbers op x y
  | _, _ =>
    let other := match op with
      | .exact .add => joined? a b
      | .exact .mul => product? a b
      | _ => none
    match other with
    | some v => .ok v
    | none => .error (.operands op a.kind b.kind)

def unary (op : UnaryOp) (v : Value) : Except Fault Value :=
  match op, v.numeric? with
  | .not, _ => .ok (.bool !v.isTruthy)
  | .minus, some n => .ok (.number n.neg)
  | .plus, some n => .ok (.number n)
  | op, none => .error (.operand op v.kind)

end RecordQuery.Value
