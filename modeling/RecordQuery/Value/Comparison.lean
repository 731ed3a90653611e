import RecordQuery.Value.Access
import RecordQuery.Value.Order

/-!
Comparison operators. Equality and membership apply to all values; the ordering operators take
numbers with numbers, texts with texts, and lists or tuples with their own kind.
-/

namespace RecordQuery.Value

-- Whether the ordering operators accept values of these kinds.
def areOrdered : Kind → Kind → Bool
  | .number, .number => true
  | .string, .string => true
  | .list, .list => true
  | .tuple, .tuple => true
  | _, _ => false

def compareOrdered (op : CompareOp) (a b : Value) : Except Fault Ordering :=
  if areOrdered a.kind b.kind then .ok (compare a b)
  else .error (.unordered op a.kind b.kind)

-- Whether a comparison holds.
def holds (op : CompareOp) (a b : Value) : Except Fault Bool :=
  match op with
  | .eq => .ok (a.equals b)
  | .ne => .ok (!a.equals b)
  | .lt => (compareOrdered op a b).map (·.isLT)
  | .le => (compareOrdered op a b).map (·.isLE)
  | .gt => (compareOrdered op a b).map (·.isGT)
  | .ge => (compareOrdered op a b).map (·.isGE)
  | .member => contains b a
  | .notMember => (contains b a).map (!·)

end RecordQuery.Value
