import RecordQuery.Number.Order
import RecordQuery.Value.Key

/-!
The order of all values: by kind first, then by value within a kind. Items are compared from the
left, objects by their keys.
-/

namespace RecordQuery

-- The place of a kind among the kinds.
def Kind.rank : Kind → Nat
  | .null => 0
  | .boolean => 1
  | .number => 2
  | .string => 3
  | .tuple => 4
  | .list => 5
  | .object => 6

namespace Value

mutual

def compare : Value → Value → Ordering
  | .bool a, .bool b => Ord.compare a.toNat b.toNat
  | .number a, .number b => a.compare b
  | .text a, .text b => a.compare b
  | .list as, .list bs => compareItems as bs
  | .tuple as, .tuple bs => compareItems as bs
  | .object as, .object bs => Text.compare (key (.object as)) (key (.object bs))
  | a, b => Ord.compare a.kind.rank b.kind.rank

def compareItems : List Value → List Value → Ordering
  | [], [] => .eq
  | [], _ :: _ => .lt
  | _ :: _, [] => .gt
  | a :: as, b :: bs => (compare a b).then (compareItems as bs)

end

def le (a b : Value) : Bool := (compare a b).isLE

-- The values in ascending order; equal ones stay in the order they came in.
def sorted (values : List Value) : List Value := values.mergeSort le

-- The values in descending order; equal ones stay in the order they came in.
def sortedDescending (values : List Value) : List Value := values.mergeSort fun a b => le b a

end Value

end RecordQuery
