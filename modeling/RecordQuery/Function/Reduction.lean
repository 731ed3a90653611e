import RecordQuery.Function.Basic
import RecordQuery.Value.Rank

/-!
Functions that reduce a sequence to one value: sums, counts, extremes, averages and percentiles.
-/

namespace RecordQuery.Function

-- The sum of numbers, added to `start` from the left.
def sumOf (start : Number) (items : List Value) : Except Fault Number :=
  items.foldlM (fun total v => do
    return Number.Operation.add.apply total (← numberArgument "sum" (some v))) start

def sum : Function :=
  fixed 1 2 fun args => do
    let items ← itemsArgument "sum" args[0]?
    let start ← match args[1]? with
      | some v => numberArgument "sum" (some v)
      | none => .ok Number.zero
    return .number (← sumOf start items)

def length (name : Text) : Function :=
  fixed 1 1 fun args => do
    return Value.ofNat (← itemsArgument name args[0]?).length

-- The first of the values that no other one beats.
def best (beats : Value → Value → Bool) (first : Value) (rest : List Value) : Value :=
  rest.foldl (fun best v => if beats v best then v else best) first

-- The best item of a single argument, or the best of several arguments.
def extreme (name : Text) (beats : Value → Value → Bool) : Function :=
  ⟨⟨1, none⟩, fun args => do
    let values ← match args with
      | [v] => itemsArgument name (some v)
      | args => .ok args
    match values with
    | [] => .error (.emptyArgument name)
    | first :: rest => return best beats first rest⟩

def max : Function := extreme "max" fun a b => a.compare b == .gt

def min : Function := extreme "min" fun a b => a.compare b == .lt

-- The sum divided by the count, as a double; zero for an empty sequence.
def average (name : Text) : Function :=
  fixed 1 1 fun args => do
    let items ← itemsArgument name args[0]?
    if items.isEmpty then return .number Number.zero
    else
      let total ← sumOf Number.zero items
      return .number (.float (total.toDouble / Double.ofNat items.length))

-- The value of a rank, which must be an integer from zero up to below the count.
def selectRank (values : List Value) (rank : Double) : Except Fault Value :=
  let found := match rank.toInt? with
    | some n => if n < 0 then none else Value.ofRank? values n.toNat
    | none => none
  match found with
  | some v => .ok v
  | none => .error (.rankOutOfRange rank values.length)

-- The value whose rank is a fraction of the count, rounded down.
def percentileOf (values : List Value) (fraction : Double) : Except Fault Value :=
  let inRange := !Double.lt fraction (Double.zero false) && Double.lt fraction (Double.ofNat 1)
  if !inRange || fraction.isNaN then .error (.fractionOutOfRange fraction)
  else if values.isEmpty then .error .emptyPercentile
  else selectRank values (fraction * Double.ofNat values.length).floor

def percentile : Function :=
  fixed 2 2 fun args => do
    let items ← itemsArgument "percentile" args[0]?
    percentileOf items (← doubleArgument "percentile" args[1]?)

def reductions : Library :=
  [("sum", sum), ("len", length "len"), ("count", length "count"), ("max", max), ("min", min),
    ("avg", average "avg"), ("mean", average "mean"), ("percentile", percentile)]

end RecordQuery.Function
