import RecordQuery.Function.Basic
import RecordQuery.Value.Display
import RecordQuery.Value.Order

/-!
Functions that make and rearrange sequences, and the readings of any value as a text or a truth
value.
-/

namespace RecordQuery.Function

def tuple : Function :=
  fixed 0 1 fun args => do
    match args with
    | [] => return .tuple []
    | v :: _ => return .tuple (← itemsArgument "tuple" (some v))

def list : Function :=
  fixed 0 1 fun args => do
    match args with
    | [] => return .list []
    | v :: _ => return .list (← itemsArgument "list" (some v))

def sorted : Function :=
  fixed 1 2 fun args => do
    let items ← itemsArgument "sorted" args[0]?
    if (args[1]?.map Value.isTruthy).getD false then return .list (Value.sortedDescending items)
    else return .list (Value.sorted items)

def reversed : Function :=
  fixed 1 1 fun args => do return .list (← itemsArgument "reversed" args[0]?).reverse

-- The most terms that a range may have.
def rangeLimit : Nat := 1000000

-- The number of steps from `start` to before `stop`, zero if there is no way.
def rangeLength (start stop step : Double) : Double :=
  let steps := ((stop - start) / step).ceil
  if Double.lt (Double.zero false) steps then steps else Double.zero false

def rangeOf (start stop step : Double) : Except Fault Value :=
  if step.isZero then .error .zeroStep
  else
    let length := rangeLength start stop step
    if Double.lt (Double.ofNat rangeLimit) length then .error (.rangeTooLong length rangeLimit)
    else
      let count := (length.toInt?.getD 0).toNat
      .ok (.list ((List.range count).map fun i =>
        .number (.float (start + Double.ofNat i * step))))

-- The terms up to an end, or from a start to an end, perhaps with a step.
def range : Function :=
  fixed 1 3 fun args => do
    let bounds ← args.mapM fun v => integerArgument "range" (some v)
    match bounds with
    | [] => return .list []
    | [stop] => rangeOf (Double.zero false) stop (Double.ofNat 1)
    | [start, stop] => rangeOf start stop (Double.ofNat 1)
    | start :: stop :: step :: _ => rangeOf start stop step

-- The text of an argument; an absent one has a word of its own.
def str : Function :=
  fixed 1 1 fun args => do
    return .text ((args[0]?.map Value.display).getD "undefined")

def bool : Function :=
  fixed 1 1 fun args => do return .bool ((args[0]?.map Value.isTruthy).getD false)

def sequences : Library :=
  [("tuple", tuple), ("list", list), ("sorted", sorted), ("reversed", reversed), ("range", range),
    ("str", str), ("bool", bool)]

end RecordQuery.Function
