import RecordQuery.Record.Results
import RecordQuery.Row.Distinct
import RecordQuery.Row.Group
import RecordQuery.Row.Join
import RecordQuery.Row.Limit
import RecordQuery.Row.Sort

/-!
Plans: which inputs a run has, what it asks of their records and what it does with the rows. All
settings, queries and reducers are checked before the first line is asked for.
-/

namespace RecordQuery

-- An input with the name that the log gives it.
structure Input where
  name : Text
  lines : Flow Text

-- Reducers as they are spelled, and the columns they work on.
structure Aggregation where
  reducers : List Text
  keyColumns : List Double
  valueColumn : Double

-- The aggregation with its reducers read.
def Aggregation.grouping (library : Library) (a : Aggregation) : Except Failure Row.Grouping := do
  return ⟨← a.reducers.mapM (Reducer.parse library), a.keyColumns, a.valueColumn⟩

structure Plan where
  queries : List Text
  inputs : List Input
  skipsFirst : Bool
  defaults : Fields Value
  aggregation : Option Aggregation
  distinct : Bool
  order : Option Row.SortOrder
  limit : Option Double

namespace Plan

-- One input or two, each with a query.
inductive Sources (α : Type)
  | single (only : α)
  | pair (first second : α)

def Sources.mapM {α β ε : Type} (f : α → Except ε β) : Sources α → Except ε (Sources β)
  | .single only => return .single (← f only)
  | .pair first second => do
    let first ← f first
    let second ← f second
    return .pair first second

-- A limit is an integer that is not negative.
def isLimit (x : Double) : Bool := x.toInt?.isSome && !x.lt (.zero false)

def sources (plan : Plan) : Except ConfigurationError (Sources (Input × Text)) :=
  match plan.inputs, plan.queries with
  | [input], [query] => .ok (.single (input, query))
  | [first, second], [query, other] => .ok (.pair (first, query) (second, other))
  | inputs, queries =>
    if inputs.isEmpty || maxInputs < inputs.length then .error (.inputCount inputs.length)
    else .error (.queryCount queries.length inputs.length)

-- The inputs with their queries, if all settings make sense.
def checked (plan : Plan) : Except ConfigurationError (Sources (Input × Text)) := do
  let sources ← plan.sources
  if plan.aggregation.any fun a => a.reducers.isEmpty then .error .noReducers
  if plan.order.any fun o => o.columns.isEmpty then .error .noSortColumns
  match plan.limit with
  | some x => if isLimit x then .ok sources else .error (.limit x)
  | none => .ok sources

-- The stages that the plan has, in order.
def stages (plan : Plan) : List Stage :=
  [(Stage.map, true), (.join, plan.inputs.length == 2), (.aggregate, plan.aggregation.isSome),
    (.distinct, plan.distinct), (.orderBy, plan.order.isSome),
    (.limit, plan.limit.any fun x => !x.isZero)].filterMap fun stage =>
      if stage.2 then some stage.1 else none

-- The results of an input.
def results (plan : Plan) (source : Input × Query) : Flow Value :=
  Reading.run ⟨plan.skipsFirst, plan.defaults, some source.1.name⟩ source.2 source.1.lines

-- The rows before the stages on rows.
def joined (plan : Plan) : Sources (Input × Query) → Flow Value
  | .single only => plan.results only
  | .pair first second => Row.join (plan.results first) (plan.results second)

-- A stage that a plan may lack.
def whenSome {α β : Type} (setting : Option α) (stage : α → β → β) (b : β) : β :=
  match setting with
  | some a => stage a b
  | none => b

-- The rows of the run.
def rows (plan : Plan) (grouping : Option Row.Grouping) (sources : Sources (Input × Query)) :
    Flow Value :=
  whenSome plan.limit Row.limit
    (whenSome plan.order Row.sort
      ((if plan.distinct then Row.distinct else id)
        (whenSome grouping Row.aggregate (plan.joined sources))))

-- The run of a plan. Its first event tells how it is put together.
def start (library : Library) (plan : Plan) : Except Failure (Flow Value) := do
  let sources ← plan.checked.mapError .configuration
  let compiled ← sources.mapM fun source =>
    match Query.compile library source.2 with
    | .ok query => .ok (source.1, query)
    | .error e => .error (.query e)
  let grouping ← plan.aggregation.mapM (Aggregation.grouping library)
  let entry := LogEntry.assembled (plan.inputs.map Input.name) plan.queries plan.stages
  return .event (.logged entry) fun _ => plan.rows grouping compiled

end Plan

end RecordQuery
