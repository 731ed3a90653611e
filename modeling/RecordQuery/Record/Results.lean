import RecordQuery.Expr.Calls
import RecordQuery.Flow
import RecordQuery.Record.Basic

/-!
The results of a query over the lines of an input. Blank lines are passed over, but every line is
counted. A list that a query gives contributes its items, any other value itself.
-/

namespace RecordQuery

-- How the lines of an input are read. The source names the input in the log.
structure Reading where
  skipsFirst : Bool
  defaults : Fields Value
  source : Option Text

namespace Reading

-- What lines so far have been taken for, and how many there were.
structure Progress where
  mode : Mode
  count : Nat

def Progress.start : Progress := ⟨.json, 0⟩

-- The results that one value of a query contributes.
def contribution : Value → List Value
  | .list items => items
  | v => [v]

-- What a query makes of a record, or its failure with the number of the line.
def results (query : Query) (number : Nat) (record : Record) : Flow Value :=
  match query.evaluate record.scope with
  | .ok v => .ofList (contribution v)
  | .error e => .failed (.evaluation ((EvaluationError.ofFault e).atLine number))

-- A flow with a log entry, if there is one, in front of it.
def noting (entry : Option LogEntry) (flow : Flow Value) : Flow Value :=
  match entry with
  | some entry => .event (.logged entry) fun _ => flow
  | none => flow

-- One line: the progress after it and what the query makes of it.
def step (reading : Reading) (query : Query) (progress : Progress) (line : Text) :
    Progress × Flow Value :=
  let number := progress.count + 1
  if (reading.skipsFirst && number == 1) || line.trim.isEmpty then (⟨progress.mode, number⟩, .done)
  else
    let (mode, record) := Record.read reading.defaults progress.mode line
    let flow := match record with
      | .ok record => results query number record
      | .error refusal => .failed (refusal.failure line (some number))
    (⟨mode, number⟩, noting (Record.changed reading.source number progress.mode mode) flow)

def run (reading : Reading) (query : Query) (lines : Flow Text) : Flow Value :=
  lines.expand (reading.step query) .start

end Reading

end RecordQuery
