import RecordQuery.Json.Writer

/-!
What a run notes about itself: how its stages are put together, and when an input turns out to hold
comma separated rows.
-/

namespace RecordQuery

-- What a run does with its rows, in the order in which it does it.
inductive Stage
  | map
  | join
  | aggregate
  | distinct
  | orderBy
  | limit
  deriving DecidableEq

def Stage.name : Stage → Text
  | .map => "map"
  | .join => "join"
  | .aggregate => "aggregate"
  | .distinct => "distinct"
  | .orderBy => "orderBy"
  | .limit => "limit"

inductive LogEntry
  | assembled (inputs queries : List Text) (stages : List Stage)
  | separated (source : Option Text) (line : Option Nat)

namespace LogEntry

def level : LogEntry → Text
  | .assembled .. => "info"
  | .separated .. => "debug"

def message : LogEntry → Text
  | .assembled .. => "pipeline"
  | .separated .. => "reader mode"

-- What the entry tells; the source and the line only where they are known.
def data : LogEntry → Fields Value
  | .assembled inputs queries stages =>
    [("inputs", .list (inputs.map .text)), ("queries", .list (queries.map .text)),
      ("stages", .list (stages.map fun stage => .text stage.name))]
  | .separated source line =>
    (source.map fun source => (Text.ofString "source", Value.text source)).toList
      ++ (Text.ofString "mode", .text "csv")
      :: (line.map fun line => (Text.ofString "lineNumber", Value.ofNat line)).toList

-- The entry as one line of text.
def line (entry : LogEntry) : Text :=
  .concat ["[", entry.level, "] ", entry.message, " ", Json.write 0 (.object entry.data)]

end LogEntry

end RecordQuery
