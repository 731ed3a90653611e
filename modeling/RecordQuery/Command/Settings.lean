import RecordQuery.Command.Arguments
import RecordQuery.Plan

/-!
Settings of the command: the options it has, and what a set of arguments asks for once the options
left out are filled in.
-/

namespace RecordQuery

structure Settings where
  files : List Text
  queries : List Text
  compact : Bool
  verbose : Bool
  skipsFirst : Bool
  defaults : Option (Fields Value)
  aggregation : Option Aggregation
  distinct : Bool
  order : Option Row.SortOrder
  limit : Option Double

namespace Settings

-- The file name that means standard input.
def standardInput : Text := "-"

-- A switch or an option with values, under its letter and its word.
def option (name letter word : Text) (kind : OptionKind) : OptionSpec :=
  ⟨name, some letter, some word, kind, none⟩

-- The options of the command.
def options : List OptionSpec :=
  [option "queries" "q" "queries" (.valued .texts),
    option "files" "f" "files" (.valued .texts),
    option "compact" "c" "compact" .switch,
    option "skipHeader" "s" "skip_header" .switch,
    option "defaults" "i" "default" (.valued .text),
    option "distinct" "d" "distinct" .switch,
    option "aggFuncs" "a" "agg_funcs" (.valued .texts),
    option "keyColumns" "k" "key_columns" (.valued .integers),
    option "valueColumn" "v" "value_column" (.valued .integer),
    option "orderBy" "o" "order_by_columns" (.valued .integers),
    option "reverse" "r" "reverse" .switch,
    option "limit" "l" "limit" (.valued .integer),
    ⟨"verbose", none, some "verbose", .switch, none⟩,
    option "help" "h" "help" .switch,
    ⟨"version", none, some "version", .switch, none⟩]

-- The fields that are to stand under those of every record.
def readDefaults (t : Text) : Except ConfigurationError (Fields Value) :=
  match Json.read? t with
  | none => .error (.defaultsNotJson t)
  | some (.object fields) => .ok fields
  | some _ => .error (.defaultsNotObject t)

-- The first reason why arguments ask for something that cannot be done.
def conflict? (a : Arguments) (files : List Text) : Option ConfigurationError :=
  match a.others with
  | argument :: _ => some (.strayArgument argument)
  | [] =>
    if 1 < files.count standardInput then some .standardInputTwice
    else if (a.texts? "aggFuncs").isNone && (a.integers? "keyColumns").isSome then
      some (.lacks "key_columns" "agg_funcs")
    else if (a.texts? "aggFuncs").isNone && (a.integer? "valueColumn").isSome then
      some (.lacks "value_column" "agg_funcs")
    else if a.isOn "reverse" && (a.integers? "orderBy").isNone then
      some (.lacks "reverse" "order_by_columns")
    else none

-- What the arguments ask for.
def ofArguments (a : Arguments) : Except ConfigurationError Settings := do
  let files := (a.texts? "files").getD [standardInput]
  if let some e := conflict? a files then .error e
  let defaults ← (a.text? "defaults").mapM readDefaults
  return {
    files
    queries := (a.texts? "queries").getD (files.map fun _ => Record.selfName)
    compact := a.isOn "compact"
    verbose := a.isOn "verbose"
    skipsFirst := a.isOn "skipHeader"
    defaults
    aggregation := (a.texts? "aggFuncs").map fun reducers =>
      ⟨reducers, (a.integers? "keyColumns").getD [], (a.integer? "valueColumn").getD (.zero false)⟩
    distinct := a.isOn "distinct"
    order := (a.integers? "orderBy").map fun columns => ⟨columns, a.isOn "reverse"⟩
    limit := a.integer? "limit"
  }

-- The plan for these settings, given the lines under each file name.
def plan (s : Settings) (lines : Text → Flow Text) : Plan where
  queries := s.queries
  inputs := s.files.map fun name => ⟨name, lines name⟩
  skipsFirst := s.skipsFirst
  defaults := s.defaults.getD []
  aggregation := s.aggregation
  distinct := s.distinct
  order := s.order
  limit := s.limit

end Settings

end RecordQuery
