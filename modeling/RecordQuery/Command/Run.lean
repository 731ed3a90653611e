import RecordQuery.Command.Help
import RecordQuery.Command.Settings
import RecordQuery.Function.Standard

/-!
The command: what it answers to its arguments and inputs. Results go to standard output, one a line;
log entries and the message of a failure go to standard error.
-/

namespace RecordQuery.Command

def name : Text := "recq"

def version : Text := "0.1.0"

def help : HelpPage where
  name := name
  summary := "query JSON lines and CSV records with expressions"
  usage := "recq [options]"
  description := [
    "Reads records line by line (JSON objects, falling back to CSV for the",
    "rest of a stream once a line is not a JSON object), evaluates a query",
    "per record and prints one result per line. A list result is printed",
    "element by element."]
  options := [
    "-q, --queries Q...            one query per input (default: _)",
    "-f, --files F...              one or two input files, - for stdin",
    "-c, --compact                 print objects on one line",
    "-s, --skip_header             skip the first line of each input",
    "-i, --default JSON            object merged under every JSON record",
    "-d, --distinct                drop duplicate results",
    "-a, --agg_funcs F...          aggregate with these reducers",
    "-k, --key_columns N...        group by these columns",
    "-v, --value_column N          column fed to the reducers (default: 0)",
    "-o, --order_by_columns N...   sort by these columns",
    "-r, --reverse                 sort descending",
    "-l, --limit N                 print at most N results (0: no limit)",
    "    --verbose                 log the pipeline to stderr",
    "-h, --help                    show this help",
    "    --version                 show the version"]
  examples := [
    "recq -q 'name' -f users.jsonl",
    "recq -q '(dept, salary)' -a sum avg -k 0 -v 1 -f staff.jsonl",
    "recq -q '(id, name)' '(id, total)' -f users.jsonl orders.csv",
    "recq -q '_[0]' -d -o 0 -l 10 < rows.csv"]
  notes := [
    "With two inputs the results are joined on their first column.",
    "Stages run in order: query, join, aggregate, distinct, sort, limit."]

-- What a run leaves behind.
structure Report where
  status : Nat
  output : Text
  errors : Text
  events : List Event

-- The sentence that points to the help page of a command.
def hint (command : Text) : Text := .concat ["Try '", command, " --help' for more information.\n"]

-- A message of a command about its own use.
def usageError (command : Text) (e : ArgumentError) : Text :=
  .concat [command, ": ", e.message, "\n", hint command]

-- A message that ends a run.
def complaint (e : Failure) : Text :=
  .concat [name, ": ", e.message, "\n", match e with
    | .configuration _ => hint name
    | _ => []]

-- A run that ends before any input is touched.
def Report.refused (status : Nat) (errors : Text) : Report := ⟨status, [], errors, []⟩

def Report.ofFailure (e : Failure) : Report := .refused e.status (complaint e)

-- What has been written so far, with the latest pieces first.
structure Transcript where
  output : List Text
  errors : List Text
  events : List Event

def Transcript.empty : Transcript := ⟨[], [], []⟩

def Transcript.report (t : Transcript) (status : Nat) : Report :=
  ⟨status, t.output.reverse.flatten, t.errors.reverse.flatten, t.events.reverse⟩

-- A transcript with one more event; log entries are written if asked for.
def Transcript.note (verbose : Bool) (t : Transcript) (e : Event) : Transcript :=
  match e with
  | .logged entry =>
    if verbose then
      ⟨t.output, .concat [name, ": ", entry.line, "\n"] :: t.errors, e :: t.events⟩
    else ⟨t.output, t.errors, e :: t.events⟩
  | _ => ⟨t.output, t.errors, e :: t.events⟩

-- A transcript with one more result.
def Transcript.print (compact : Bool) (t : Transcript) (v : Value) : Transcript :=
  ⟨(v.line compact ++ [10]) :: t.output, t.errors, t.events⟩

-- The report of a run, from what it wrote before the flow that follows.
def follow (compact verbose : Bool) (t : Transcript) : Flow Value → Report
  | .done => t.report 0
  | .failed e => Transcript.report ⟨t.output, complaint e :: t.errors, t.events⟩ e.status
  | .event e rest => follow compact verbose (t.note verbose e) (rest ())
  | .item v rest => follow compact verbose (t.print compact v) (rest ())

-- What a run can read.
structure Surroundings where
  standardInput : List Text
  file : Text → Except OpenError (List Text)

-- The lines under a file name. A file is opened when its first line is asked for.
def Surroundings.lines (s : Surroundings) (file : Text) : Flow Text :=
  if file = Settings.standardInput then .ofSource file s.standardInput
  else
    match s.file file with
    | .ok lines => .event (.opened file) fun _ => .ofSource file lines
    | .error e => .failed (.input file e)

-- The run of some settings.
def run (settings : Settings) (s : Surroundings) : Report :=
  match (settings.plan s.lines).start Library.standard with
  | .ok flow => follow settings.compact settings.verbose .empty flow
  | .error e => .ofFailure e

-- The settings that arguments ask for, or the report of a command that reads no input: one that
-- cannot be run, or one that only tells about itself.
def prepare (arguments : List Text) : Except Report Settings := do
  let a ← (Arguments.read Settings.options arguments).mapError fun e =>
    .refused 2 (usageError name e)
  if a.isOn "help" then .error ⟨0, help.render, [], []⟩
  if a.isOn "version" then .error ⟨0, .concat [name, " ", version, "\n"], [], []⟩
  let settings ← (Settings.ofArguments a).mapError fun e => .ofFailure (.configuration e)
  match (settings.plan fun _ => .done).start Library.standard with
  | .ok _ => return settings
  | .error e => .error (.ofFailure e)

-- What the command answers.
def answer (arguments : List Text) (s : Surroundings) : Report :=
  match prepare arguments with
  | .ok settings => run settings s
  | .error report => report

end RecordQuery.Command
