import RecordQuery.Command.Run
import RecordQuery.Text.Lines

/-!
The program: it reads what the command needs and writes what it answers. Inputs are read whole, and
only once the arguments are known to make sense.
-/

open RecordQuery

-- The chunks that standard input comes in, the last one first.
partial def readChunks (input : IO.FS.Stream) (sofar : List (List UInt8)) :
    IO (List (List UInt8)) := do
  let chunk ← input.read 65536
  if chunk.isEmpty then return sofar else readChunks input (chunk.toList :: sofar)

-- The lines of a file, or why it cannot be opened.
def readFile (name : Text) : IO (Except OpenError (List Text)) := do
  try
    let bytes ← IO.FS.readBinFile name.toString
    return .ok (Text.linesOfFile bytes.toList)
  catch e =>
    match e with
    | .noFileOrDirectory .. => return .error .missing
    | e => return .error (.other (Text.ofString e.toString))

-- What the settings need to be read.
def gatherInputs (settings : Settings) : IO Command.Surroundings := do
  let chunks ←
    if settings.files.contains Settings.standardInput then readChunks (← IO.getStdin) []
    else pure []
  let names := settings.files.filter (· != Settings.standardInput)
  let files ← names.mapM fun name => do return (name, ← readFile name)
  return {
    standardInput := Text.linesOfStream chunks.reverse
    file := fun name => (Fields.get? name files).getD (.error .missing)
  }

def main (arguments : List String) : IO UInt32 := do
  let report ← match Command.prepare (arguments.map Text.ofString) with
    | .ok settings => pure (Command.run settings (← gatherInputs settings))
    | .error report => pure report
  (← IO.getStdout).putStr report.output.toString
  (← IO.getStderr).putStr report.errors.toString
  return report.status.toUInt32
