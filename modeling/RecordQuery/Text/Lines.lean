import RecordQuery.Text.Utf8

/-!
Lines of a text. A line feed ends a line, and a carriage return in front of it belongs to the end. A
text that comes as bytes is cut in the same way, except that there a carriage return alone ends a
line too. The end of the last line does not start another one.
-/

namespace RecordQuery.Text

-- The lines that end in the text that follows, and the reversed line under way after them; `line` is
-- the one under way before, and `returnEnds` says whether a carriage return alone ends a line.
def cutLines (returnEnds : Bool) (line : Text) : Text → List Text × Text
  | [] => ([], line)
  | 10 :: rest =>
    let next := cutLines returnEnds [] rest
    (line.reverse :: next.1, next.2)
  | 13 :: 10 :: rest =>
    let next := cutLines returnEnds [] rest
    (line.reverse :: next.1, next.2)
  | u :: rest =>
    if u == 13 && returnEnds then
      let next := cutLines returnEnds [] rest
      (line.reverse :: next.1, next.2)
    else cutLines returnEnds (u :: line) rest

-- The last line, given reversed, if there is anything in it.
def lastLine (line : Text) : List Text := if line.isEmpty then [] else [line.reverse]

def allLines (returnEnds : Bool) (t : Text) : List Text :=
  let cut := cutLines returnEnds [] t
  cut.1 ++ lastLine cut.2

-- The lines of a text at hand.
def lines (t : Text) : List Text := allLines false t

-- The lines of a file, in which a last character that lacks bytes shows as a broken one.
def linesOfFile (bytes : List UInt8) : List Text := allLines true (decodeUtf8 bytes)

-- What a reader of lines keeps between two chunks of bytes: the bytes of a character that is not
-- complete, the reversed line under way, and whether the last chunk ended in a carriage return.
structure LineReader where
  held : List UInt8
  line : Text
  afterReturn : Bool

namespace LineReader

def start : LineReader := ⟨[], [], false⟩

-- The lines that end in a chunk. A line feed right after a carriage return that ended the chunk
-- before has no line of its own.
def feed (reader : LineReader) (chunk : List UInt8) : List Text × LineReader :=
  let bytes := reader.held ++ chunk
  let finished := finishedBytes bytes
  let decoded := decodeUtf8 finished
  let text := if reader.afterReturn && decoded.head? == some 10 then decoded.drop 1 else decoded
  let cut := cutLines true reader.line text
  (cut.1, ⟨bytes.drop finished.length, cut.2, text.getLast? == some 13⟩)

-- The lines that end in chunks and the line at their end. Nobody waits for the rest of a character.
def readAll (reader : LineReader) : List (List UInt8) → List Text
  | [] => lastLine reader.line
  | chunk :: rest =>
    let next := reader.feed chunk
    next.1 ++ next.2.readAll rest

end LineReader

-- The lines of a stream that comes in chunks.
def linesOfStream (chunks : List (List UInt8)) : List Text := LineReader.start.readAll chunks

end RecordQuery.Text
