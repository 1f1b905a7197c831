/-
Tables as files of comma-separated values, one file for each table, with a line
of column names first.

A field is quoted only if it contains a comma, a quote or a line end; a quote
inside is written twice. Written rows stay in a buffer until the file is
flushed. Only the first `finish` flushes.
-/
import AgentScheduler.Output.Row

namespace AgentScheduler.Output

/-! ## The format -/

namespace Csv

/-- Has to be quoted. -/
def needsQuotes (c : Char) : Bool := c == ',' || c == '"' || c == '\n' || c == '\r'

/-- A quote is written twice and all else once. -/
def doubleQuotes : List Char → List Char
  | [] => []
  | c :: cs => if c = '"' then '"' :: '"' :: doubleQuotes cs else c :: doubleQuotes cs

/-- A field. -/
def field (cs : List Char) : List Char :=
  if cs.any needsQuotes then '"' :: doubleQuotes cs ++ ['"'] else cs

/-- The fields of a record, with commas between them. -/
def fields : List (List Char) → List Char
  | [] => []
  | [f] => field f
  | f :: fs => field f ++ ',' :: fields fs

/-- A record with its line end. -/
def record (fs : List (List Char)) : List Char := fields fs ++ ['\n']

end Csv

/-- The text of a cell. -/
def Cell.csvText : Cell → List Char
  | int i => (toString i).toList
  | text s => s.toList

/-! ## Files -/

/-- A file: what is on the disk, and what waits in the buffer. -/
structure CsvFile where
  flushed : List Char := []
  buffered : List Char := []
  deriving DecidableEq

namespace CsvFile

/-- Puts a record into the buffer. -/
def write (f : CsvFile) (fs : List (List Char)) : CsvFile :=
  { f with buffered := f.buffered ++ Csv.record fs }

/-- Moves the buffer to the disk. -/
def flush (f : CsvFile) : CsvFile := ⟨f.flushed ++ f.buffered, []⟩

/-- A file with the column names of a table in its buffer. -/
def new (t : Table) : CsvFile := write {} (t.columns.map (·.toList))

end CsvFile

/-- A file for each table. -/
structure CsvWriter where
  ticks : CsvFile := .new .ticks
  statics : CsvFile := .new .statics
  states : CsvFile := .new .states
  finished : Bool := false
  deriving DecidableEq

namespace CsvWriter

/-- The file of a table. -/
def file (w : CsvWriter) : Table → CsvFile
  | .ticks => w.ticks
  | .statics => w.statics
  | .states => w.states

/-- Changes the file of a table. -/
def modify (w : CsvWriter) (t : Table) (f : CsvFile → CsvFile) : CsvWriter :=
  match t with
  | .ticks => { w with ticks := f w.ticks }
  | .statics => { w with statics := f w.statics }
  | .states => { w with states := f w.states }

/-- Writes rows to the file of their table. -/
def writeRows (w : CsvWriter) (t : Table) (rows : List (List Cell)) : CsvWriter :=
  rows.foldl (fun w cells => w.modify t (·.write (cells.map Cell.csvText))) w

/-- Flushes tables one after the other up to the first failure; `fails` is why the flush of
a table fails, if it does. -/
def flushAll (fails : Table → Option String) :
    List Table → CsvWriter → Except OutputError Unit × CsvWriter
  | [], w => (.ok (), w)
  | t :: ts, w =>
    match fails t with
    | some reason => (.error (.io reason), w)
    | none => flushAll fails ts (w.modify t CsvFile.flush)

/-- Flushes all files, the first time it is asked to. -/
def finish (fails : Table → Option String) (w : CsvWriter) :
    Except OutputError Unit × CsvWriter :=
  if w.finished then (.ok (), w)
  else flushAll fails [.ticks, .statics, .states] { w with finished := true }

/-- Serves a call; a flush fails where `fails` gives a reason. -/
def serve (fails : Table → Option String) (call : Call) (w : CsvWriter) :
    Except OutputError Unit × CsvWriter :=
  match call.table? with
  | some t => (.ok (), w.writeRows t call.rows)
  | none => w.finish fails

/-- The names and the contents of the files on the disk. -/
def onDisk (w : CsvWriter) : List (String × String) :=
  [Table.ticks, Table.statics, Table.states].map fun t =>
    (t.fileName, String.ofList (w.file t).flushed)

/-- The writer goes; what is in the buffers reaches the disk. -/
def close (w : CsvWriter) : CsvWriter :=
  { w with ticks := w.ticks.flush, statics := w.statics.flush, states := w.states.flush }

end CsvWriter

end AgentScheduler.Output
