/-
Tables of a database. An integer is stored with 64 bits and a sign; a larger
one is refused. The rows of one call are stored all or none.
-/
import AgentScheduler.Output.Row

namespace AgentScheduler.Output

/-- The rows of each table, in the order of insertion. -/
structure Database where
  ticks : List (List Cell) := []
  statics : List (List Cell) := []
  states : List (List Cell) := []
  finished : Bool := false
  deriving DecidableEq

namespace Database

/-- Fits into a column. -/
def fits : Cell → Bool
  | .int i => -0x8000000000000000 ≤ i && i ≤ 0x7fffffffffffffff
  | .text _ => true

/-- The rows of a table. -/
def rows (d : Database) : Table → List (List Cell)
  | .ticks => d.ticks
  | .statics => d.statics
  | .states => d.states

/-- Adds rows to a table. -/
def insert (d : Database) (t : Table) (rows : List (List Cell)) : Database :=
  match t with
  | .ticks => { d with ticks := d.ticks ++ rows }
  | .statics => { d with statics := d.statics ++ rows }
  | .states => { d with states := d.states ++ rows }

/-- Serves a call. -/
def serve (call : Call) (d : Database) : Except OutputError Unit × Database :=
  match call.table? with
  | some t =>
    if call.rows.all (·.all fits) then (.ok (), d.insert t call.rows)
    else (.error (.sqlite "number too large to fit in target type"), d)
  | none => (.ok (), { d with finished := true })

end Database

end AgentScheduler.Output
