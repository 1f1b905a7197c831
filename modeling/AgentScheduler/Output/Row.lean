/-
The rows that a writer is given: summaries of ticks, changes of static
variables and states of agents. Each kind of row has a table with named
columns, and every row has one cell for each column of its table.
-/
import AgentScheduler.Record
import AgentScheduler.TickReport

namespace AgentScheduler.Output

/-- The numbers of a tick of a context. -/
structure TickRow where
  context : Int64
  frame : UInt64
  executed : Nat
  success : Nat
  failure : Nat
  running : Nat
  added : Nat
  removed : Nat
  stale : Nat
  deriving DecidableEq

/-- A changed static variable; the text of an absent value is empty. -/
structure StaticRow where
  context : Int64
  frame : UInt64
  cls : String
  name : String
  old : String
  new : String
  deriving DecidableEq

/-- The state of an agent. -/
structure StateRow where
  context : Int64
  frame : UInt64
  agent : UInt32
  cls : String
  name : String
  state : String
  deriving DecidableEq

/-- The row of a report. -/
def TickRow.ofReport (context : ContextId) (r : TickReport) : TickRow where
  context := context.number
  frame := r.frame
  executed := r.executed
  success := r.success
  failure := r.failure
  running := r.running
  added := r.added
  removed := r.removed
  stale := r.stale

/-- The row of a change: text is written without quotes. -/
def StaticRow.ofChange (context : ContextId) (frame : UInt64) (cls : String) (c : VarChange) :
    StaticRow where
  context := context.number
  frame := frame
  cls := cls
  name := c.name
  old := (c.old.map Value.plain).getD ""
  new := (c.new.map Value.plain).getD ""

/-- The tables. -/
inductive Table
  | ticks | statics | states
  deriving DecidableEq

/-- The name of a table. -/
def Table.name : Table → String
  | ticks => "tick_summaries"
  | statics => "static_changes"
  | states => "agent_states"

/-- The file of a table. -/
def Table.fileName (t : Table) : String := t.name ++ ".csv"

/-- The names of a table's columns. -/
def Table.columns : Table → List String
  | ticks =>
    ["context_id", "frame", "executed", "success", "failure", "running", "added", "removed", "stale"]
  | statics => ["context_id", "frame", "class", "name", "old", "new"]
  | states => ["context_id", "frame", "agent_id", "class", "name", "state"]

/-- The content of a cell. -/
inductive Cell
  | int (i : Int)
  | text (s : String)
  deriving DecidableEq

/-- The cells of a row, in the order of the columns. -/
def TickRow.cells (r : TickRow) : List Cell :=
  [.int r.context.toInt, .int r.frame.toNat, .int r.executed, .int r.success, .int r.failure,
    .int r.running, .int r.added, .int r.removed, .int r.stale]

/-- The cells of a row, in the order of the columns. -/
def StaticRow.cells (r : StaticRow) : List Cell :=
  [.int r.context.toInt, .int r.frame.toNat, .text r.cls, .text r.name, .text r.old, .text r.new]

/-- The cells of a row, in the order of the columns. -/
def StateRow.cells (r : StateRow) : List Cell :=
  [.int r.context.toInt, .int r.frame.toNat, .int r.agent.toNat, .text r.cls, .text r.name,
    .text r.state]

/-- What a writer is asked to do. -/
inductive Call
  | tick (row : TickRow)
  | statics (rows : List StaticRow)
  | state (row : StateRow)
  | finish
  deriving DecidableEq

/-- The table that a call writes to. -/
def Call.table? : Call → Option Table
  | tick _ => some .ticks
  | statics _ => some .statics
  | state _ => some .states
  | finish => none

/-- The rows that a call writes, as cells. -/
def Call.rows : Call → List (List Cell)
  | tick row => [row.cells]
  | statics rows => rows.map StaticRow.cells
  | state row => [row.cells]
  | finish => []

/-- A writer somewhere in the application's state. -/
abbrev Channel (α : Type) := Call → α → Except OutputError Unit × α

end AgentScheduler.Output
