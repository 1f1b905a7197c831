/-
A writer behind a receiver of records, and behind an observer of ticks.

The receiver passes a refusal on, so a refused batch of changes is sent again.
The observer keeps the first refusal until somebody asks for it.
-/
import AgentScheduler.Output.Row
import AgentScheduler.Workspace

namespace AgentScheduler.Output

/-- The call that a record becomes. -/
def Call.ofRecord : Record → Call
  | .statics context frame cls changes =>
    .statics (changes.map (StaticRow.ofChange context frame cls))
  | .state context frame agent cls name text =>
    .state ⟨context.number, frame, agent.number, cls, name, text⟩

/-- Calls a writer in the state of a host. -/
def Channel.call {α : Type} (channel : Channel α) (c : Call) (h : Host α) :
    Except OutputError Unit × Host α :=
  let (result, app) := channel c h.app
  (result, { h with app })

/-- The receiver that writes every record. -/
def sink {α : Type} (channel : Channel α) : Sink α := fun record h =>
  let (result, h) := channel.call (Call.ofRecord record) h
  (result.mapError fun e => .sink e.message, h)

/-- The first refusal since one was last taken out. -/
abbrev FirstError := Option OutputError

/-- The observer that writes the report of every tick. -/
def observer {α : Type} (channel : Channel α) : Observer FirstError α
  | .ended context report, first, h =>
    match channel.call (.tick (.ofReport context report)) h with
    | (.ok (), h) => (first, h)
    | (.error e, h) => (some (first.getD e), h)
  | _, first, h => (first, h)

/-- Takes the first refusal out. -/
def takeError (first : FirstError) : Option OutputError × FirstError := (first, none)

/-- The first refusal, taken out; without one the writer finishes. -/
def finish {α : Type} (channel : Channel α) (first : FirstError) (h : Host α) :
    Except OutputError Unit × FirstError × Host α :=
  match first with
  | some e => (.error e, none, h)
  | none =>
    let (result, h) := channel.call .finish h
    (result, none, h)

end AgentScheduler.Output
