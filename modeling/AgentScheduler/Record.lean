/-
Records that contexts hand to a receiver, and the receivers.
-/
import AgentScheduler.Event
import AgentScheduler.Variables

namespace AgentScheduler

/-- The changed static variables of a class, or the state of one agent, at a frame of a
context. -/
inductive Record
  | statics (context : ContextId) (frame : UInt64) (cls : String) (changes : List VarChange)
  | state (context : ContextId) (frame : UInt64) (agent : AgentId) (cls name text : String)
  deriving DecidableEq

/-- What surrounds the contexts: the application's own state, and the reports so far. -/
structure Host (α : Type) where
  app : α
  events : Array Event := #[]

/-- The host with one more report. -/
def Host.report {α : Type} (h : Host α) (e : Event) : Host α :=
  { h with events := h.events.push e }

/-- A receiver of records: it accepts one or refuses it, and may change its host. -/
abbrev Sink (α : Type) := Record → Host α → Except LogError Unit × Host α

/-- Reports every record and accepts it. -/
def Sink.reporting {α : Type} : Sink α
  | .statics context frame cls changes, h =>
    (.ok (), changes.foldl (fun h c => h.report (.staticChanged context frame cls c.display)) h)
  | .state context frame agent cls name text, h =>
    (.ok (), h.report (.agentState context frame agent cls name text))

end AgentScheduler
