/-
What the runtime reports about itself while it works. Each report has a level,
an origin, a message and named fields.
-/
import AgentScheduler.Error
import AgentScheduler.Json

namespace AgentScheduler

/-- How important a report is. -/
inductive Level
  | trace | debug | info | warn
  deriving DecidableEq

/-- The part of the runtime that reports. -/
inductive Origin
  | context | persistence | registry | scheduler | statics | state | workspace | tasks
  deriving DecidableEq

/-- A report. -/
inductive Event
  | addDeferred (context : ContextId) (agent : String)
  | removeDeferred (context : ContextId) (agent : String)
  | contextReleased (context : ContextId)
  | contextSaved (context : ContextId) (agents : Nat)
  | contextLoaded (context : ContextId) (agents : Nat)
  | rollbackFailed (agent : AgentId) (error : AgentError)
  | agentAdded (context : ContextId) (agent : AgentId) (priority : Int32) (cls : String)
  | agentRemoved (context : ContextId) (agent : AgentId) (priority : Int32)
  | bindingDropped (context : ContextId) (name : String)
  | refusedBindingsDropped (context : ContextId) (agent : String) (dropped : Nat)
  | instanceBound (context : ContextId) (name agent : String)
  | instanceUnbound (context : ContextId) (name : String)
  | stalePruned (context : ContextId) (pruned : Nat)
  | ownedElsewhere (context owner : ContextId) (agent : String)
  | idsExhausted (context : ContextId) (agent : String)
  | alreadyTicking (context : ContextId)
  | taskBusy (context : ContextId) (agent : AgentId)
  | tickComplete (context : ContextId) (frame : UInt64) (executed added removed : Nat)
  | staticChanged (context : ContextId) (frame : UInt64) (cls change : String)
  | agentState (context : ContextId) (frame : UInt64) (agent : AgentId) (cls name state : String)
  | contextCreated (context : ContextId)
  | contextDestroyed (context : ContextId)
  | contextInserted (context : ContextId)
  | contextReturned (context : ContextId)
  | periodicLog (context : ContextId) (frame : UInt64) (records : Nat)
  | tickLogFailed (context : ContextId) (error : ContextError)
  | counterNotUpdated (error : AgentError)
  | championNotBound (error : AgentError)
  deriving DecidableEq

namespace Event

/-- The level of a report. -/
def level : Event → Level
  | rollbackFailed .. | ownedElsewhere .. | idsExhausted .. | alreadyTicking .. | taskBusy ..
  | tickLogFailed .. | counterNotUpdated .. | championNotBound .. => .warn
  | tickComplete .. => .trace
  | staticChanged .. | agentState .. | contextCreated .. | contextDestroyed ..
  | contextInserted .. | contextReturned .. => .info
  | _ => .debug

/-- The part of the runtime that a report is from. -/
def origin : Event → Origin
  | addDeferred .. | removeDeferred .. | contextReleased .. => .context
  | contextSaved .. | contextLoaded .. | rollbackFailed .. => .persistence
  | alreadyTicking .. | taskBusy .. | tickComplete .. => .scheduler
  | staticChanged .. => .statics
  | agentState .. => .state
  | contextCreated .. | contextDestroyed .. | contextInserted .. | contextReturned ..
  | periodicLog .. | tickLogFailed .. => .workspace
  | counterNotUpdated .. | championNotBound .. => .tasks
  | _ => .registry

/-- The message of a report. -/
def message : Event → String
  | addDeferred .. => "add deferred until end of tick"
  | removeDeferred .. => "remove deferred until end of tick"
  | contextReleased .. => "context released"
  | contextSaved .. => "context saved"
  | contextLoaded .. => "context loaded"
  | rollbackFailed .. => "state rollback failed"
  | agentAdded .. => "agent added"
  | agentRemoved .. => "agent removed"
  | bindingDropped .. => "binding dropped with agent"
  | refusedBindingsDropped .. => "bindings to refused agent dropped"
  | instanceBound .. => "instance bound"
  | instanceUnbound .. => "instance unbound"
  | stalePruned .. => "stale agents pruned"
  | ownedElsewhere .. => "agent already registered in another context; add ignored"
  | idsExhausted .. => "agent id space exhausted; add ignored"
  | alreadyTicking .. => "exec_agents called while already executing; ignored"
  | taskBusy .. => "task already running; skipped"
  | tickComplete .. => "tick complete"
  | staticChanged .. => "static variable changed"
  | agentState .. => "agent state"
  | contextCreated .. => "context created"
  | contextDestroyed .. => "context destroyed"
  | contextInserted .. => "external context registered"
  | contextReturned .. => "external context returned to owner"
  | periodicLog .. => "periodic state log"
  | tickLogFailed .. => "tick logging failed"
  | counterNotUpdated .. => "static counter not updated"
  | championNotBound .. => "champion not bound"

/-- A field that holds a count. -/
def count (name : String) (n : Nat) : String × Json := (name, .int n)

/-- A field that holds text. -/
def text (name s : String) : String × Json := (name, .str s)

/-- The named fields of a report: identifiers and failures as displayed, counts and
priorities as numbers. -/
def fields : Event → List (String × Json)
  | addDeferred c a | removeDeferred c a => [text "context" c.display, text "agent" a]
  | contextReleased c | alreadyTicking c | contextCreated c | contextDestroyed c
  | contextInserted c | contextReturned c => [text "context" c.display]
  | contextSaved c n | contextLoaded c n => [text "context" c.display, count "agents" n]
  | rollbackFailed a e => [text "agent" a.display, text "error" e.message]
  | agentAdded c a p cls =>
    [text "context" c.display, text "agent" a.display, ("priority", .int p.toInt),
      text "class" cls]
  | agentRemoved c a p =>
    [text "context" c.display, text "agent" a.display, ("priority", .int p.toInt)]
  | bindingDropped c name | instanceUnbound c name => [text "context" c.display, text "name" name]
  | refusedBindingsDropped c a n =>
    [text "context" c.display, text "agent" a, count "dropped" n]
  | instanceBound c name a => [text "context" c.display, text "name" name, text "agent" a]
  | stalePruned c n => [text "context" c.display, count "pruned" n]
  | ownedElsewhere c owner a =>
    [text "context" c.display, text "owner" owner.display, text "agent" a]
  | idsExhausted c a => [text "context" c.display, text "agent" a]
  | taskBusy c a => [text "context" c.display, text "agent" a.display]
  | tickComplete c frame executed added removed =>
    [text "context" c.display, count "frame" frame.toNat, count "executed" executed,
      count "added" added, count "removed" removed]
  | staticChanged c frame cls change =>
    [text "context" c.display, count "frame" frame.toNat, text "class" cls, text "change" change]
  | agentState c frame a cls name state =>
    [text "context" c.display, count "frame" frame.toNat, text "agent" a.display,
      text "class" cls, text "name" name, text "state" state]
  | periodicLog c frame records =>
    [text "context" c.display, count "frame" frame.toNat, count "records" records]
  | tickLogFailed c e => [text "context" c.display, text "error" e.message]
  | counterNotUpdated e | championNotBound e => [text "error" e.message]

end Event

end AgentScheduler
