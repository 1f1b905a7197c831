/-
What a session answers to its commands and to the actions of scripted tasks.
-/
import AgentScheduler.Session.Script
import AgentScheduler.World

namespace AgentScheduler.Session

/-- Why a session refuses a command before it reaches the runtime. -/
inductive Refusal
  | noAgent | noContext | noWorkspace | noSnapshot | noSink | busy
  deriving DecidableEq

/-- Everything that can be seen of a context. -/
structure Dump where
  id : ContextId
  clock : Clock
  lastId : UInt32
  counts : Counts
  consistent : Bool
  /-- For each priority the ids and the names of the agents, where those are alive. -/
  buckets : List (Int32 × List (AgentId × Option String))
  /-- The bound names and the names of the agents they are bound to. -/
  bindings : List (String × String)
  createdByDirectory : Bool
  executing : Bool
  /-- The live agents in the order of their runs. -/
  agents : List AgentView
  statics : Statics
  classes : List String

namespace Dump

variable {τ α : Type}

/-- The ids of a bucket, with the names of live agents. -/
def bucket (w : World τ α) (agents : SortedMap AgentId AgentRef) :
    List (AgentId × Option String) :=
  agents.toList.map fun (id, a) => (id, (w.live? a).map (·.name))

/-- What can be seen of a context. -/
def of (w : World τ α) (ctx : Context) : Dump where
  id := ctx.id
  clock := ctx.clock
  lastId := ctx.registry.lastId
  counts := w.counts ctx.registry
  consistent := ctx.registry.isConsistent
  buckets := ctx.registry.buckets.toList.map fun (priority, agents) =>
    (priority, bucket w agents)
  bindings := ctx.registry.named.toList.filterMap fun (name, a) =>
    (w.live? a).map fun agent => (name, agent.name)
  createdByDirectory := ctx.createdByDirectory
  executing := ctx.executing
  agents := ctx.registry.walkOrder.filterMap fun a => (w.live? a).map (·.view)
  statics := ctx.statics
  classes := ctx.types.classes.keys

end Dump

/-- The answer to a command or an action. -/
inductive Answer
  | done
  | nothing
  | flag (b : Bool)
  | number (n : Int)
  | text (s : String)
  | value (v : Value)
  | agent (v : AgentView)
  | status (s : Status)
  | report (r : TickReport)
  | clock (c : Clock)
  | snapshot (s : Snapshot)
  | blob (j : Json)
  | statics (live baseline : Option Variables) (pending : List VarChange)
  | records (rs : List Record)
  | notices (ns : List Notice)
  | contents (w : Writer)
  | dump (d : Dump)
  | equal (b : Bool)
  | list (items : List Answer)
  | refused (r : Refusal)
  | agentFault (e : AgentError)
  | contextFault (e : ContextError)
  | workspaceFault (e : WorkspaceError)
  | configFault (e : BaseError)
  | outputFault (e : OutputError)

namespace Answer

/-- The answer for a value that may be absent. -/
def ofOption {β : Type} (f : β → Answer) : Option β → Answer
  | some b => f b
  | none => nothing

/-- The answer for a result or a failure. -/
def ofExcept {ε β : Type} (fault : ε → Answer) (f : β → Answer) : Except ε β → Answer
  | .ok b => f b
  | .error e => fault e

/-- The sizes of a context. -/
def ofCounts (c : Counts) : Answer :=
  list [number c.agents, number c.pendingAdditions, number c.pendingRemovals, number c.bindings]

end Answer

/-- What scripted tasks leave behind: a step without a script, the start of a step, and
each action with its answer. -/
inductive Trace
  | idle (agent : String)
  | run (agent : String)
  | did (agent : String) (action : Action) (answer : Answer)

end AgentScheduler.Session
