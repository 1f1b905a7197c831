/-
The commands of a session.
-/
import AgentScheduler.Session.Script

namespace AgentScheduler.Session

/-- How a session names a context: by slot, or by the id it has in the workspace. -/
inductive ContextName
  | slot (name : String)
  | member (id : ContextId)
  deriving DecidableEq

/-- A kind of receiver. -/
inductive SinkSpec
  | memory (fails : List Nat) (broken : Bool)
  | reporting
  | output (writer : String)
  deriving DecidableEq

/-- A kind of writer. -/
inductive WriterSpec
  /-- Files of comma-separated values, in a directory that exists or does not. -/
  | csv (missing : Bool)
  /-- A database, in a directory that exists or does not. -/
  | database (missing : Bool)
  | recorder (fails : List Nat)
  deriving DecidableEq

/-- A kind of observer. -/
inductive ObserverSpec
  | recorder
  | output (writer : String)
  deriving DecidableEq

/-- A workspace configuration: given, or as JSON text. -/
inductive ConfigSpec
  | given (c : Config)
  | text (json : String)
  deriving DecidableEq

/-- A command that concerns one agent. -/
inductive AgentCommand
  | info
  | debug
  | setPlace (place : Registration)
  | clearPlace
  | saveState
  | loadState (state : Json)
  | describe

/-- A command that concerns one context. -/
inductive ContextCommand
  | dump
  | setCreated (on : Bool)
  | byId (id : AgentId)
  | bucket (priority : Int32)
  | unbind (name : String)
  | lookup (name : String)
  | clearBindings
  | clearBaselines
  | release
  | get (cls name : String)
  | set (cls name : String) (v : Value)
  | classStatics (cls : String)
  | tick
  | setClock (frames : Option UInt64) (millis : Option Int64) (secs : Option Binary64)
  | save (slot : String)
  deriving DecidableEq

/-- A command that concerns an agent and a context. -/
inductive MemberCommand
  | add
  | remove
  | contains
  | bind (name : String)
  | exec
  deriving DecidableEq

/-- A command on a workspace. -/
inductive WorkspaceCommand
  | context (id : ContextId)
  | find (id : ContextId)
  | ids
  | tick (id : ContextId) (observer : Option String)
  | log (id : ContextId)
  | cleanup (id : ContextId) (observer : Option String)
  | replaceSink (sink : String)
  | debug
  | info
  deriving DecidableEq

/-- A command. -/
inductive Command
  | create (key name cls : String) (priority : Int32) (task : TaskSpec)
  | drop (key : String)
  | same (a b : AgentName)
  | agent (a : AgentName) (c : AgentCommand)
  | pool (name : String) (retain : Bool)
  | newContext (slot : String) (id : ContextId) (stepMillis : UInt32)
  | dropContext (slot : String)
  | context (c : ContextName) (command : ContextCommand)
  | member (a : AgentName) (c : ContextName) (command : MemberCommand)
  | logStatics (c : ContextName) (sink : String) (cls : Option String)
  | logState (c : ContextName) (sink : String)
  | load (c : ContextName) (slot : Option String)
  | toText (slot : String)
  | fromText (slot text : String)
  | reread (slot : String)
  | newSink (name : String) (spec : SinkSpec)
  | takeRecords (sink : String)
  | newWriter (name : String) (spec : WriterSpec)
  | write (writer : String) (call : Output.Call)
  | finish (writer : String)
  | close (writer : String)
  | newObserver (name : String) (spec : ObserverSpec)
  | readObserver (name : String)
  | takeError (observer : String)
  | finishObserver (observer : String)
  | newWorkspace (config : ConfigSpec) (sink : Option String)
  | dropWorkspace
  | insertContext (slot : String)
  | workspace (c : WorkspaceCommand)

end AgentScheduler.Session
