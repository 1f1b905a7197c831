/-
Failures, layer by layer, and their wording. Each failure is recoverable: what
refused left everything as it was, unless its documentation says otherwise.
-/
import AgentScheduler.Config

namespace AgentScheduler

/-- What is wrong with a list of class declarations. -/
inductive DeclarationFault
  | twoParents (cls : String)
  | undeclaredParent (cls parent : String)
  | cyclic (cls : String)
  | nameTaken (name owner : String)
  | other (reason : String)
  deriving DecidableEq

/-- The wording of a fault. -/
def DeclarationFault.message : DeclarationFault → String
  | twoParents cls => "class '" ++ cls ++ "' declared twice with different parents"
  | undeclaredParent cls parent => "class '" ++ cls ++ "' extends undeclared class '" ++ parent ++ "'"
  | cyclic cls => "class hierarchy of '" ++ cls ++ "' is cyclic"
  | nameTaken name owner =>
    "instance name '" ++ name ++ "' already registered for class '" ++ owner ++ "'"
  | other reason => reason

/-- Failures of bindings, declarations, static variables and task states. -/
inductive AgentError
  | unregisteredName (name cls : String)
  | nameAlreadyBound (name : String)
  | nameNotBound (name : String)
  | notRegistered (agent : String)
  | unknownClass (cls : String)
  | registration (fault : DeclarationFault)
  | nonFiniteValue (cls name : String)
  | state (reason : String)
  deriving DecidableEq

/-- The wording of a failure. -/
def AgentError.message : AgentError → String
  | unregisteredName name cls =>
    "instance name '" ++ name ++ "' is not registered for class '" ++ cls ++ "' or its ancestors"
  | nameAlreadyBound name =>
    "instance name '" ++ name ++ "' is already bound to a different agent"
  | nameNotBound name => "instance name '" ++ name ++ "' is not bound"
  | notRegistered agent => "agent '" ++ agent ++ "' is not registered in this context"
  | unknownClass cls => "unknown agent class '" ++ cls ++ "'"
  | registration fault => "type registration error: " ++ fault.message
  | nonFiniteValue cls name => "static variable '" ++ cls ++ "." ++ name ++ "' must be finite"
  | state reason => "agent state error: " ++ reason

/-- Failures of a receiver of records. -/
inductive LogError
  | sink (reason : String)
  | io (reason : String)
  deriving DecidableEq

/-- The wording of a failure. -/
def LogError.message : LogError → String
  | sink reason => "log sink rejected record: " ++ reason
  | io reason => "I/O error: " ++ reason

/-- How a snapshot differs from the context it is loaded into. -/
inductive Mismatch
  | otherContext (source target : ContextId)
  | unknownClass (cls : String)
  | noAgent (id : AgentId) (context : ContextId)
  | otherClass (id : AgentId) (found expected : String)
  | invalidName (name cls : String)
  | other (reason : String)
  deriving DecidableEq

/-- The wording of a mismatch. -/
def Mismatch.message : Mismatch → String
  | otherContext source target =>
    "snapshot was taken from " ++ source.display ++ ", not " ++ target.display
  | unknownClass cls => "unknown class '" ++ cls ++ "' in static variables"
  | noAgent id context => id.display ++ " is not registered in context " ++ context.display
  | otherClass id found expected =>
    id.display ++ " has class '" ++ found ++ "', snapshot expects '" ++ expected ++ "'"
  | invalidName name cls =>
    "'" ++ name ++ "' is not a registered instance name for class '" ++ cls ++ "'"
  | other reason => reason

/-- Failures of a context. -/
inductive ContextError
  | agent (e : AgentError)
  | executing (context : ContextId)
  | structuralMismatch (m : Mismatch)
  | log (e : LogError)
  | encoding (reason : String)
  deriving DecidableEq

/-- The wording of a failure. -/
def ContextError.message : ContextError → String
  | agent e => e.message
  | executing context =>
    "context " ++ context.display ++ " is executing; the operation is only valid between ticks"
  | structuralMismatch m => "snapshot does not match context: " ++ m.message
  | log e => e.message
  | encoding reason => "state encoding error: " ++ reason

/-- Failures of a workspace. -/
inductive WorkspaceError
  | invalidContextId (id : ContextId)
  | duplicateContext (id : ContextId)
  | context (e : ContextError)
  | config (e : BaseError)
  deriving DecidableEq

/-- The wording of a failure. -/
def WorkspaceError.message : WorkspaceError → String
  | invalidContextId id => id.display ++ " does not name a single context"
  | duplicateContext id => id.display ++ " already exists in this workspace"
  | context e => e.message
  | config e => "workspace configuration error: " ++ e.message

/-- Failures of an output writer. -/
inductive OutputError
  | io (reason : String)
  | csv (reason : String)
  | sqlite (reason : String)
  | busy
  deriving DecidableEq

/-- The wording of a failure. -/
def OutputError.message : OutputError → String
  | io reason => "I/O error: " ++ reason
  | csv reason => "CSV write error: " ++ reason
  | sqlite reason => "SQLite error: " ++ reason
  | busy => "output writer is already in use"

end AgentScheduler
