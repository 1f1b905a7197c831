/-
Tasks of agents as programs that put requests to their surroundings.

While a task runs it is given the context that executes it. It may ask that
context for everything a context offers (`Request.here`), operate on other
contexts it knows (`Request.there`) or end them, create and release agents, run
other agents' tasks, and read and change the application's own state. A program is a
tree of requests, each followed by what is done with the answer; running it is
left to the world it runs in.

A program whose requests are all of the form `here (.task op)` acts on contexts
through the one it is given only (`Prog.Confined`).
-/
import AgentScheduler.Record
import AgentScheduler.Snapshot
import AgentScheduler.Text.Quoted
import AgentScheduler.TickReport

namespace AgentScheduler

/-- Refers to an agent for as long as the world exists, alive or not. -/
structure AgentRef where
  index : Nat
  deriving DecidableEq, Inhabited

/-- Refers to a context for as long as the world exists. -/
structure ContextRef where
  index : Nat
  deriving DecidableEq, Inhabited

/-- Where an agent is registered: the context and the id it has there. -/
structure Registration where
  context : ContextId := .invalid
  id : AgentId := .invalid
  deriving DecidableEq, Inhabited

/-- What can be seen of an agent. -/
structure AgentView where
  name : String
  cls : String
  priority : Int32
  place : Registration
  deriving DecidableEq

/-- The displayed structure of an agent. -/
def AgentView.debug (v : AgentView) : String :=
  "Agent \x7b name: " ++ Text.quoted v.name ++ ", class: " ++ Text.quoted v.cls ++ ", priority: "
    ++ toString v.priority.toInt ++ ", id: " ++ v.place.id.display ++ ", context: "
    ++ v.place.context.display ++ " \x7d"

/-- An agent that is not registered anywhere yet. -/
structure NewAgent (τ : Type) where
  name : String
  cls : String
  priority : Int32
  task : τ

/-- The sizes of a context. -/
structure Counts where
  agents : Nat
  pendingAdditions : Nat
  pendingRemovals : Nat
  bindings : Nat
  deriving DecidableEq

/-! ## Operations on a context -/

/-- What every task may ask of the context that executes it. -/
inductive TaskOp
  | contextId
  | clock
  | isExecuting
  | add (a : AgentRef)
  | remove (a : AgentRef)
  | bind (name : String) (a : AgentRef)
  | unbind (name : String)
  | lookup (name : String)
  | getStatic (cls name : String)
  | setStatic (cls name : String) (v : Value)
  deriving DecidableEq

/-- The answer to an operation. -/
def TaskOp.Answer : TaskOp → Type
  | contextId => ContextId
  | clock => Clock
  | isExecuting => Bool
  | add _ | remove _ => Unit
  | bind _ _ | unbind _ | setStatic _ _ _ => Except AgentError Unit
  | lookup _ => Option AgentRef
  | getStatic _ _ => Option Value

/-- Everything a context offers. -/
inductive ContextOp (α : Type)
  | task (op : TaskOp)
  | counts
  | tick
  | save
  | load (s : Snapshot)
  | release
  | logStatics (cls : Option String) (sink : Sink α)
  | logState (sink : Sink α)
  | clearBindings
  | clearBaselines
  | setClock (f : Clock → Clock)

/-- The answer to an operation. -/
def ContextOp.Answer {α : Type} : ContextOp α → Type
  | task op => op.Answer
  | counts => Counts
  | tick => TickReport
  | save => Except ContextError Snapshot
  | load _ => Except ContextError Unit
  | release | clearBindings | clearBaselines | setClock _ => Unit
  | logStatics _ _ | logState _ => Except ContextError Nat

/-! ## Programs -/

/-- What a running task may ask for. -/
inductive Request (τ α : Type)
  /-- An operation on the context that executes the task. -/
  | here (op : ContextOp α)
  /-- An operation on another context, unless that one is in use. -/
  | there (c : ContextRef) (op : ContextOp α)
  /-- Ends another context, unless that one is in use. -/
  | dropContext (c : ContextRef)
  /-- A new agent that the application owns. -/
  | create (a : NewAgent τ)
  /-- The application gives up its agent. -/
  | disown (a : AgentRef)
  /-- A look at an agent. -/
  | view (a : AgentRef)
  /-- Runs the task of an agent in the same context, now. -/
  | exec (a : AgentRef)
  /-- The state of an agent's task. -/
  | saveTask (a : AgentRef)
  /-- Gives a state to an agent's task. -/
  | loadTask (a : AgentRef) (state : Json)
  /-- The description of an agent's task. -/
  | describeTask (a : AgentRef)
  /-- The application's own state. -/
  | app
  /-- Changes the application's own state. -/
  | setApp (f : α → α)
  /-- Reports an event. -/
  | report (e : Event)

/-- The answer to a request. -/
def Request.Answer {τ α : Type} : Request τ α → Type
  | here op => op.Answer
  | there _ op => Option op.Answer
  | dropContext _ => Bool
  | create _ => AgentRef
  | disown _ | setApp _ | report _ => Unit
  | view _ => Option AgentView
  | exec _ => Option Status
  | saveTask _ => Except AgentError Json
  | loadTask _ _ => Except AgentError Unit
  | describeTask _ => String
  | app => α

/-- A program of requests that ends with a result. -/
inductive Prog (τ α β : Type) : Type
  | done (b : β)
  | call (r : Request τ α) (k : r.Answer → Prog τ α β)

namespace Prog

variable {τ α β γ : Type}

/-- One program, then another that depends on its result. -/
def bind : Prog τ α β → (β → Prog τ α γ) → Prog τ α γ
  | done b, f => f b
  | call r k, f => call r fun answer => (k answer).bind f

instance : Monad (Prog τ α) where
  pure := done
  bind := bind

/-- The program that puts one request and ends with its answer. -/
def ask (r : Request τ α) : Prog τ α r.Answer := call r done

/-! The requests that every task may put to its own context. -/

/-- The id of the context. -/
def contextId : Prog τ α ContextId := ask (.here (.task .contextId))

/-- The clock of the context. -/
def clock : Prog τ α Clock := ask (.here (.task .clock))

/-- A tick walks over the agents of the context. -/
def isExecuting : Prog τ α Bool := ask (.here (.task .isExecuting))

/-- Registers an agent. -/
def add (a : AgentRef) : Prog τ α Unit := ask (.here (.task (.add a)))

/-- Unregisters an agent. -/
def remove (a : AgentRef) : Prog τ α Unit := ask (.here (.task (.remove a)))

/-- Binds a name to an agent. -/
def bindName (name : String) (a : AgentRef) : Prog τ α (Except AgentError Unit) :=
  ask (.here (.task (.bind name a)))

/-- Drops a name. -/
def unbindName (name : String) : Prog τ α (Except AgentError Unit) :=
  ask (.here (.task (.unbind name)))

/-- The agent that a name is bound to. -/
def lookup (name : String) : Prog τ α (Option AgentRef) := ask (.here (.task (.lookup name)))

/-- The value of a static variable. -/
def getStatic (cls name : String) : Prog τ α (Option Value) :=
  ask (.here (.task (.getStatic cls name)))

/-- Sets a static variable. -/
def setStatic (cls name : String) (v : Value) : Prog τ α (Except AgentError Unit) :=
  ask (.here (.task (.setStatic cls name v)))

/-! Requests beyond the context. -/

/-- A new agent that the application owns. -/
def create (a : NewAgent τ) : Prog τ α AgentRef := ask (.create a)

/-- The application's own state. -/
def app : Prog τ α α := ask .app

/-- Changes the application's own state. -/
def setApp (f : α → α) : Prog τ α Unit := ask (.setApp f)

/-- Reports an event. -/
def report (e : Event) : Prog τ α Unit := ask (.report e)

/-- All requests are operations that every task may ask of its own context, or leave the
contexts and the registered agents alone. -/
def Confined : Prog τ α β → Prop
  | done _ => True
  | call r k =>
    (match r with
      | .here (.task _) | .create _ | .disown _ | .view _ | .app | .setApp _ | .report _ => True
      | _ => False) ∧ ∀ answer, Confined (k answer)

end Prog

/-- What tasks of type `τ` do, with an application state of type `α`. -/
class Behavior (τ : Type) (α : outParam Type) where
  /-- One step of the task of an agent: how it ended, and the task afterwards. -/
  exec : AgentRef → τ → Prog τ α (Status × τ)
  /-- The task's state, to be kept. -/
  save : τ → Json
  /-- The task with a kept state, or its refusal. -/
  load : Json → τ → Except AgentError Unit × τ
  /-- One line about the task's state. -/
  describe : τ → String

end AgentScheduler
