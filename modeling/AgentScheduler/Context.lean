/-
A context: a set of agents that are scheduled together, under one id, with its
own names, static variables and clock.
-/
import AgentScheduler.Registry
import AgentScheduler.Statics

namespace AgentScheduler

/-- A set of agents that are scheduled together. -/
structure Context where
  id : ContextId
  types : Hierarchy
  registry : Registry := {}
  statics : Statics := {}
  clock : Clock := {}
  /-- A tick walks over the agents. -/
  executing : Bool := false
  /-- A tick walks over the agents, or a task was handed the context. -/
  inUse : Bool := false
  /-- A workspace created the context and destroys it. -/
  createdByDirectory : Bool := false

namespace Context

/-- A new context, its static variables as declared. -/
def new (id : ContextId) (types : Hierarchy) (stepMillis : UInt32) : Context :=
  { id, types, statics := .seeded types, clock := { stepMillis } }

/-- An agent with this registration is registered here. -/
def holds (c : Context) (place : Registration) : Bool :=
  place.context == c.id && c.registry.index.contains place.id

/-- What becomes of a request to register an agent. -/
inductive Entry
  | alreadyHere
  | elsewhere (owner : ContextId)
  | exhausted
  | fresh (id : AgentId)
  deriving DecidableEq

/-- An agent registered here stays as it is, and one of another context is refused. -/
def entry (c : Context) (place : Registration) : Entry :=
  if c.holds place then .alreadyHere
  else if place.context.isValid && place.context != c.id then .elsewhere place.context
  else match c.registry.nextId? with
    | none => .exhausted
    | some id => .fresh id

/-- The context is between ticks. -/
def ensureIdle (c : Context) : Except ContextError Unit :=
  if c.executing then throw (.executing c.id) else pure ()

/-- The context with another registry. -/
def withRegistry (c : Context) (f : Registry → Registry) : Context :=
  { c with registry := f c.registry }

end Context

end AgentScheduler
