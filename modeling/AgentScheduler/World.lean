/-
All agents and contexts, and the host around them. Agents and contexts are
referred to by their place, which is never used again.

An agent lives while the application owns it or its task runs. Contexts refer
to agents without keeping them alive; `live?` finds an agent only while it
lives.
-/
import AgentScheduler.Context

namespace AgentScheduler

/-- An agent: its identity, where it is registered, and its task. -/
structure Agent (τ : Type) where
  name : String
  cls : String
  priority : Int32
  place : Registration := {}
  /-- The application holds on to the agent. -/
  owned : Bool := true
  /-- The agent's task runs. -/
  running : Bool := false
  task : τ

namespace Agent

variable {τ : Type}

/-- The agent exists as long as somebody holds it. -/
def alive (a : Agent τ) : Bool := a.owned || a.running

/-- What can be seen of the agent. -/
def view (a : Agent τ) : AgentView := ⟨a.name, a.cls, a.priority, a.place⟩

end Agent

/-- Agents, contexts and their host. -/
structure World (τ α : Type) where
  agents : Array (Agent τ) := #[]
  contexts : Array (Option Context) := #[]
  host : Host α

namespace World

variable {τ α : Type}

/-! ## Agents -/

/-- The agent, alive or not. -/
def agent? (w : World τ α) (a : AgentRef) : Option (Agent τ) := w.agents[a.index]?

/-- The agent, while it is alive. -/
def live? (w : World τ α) (a : AgentRef) : Option (Agent τ) :=
  (w.agent? a).filter (·.alive)

/-- The agent is alive. -/
def alive (w : World τ α) (a : AgentRef) : Bool := (w.live? a).isSome

/-- Changes an agent. -/
def modifyAgent (w : World τ α) (a : AgentRef) (f : Agent τ → Agent τ) : World τ α :=
  { w with agents := w.agents.modify a.index f }

/-- A new agent, owned by the application. -/
def create (w : World τ α) (a : NewAgent τ) : AgentRef × World τ α :=
  (⟨w.agents.size⟩, { w with agents := w.agents.push ⟨a.name, a.cls, a.priority, {}, true, false, a.task⟩ })

/-- The application gives up an agent. -/
def disown (w : World τ α) (a : AgentRef) : World τ α :=
  w.modifyAgent a fun agent => { agent with owned := false }

/-- Records where an agent is registered. -/
def setPlace (w : World τ α) (a : AgentRef) (place : Registration) : World τ α :=
  w.modifyAgent a fun agent => { agent with place }

/-! ## Contexts and the host -/

/-- The context, unless it was dropped. -/
def context? (w : World τ α) (c : ContextRef) : Option Context := w.contexts[c.index]?.join

/-- Changes a context. -/
def modifyContext (w : World τ α) (c : ContextRef) (f : Context → Context) : World τ α :=
  { w with contexts := w.contexts.modify c.index (·.map f) }

/-- A new context. -/
def addContext (w : World τ α) (ctx : Context) : ContextRef × World τ α :=
  (⟨w.contexts.size⟩, { w with contexts := w.contexts.push (some ctx) })

/-- Changes the registry of a context. -/
def modifyRegistry (w : World τ α) (c : ContextRef) (f : Registry → Registry) : World τ α :=
  w.modifyContext c (·.withRegistry f)

/-- Reports an event. -/
def report (w : World τ α) (e : Event) : World τ α := { w with host := w.host.report e }

/-! ## Registration -/

/-- Registers a live agent now. -/
def insertNow (w : World τ α) (c : ContextRef) (a : AgentRef) : World τ α :=
  match w.context? c, w.live? a with
  | some ctx, some agent =>
    match ctx.entry agent.place with
    | .alreadyHere => w
    | .elsewhere owner => w.report (.ownedElsewhere ctx.id owner agent.name)
    | .exhausted => w.report (.idsExhausted ctx.id agent.name)
    | .fresh id =>
      ((w.modifyRegistry c (·.register a agent.priority id)).setPlace a ⟨ctx.id, id⟩).report
        (.agentAdded ctx.id id agent.priority agent.cls)
  | _, _ => w

/-- Unregisters a live agent now; the names bound to it go with it. -/
def removeNow (w : World τ α) (c : ContextRef) (a : AgentRef) : World τ α :=
  match w.context? c, w.live? a with
  | some ctx, some agent =>
    if agent.place.context = ctx.id then
      match ctx.registry.index.get? agent.place.id with
      | none => w
      | some priority =>
        let w := w.modifyRegistry c fun r =>
          (r.unregister priority agent.place.id).unbindAgent a
        let w := (ctx.registry.namesOf a).foldl
          (fun w name => w.report (.bindingDropped ctx.id name)) w
        (w.setPlace a {}).report (.agentRemoved ctx.id agent.place.id priority)
    else w
  | _, _ => w

/-- Registers a live agent, after the walk if a tick is under way. -/
def addAgent (w : World τ α) (c : ContextRef) (a : AgentRef) : World τ α :=
  match w.context? c, w.live? a with
  | some ctx, some agent =>
    if ctx.executing then
      (w.modifyRegistry c fun r => { r with pendingAdd := r.pendingAdd ++ [a] }).report
        (.addDeferred ctx.id agent.name)
    else w.insertNow c a
  | _, _ => w

/-- Unregisters a live agent, after the walk if a tick is under way. -/
def removeAgent (w : World τ α) (c : ContextRef) (a : AgentRef) : World τ α :=
  match w.context? c, w.live? a with
  | some ctx, some agent =>
    if ctx.executing then
      (w.modifyRegistry c fun r => { r with pendingRemove := r.pendingRemove ++ [a] }).report
        (.removeDeferred ctx.id agent.name)
    else w.removeNow c a
  | _, _ => w

/-- Drops the registrations and names of agents that are gone. -/
def prune (w : World τ α) (c : ContextRef) : World τ α :=
  match w.context? c with
  | none => w
  | some ctx =>
    let pruned := (ctx.registry.stale w.alive).length
    let w' := w.modifyRegistry c (·.prune w.alive)
    if pruned = 0 then w' else w'.report (.stalePruned ctx.id pruned)

/-- Unregisters every live agent that the buckets of a registry refer to. -/
def clearPlaces (w : World τ α) (r : Registry) : World τ α :=
  r.walkOrder.foldl (fun w a => if w.alive a then w.setPlace a {} else w) w

/-- Unregisters all agents and forgets names and requests. -/
def clearRegistry (w : World τ α) (c : ContextRef) : World τ α :=
  match w.context? c with
  | none => w
  | some ctx => (w.clearPlaces ctx.registry).modifyRegistry c (·.clear)

/-- Unregisters all agents and forgets names, requests and baselines. -/
def release (w : World τ α) (c : ContextRef) : World τ α :=
  match w.context? c with
  | none => w
  | some ctx =>
    ((w.clearRegistry c).modifyContext c fun ctx =>
      { ctx with statics := ctx.statics.clearBaselines }).report (.contextReleased ctx.id)

/-- Unregisters all agents and ends the context. -/
def dropContext (w : World τ α) (c : ContextRef) : World τ α :=
  let w := w.clearRegistry c
  { w with contexts := w.contexts.modify c.index fun _ => none }

/-- The context has registered this agent. -/
def containsAgent (w : World τ α) (c : ContextRef) (a : AgentRef) : Bool :=
  match w.context? c, w.live? a with
  | some ctx, some agent => ctx.holds agent.place
  | _, _ => false

/-- The live agents of a context, in the order in which a tick visits them. -/
def handles (w : World τ α) (r : Registry) : List AgentRef := r.walkOrder.filter w.alive

/-! ## Names -/

/-- The name may be bound to the agent, or why not. -/
def bindFault? (w : World τ α) (ctx : Context) (name : String) (a : AgentRef)
    (agent : Agent τ) : Option AgentError :=
  if !ctx.types.isValidInstanceName name agent.cls then
    some (.unregisteredName name agent.cls)
  else if agent.place.context.isValid && agent.place.context != ctx.id then
    some (.notRegistered agent.name)
  else if !ctx.holds agent.place && !ctx.registry.pendingAdd.contains a then
    some (.notRegistered agent.name)
  else match ctx.registry.named.get? name with
    | none => none
    | some other => if other ≠ a ∧ w.alive other then some (.nameAlreadyBound name) else none

/-- Binds a name to a live agent that is registered in the context or will be. -/
def bind (w : World τ α) (c : ContextRef) (name : String) (a : AgentRef) :
    Except AgentError Unit × World τ α :=
  match w.context? c, w.live? a with
  | some ctx, some agent =>
    match w.bindFault? ctx name a agent with
    | some fault => (.error fault, w)
    | none =>
      if ctx.registry.named.get? name = some a then (.ok (), w)
      else (.ok (), (w.modifyRegistry c (·.setBinding name a)).report
        (.instanceBound ctx.id name agent.name))
  | _, _ => (.error (.notRegistered ""), w)

/-- Drops a name. A name whose agent is gone is dropped too, but counts as not bound. -/
def unbind (w : World τ α) (c : ContextRef) (name : String) :
    Except AgentError Unit × World τ α :=
  match w.context? c with
  | none => (.error (.nameNotBound name), w)
  | some ctx =>
    let w' := w.modifyRegistry c (·.dropBinding name)
    if (ctx.registry.named.get? name).any w.alive then
      (.ok (), w'.report (.instanceUnbound ctx.id name))
    else (.error (.nameNotBound name), w')

/-- The live agent that a name is bound to. -/
def lookup (w : World τ α) (c : ContextRef) (name : String) : Option AgentRef :=
  (w.context? c).bind fun ctx => (ctx.registry.named.get? name).filter w.alive

/-- The names that are bound to live agents. -/
def bindings (w : World τ α) (r : Registry) : SortedMap String AgentRef :=
  r.named.filter fun _ a => w.alive a

/-- Drops every name. -/
def clearBindings (w : World τ α) (c : ContextRef) : World τ α :=
  w.modifyRegistry c fun r => { r with named := .empty }

/-- The sizes of a context. -/
def counts (w : World τ α) (r : Registry) : Counts :=
  ⟨r.index.size, r.pendingAdd.length, r.pendingRemove.length, (w.bindings r).size⟩

/-! ## Static variables -/

/-- The live value of a static variable. -/
def getStatic (w : World τ α) (c : ContextRef) (cls name : String) : Option Value :=
  (w.context? c).bind (·.statics.get? cls name)

/-- Sets a static variable. -/
def setStatic (w : World τ α) (c : ContextRef) (cls name : String) (v : Value) :
    Except AgentError Unit × World τ α :=
  match w.context? c with
  | none => (.error (.unknownClass cls), w)
  | some ctx =>
    match ctx.statics.set ctx.types cls name v with
    | .error e => (.error e, w)
    | .ok statics => (.ok (), w.modifyContext c fun ctx => { ctx with statics })

/-- Sends the changed static variables of one declared class, or of all, to a receiver:
how many changes were sent. -/
def logStatics (w : World τ α) (c : ContextRef) (cls : Option String) (sink : Sink α) :
    Except ContextError Nat × World τ α :=
  match w.context? c with
  | none => (.ok 0, w)
  | some ctx =>
    match cls.filter fun cls => !ctx.types.contains cls with
    | some cls => (.error (.agent (.unknownClass cls)), w)
    | none =>
      let (sent, statics, host) := ctx.statics.log ctx.id ctx.clock.frames cls sink w.host
      (sent.mapError .log, { w.modifyContext c fun ctx => { ctx with statics } with host })

/-- Forgets what was logged of static variables. -/
def clearBaselines (w : World τ α) (c : ContextRef) : World τ α :=
  w.modifyContext c fun ctx => { ctx with statics := ctx.statics.clearBaselines }

/-! ## Task states -/

section Tasks

variable [Behavior τ α]

/-- The reason a task cannot be reached while it runs. -/
def taskBusy (agent : Agent τ) : AgentError :=
  .state ("task of '" ++ agent.name ++ "' is executing")

/-- The state of a live agent's task. -/
def saveTask (w : World τ α) (a : AgentRef) : Except AgentError Json :=
  match w.live? a with
  | none => .ok .null
  | some agent => if agent.running then .error (taskBusy agent) else .ok (Behavior.save agent.task)

/-- Gives a state to a live agent's task. -/
def loadTask (w : World τ α) (a : AgentRef) (state : Json) :
    Except AgentError Unit × World τ α :=
  match w.live? a with
  | none => (.ok (), w)
  | some agent =>
    if agent.running then (.error (taskBusy agent), w)
    else
      let (result, task) := Behavior.load state agent.task
      (result, w.modifyAgent a fun agent => { agent with task })

/-- The description of a live agent's task; nothing while it runs. -/
def describeTask (w : World τ α) (a : AgentRef) : String :=
  match w.live? a with
  | none => ""
  | some agent => if agent.running then "" else Behavior.describe agent.task

/-- Sends the states of agents to a receiver, up to the first refusal: how many were
sent. -/
def logAgents (ctx : Context) (sink : Sink α) :
    List AgentRef → Nat → World τ α → Except LogError Nat × World τ α
  | [], sent, w => (.ok sent, w)
  | a :: as, sent, w =>
    match w.live? a with
    | none => logAgents ctx sink as sent w
    | some agent =>
      let record := .state ctx.id ctx.clock.frames agent.place.id agent.cls agent.name
        (w.describeTask a)
      match sink record w.host with
      | (.error e, host) => (.error e, { w with host })
      | (.ok (), host) => logAgents ctx sink as (sent + 1) { w with host }

/-- Sends the state of every agent, then the changed static variables of all classes: how
many records and changes were sent. -/
def logState (w : World τ α) (c : ContextRef) (sink : Sink α) :
    Except ContextError Nat × World τ α :=
  match w.context? c with
  | none => (.ok 0, w)
  | some ctx =>
    match logAgents ctx sink (w.handles ctx.registry) 0 w with
    | (.error e, w) => (.error (.log e), w)
    | (.ok states, w) =>
      match w.logStatics c none sink with
      | (.error e, w) => (.error e, w)
      | (.ok changes, w) => (.ok (states + changes), w)

end Tasks

end World

end AgentScheduler
