/-
Saving and loading the logical state of a context, between ticks only.

A load resolves every class, name and agent of the snapshot before it changes
anything. Then it gives every blob to its agent's task; when one is refused,
the tasks changed before get their former states back, the last one first.
-/
import AgentScheduler.World

namespace AgentScheduler

/-- The snapshot that a JSON text stands for. -/
def Snapshot.decode (text : String) : Except ContextError Snapshot :=
  match ofText? text with
  | some s => .ok s
  | none => .error (.encoding "malformed snapshot")

namespace World

variable {τ α : Type} [Behavior τ α]

/-- The states of agents' tasks; fails while one of them runs. -/
def saveAgents (w : World τ α) (as : List AgentRef) : Except AgentError (List AgentSnapshot) :=
  as.filterMapM fun a =>
    match w.live? a with
    | none => pure none
    | some agent => do
      let state ← w.saveTask a
      pure (some ⟨agent.place.id, agent.cls, agent.priority, state⟩)

/-- The names of a registry with the ids and classes of their agents. -/
def savedBindings (w : World τ α) (r : Registry) : SortedMap String NamedBinding :=
  (w.bindings r).mapValues fun _ a =>
    match w.agent? a with
    | some agent => ⟨agent.place.id, agent.cls⟩
    | none => ⟨.invalid, ""⟩

/-- A snapshot of a context between ticks. -/
def save (w : World τ α) (c : ContextRef) : Except ContextError Snapshot × World τ α :=
  match w.context? c with
  | none => (.ok {}, w)
  | some ctx =>
    match ctx.ensureIdle with
    | .error e => (.error e, w)
    | .ok () =>
      match w.saveAgents (w.handles ctx.registry) with
      | .error e => (.error (.agent e), w)
      | .ok agents =>
        (.ok
          { context := ctx.id
            clock := ctx.clock
            named := w.savedBindings ctx.registry
            baselines := ctx.statics.baselines
            values := ctx.statics.live
            agents },
          w.report (.contextSaved ctx.id agents.length))

/-- The live agent of a class that is registered under an id. -/
def resolve (w : World τ α) (ctx : Context) (id : AgentId) (cls : String) :
    Except Mismatch AgentRef :=
  match (ctx.registry.agent? id).filter w.alive with
  | none => throw (.noAgent id ctx.id)
  | some a =>
    match w.agent? a with
    | none => throw (.noAgent id ctx.id)
    | some agent => if agent.cls = cls then pure a else throw (.otherClass id agent.cls cls)

/-- The agent that a name of a snapshot is to be bound to. -/
def resolveBinding (w : World τ α) (ctx : Context) (name : String) (b : NamedBinding) :
    Except Mismatch AgentRef := do
  let a ← w.resolve ctx b.agent b.cls
  if ctx.types.isValidInstanceName name b.cls then pure a else throw (.invalidName name b.cls)

/-- Everything that a snapshot refers to, found in the context: the agents that its names
are bound to, and the agents that its states go to. -/
def resolveAll (w : World τ α) (ctx : Context) (s : Snapshot) :
    Except Mismatch (SortedMap String AgentRef × List (AgentRef × Json)) := do
  if s.context.isValid && s.context != ctx.id then throw (.otherContext s.context ctx.id)
  match (s.baselines.keys ++ s.values.keys).find? fun cls => !ctx.types.contains cls with
  | some cls => throw (.unknownClass cls)
  | none => pure ()
  let named ← s.named.toList.mapM fun (name, b) => return (name, ← w.resolveBinding ctx name b)
  let targets ← s.agents.mapM fun snap => return (← w.resolve ctx snap.id snap.cls, snap.state)
  return (SortedMap.ofList named, targets)

/-- Gives former states back, in the order given. -/
def rollBack : List (AgentRef × Json) → World τ α → World τ α
  | [], w => w
  | (a, before) :: rest, w =>
    match w.loadTask a before with
    | (.ok (), w) => rollBack rest w
    | (.error e, w) =>
      let id := ((w.agent? a).map (·.place.id)).getD .invalid
      rollBack rest (w.report (.rollbackFailed id e))

/-- Gives states to tasks, one after the other. After a refusal, the tasks already changed
(`done`, the last one first) get their former states back. -/
def restore : List (AgentRef × Json) → List (AgentRef × Json) → World τ α →
    Except AgentError Unit × World τ α
  | [], _, w => (.ok (), w)
  | (a, state) :: rest, done, w =>
    match w.saveTask a with
    | .error e => (.error e, rollBack done w)
    | .ok before =>
      match w.loadTask a state with
      | (.ok (), w) => restore rest ((a, before) :: done) w
      | (.error e, w) => (.error e, rollBack done w)

/-- Brings a context between ticks back to a snapshot: names, static variables, baselines,
frames, elapsed time and task states. -/
def load (w : World τ α) (c : ContextRef) (s : Snapshot) :
    Except ContextError Unit × World τ α :=
  match w.context? c with
  | none => (.ok (), w)
  | some ctx =>
    match ctx.ensureIdle with
    | .error e => (.error e, w)
    | .ok () =>
      match w.resolveAll ctx s with
      | .error m => (.error (.structuralMismatch m), w)
      | .ok (named, targets) =>
        match restore targets [] w with
        | (.error e, w) => (.error (.agent e), w)
        | (.ok (), w) =>
          let w := w.modifyContext c fun ctx =>
            { ctx with
              registry := { ctx.registry with named }
              statics := { live := s.values, baselines := s.baselines }
              clock := { ctx.clock with
                frames := s.clock.frames
                elapsedMillis := s.clock.elapsedMillis } }
          (.ok (), w.report (.contextLoaded ctx.id targets.length))

end World

end AgentScheduler
