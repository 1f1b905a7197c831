/-
A workspace: the directory of an application's contexts by id, their shared
configuration, and the receiver of their records.

A context is made at its first use or handed over by the application. Cleaning
up destroys the former and returns the latter. A tick of all contexts goes on
when logging fails; the first failure is the result once all have ticked.
-/
import AgentScheduler.Tick

namespace AgentScheduler

/-- The contexts of an application. -/
structure Workspace (α : Type) where
  config : Config
  types : Hierarchy
  directory : SortedMap ContextId ContextRef := .empty
  sink : Sink α

/-- What an observer is told. -/
inductive Notice
  /-- A tick starts, after so many completed ones. -/
  | started (context : ContextId) (frame : UInt64)
  /-- A tick and its logging are over. -/
  | ended (context : ContextId) (report : TickReport)
  /-- The context leaves the directory. -/
  | cleaned (context : ContextId)
  deriving DecidableEq

/-- An observer with a state of its own: it may also change the host. -/
abbrev Observer (ο α : Type) := Notice → ο → Host α → ο × Host α

/-- Ignores everything. -/
def Observer.none {α : Type} : Observer Unit α := fun _ o h => (o, h)

namespace Workspace

variable {τ α ο : Type}

/-- An empty workspace of a valid configuration; without a receiver, records are reported. -/
def build (config : Config) (types : Hierarchy) (sink : Option (Sink α)) :
    Except WorkspaceError (Workspace α) :=
  match config.validate with
  | .error e => .error (.config e)
  | .ok () => .ok { config, types, sink := sink.getD Sink.reporting }

/-- The workspace with another receiver, and the receiver it had. -/
def replaceSink (ws : Workspace α) (sink : Sink α) : Sink α × Workspace α :=
  (ws.sink, { ws with sink })

/-! ## The directory -/

/-- The context of an id. -/
def find? (ws : Workspace α) (id : ContextId) : Option ContextRef := ws.directory.get? id

/-- The context of an id that names a single one; made when it is absent. -/
def context (ws : Workspace α) (id : ContextId) (w : World τ α) :
    Except WorkspaceError ContextRef × Workspace α × World τ α :=
  if !id.isConcrete then (.error (.invalidContextId id), ws, w)
  else
    match ws.find? id with
    | some c => (.ok c, ws, w)
    | none =>
      let (c, w) := w.addContext
        { Context.new id ws.types ws.config.tickMillis with createdByDirectory := true }
      (.ok c, { ws with directory := ws.directory.insert id c }, w.report (.contextCreated id))

/-- Takes a context over from the application. A refused context is dropped. -/
def insert (ws : Workspace α) (c : ContextRef) (w : World τ α) :
    Except WorkspaceError Unit × Workspace α × World τ α :=
  match w.context? c with
  | none => (.error (.invalidContextId .invalid), ws, w)
  | some ctx =>
    if !ctx.id.isConcrete then (.error (.invalidContextId ctx.id), ws, w.dropContext c)
    else if ws.directory.contains ctx.id then
      (.error (.duplicateContext ctx.id), ws, w.dropContext c)
    else
      let w := w.modifyContext c fun ctx => { ctx with createdByDirectory := false }
      (.ok (), { ws with directory := ws.directory.insert ctx.id c },
        w.report (.contextInserted ctx.id))

/-- The ids in the directory, ascending. -/
def contextIds (ws : Workspace α) : List ContextId := ws.directory.keys

/-- The ids that an operation on `id` applies to: every id of the directory, or this one. -/
def targets (ws : Workspace α) (id : ContextId) : Except WorkspaceError (List ContextId) :=
  if id.isAll then .ok ws.contextIds
  else if !id.isConcrete then .error (.invalidContextId id)
  else .ok [id]

/-! ## Ticks -/

/-- The logging that is due after a tick: the changed static variables if configured, then
all states if an interval is over. -/
def logTick [Behavior τ α] (ws : Workspace α) (id : ContextId) (c : ContextRef)
    (frame : UInt64) (w : World τ α) : Except ContextError Unit × World τ α :=
  let (statics, w) :=
    if ws.config.logStaticsOnTick then
      let (sent, w) := w.logStatics c none ws.sink
      (sent.map fun _ => (), w)
    else (.ok (), w)
  match statics with
  | .error e => (.error e, w)
  | .ok () =>
    if ws.config.stateLogDue frame then
      match w.logState c ws.sink with
      | (.error e, w) => (.error e, w)
      | (.ok records, w) => (.ok (), w.report (.periodicLog id frame records))
    else (.ok (), w)

/-- Tells an observer. -/
def tell (obs : Observer ο α) (n : Notice) (o : ο) (w : World τ α) : ο × World τ α :=
  let (o, host) := obs n o w.host
  (o, { w with host })

/-- One tick of a context with its logging, between two notices to the observer. -/
def tickOne [Behavior τ α] (ws : Workspace α) (obs : Observer ο α) (id : ContextId) (o : ο)
    (w : World τ α) : TickReport × Except ContextError Unit × ο × World τ α :=
  match ws.find? id with
  | none => ({}, .ok (), o, w)
  | some c =>
    let frame := ((w.context? c).map (·.clock.frames)).getD 0
    let (o, w) := tell obs (.started id frame) o w
    let (report, w) := w.tick c
    let (logged, w) := ws.logTick id c report.frame w
    let (o, w) := tell obs (.ended id report) o w
    (report, logged, o, w)

/-- Ticks contexts one after the other: the sum of the reports, and the first failure. -/
def tickAll [Behavior τ α] (ws : Workspace α) (obs : Observer ο α) :
    List ContextId → TickReport → Option ContextError → ο → World τ α →
      TickReport × Option ContextError × ο × World τ α
  | [], total, failure, o, w => (total, failure, o, w)
  | id :: ids, total, failure, o, w =>
    let (report, logged, o, w) := ws.tickOne obs id o w
    match logged with
    | .ok () => tickAll ws obs ids (total + report) failure o w
    | .error e =>
      tickAll ws obs ids (total + report) (some (failure.getD e)) o
        (w.report (.tickLogFailed id e))

/-- Ticks one context, made when it is absent, or all contexts in ascending order. -/
def tick [Behavior τ α] (ws : Workspace α) (obs : Observer ο α) (id : ContextId) (o : ο)
    (w : World τ α) : Except WorkspaceError TickReport × Workspace α × ο × World τ α :=
  match ws.targets id with
  | .error e => (.error e, ws, o, w)
  | .ok ids =>
    let (ws, w) :=
      if id.isAll then (ws, w)
      else
        let (_, ws, w) := ws.context id w
        (ws, w)
    let (total, failure, o, w) := ws.tickAll obs ids {} none o w
    match failure with
    | none => (.ok total, ws, o, w)
    | some e => (.error (.context e), ws, o, w)

/-! ## Logging and cleaning up -/

/-- Logs the states of contexts one after the other up to the first failure: how many
records were sent. -/
def logContexts [Behavior τ α] (ws : Workspace α) :
    List ContextId → Nat → World τ α → Except ContextError Nat × World τ α
  | [], sent, w => (.ok sent, w)
  | id :: ids, sent, w =>
    match ws.find? id with
    | none => logContexts ws ids sent w
    | some c =>
      match w.logState c ws.sink with
      | (.error e, w) => (.error e, w)
      | (.ok records, w) => logContexts ws ids (sent + records) w

/-- Logs the state of one context, or of all in ascending order. An absent context has
nothing to log. -/
def logStates [Behavior τ α] (ws : Workspace α) (id : ContextId) (w : World τ α) :
    Except WorkspaceError Nat × World τ α :=
  match ws.targets id with
  | .error e => (.error e, w)
  | .ok ids =>
    let (sent, w) := ws.logContexts ids 0 w
    (sent.mapError .context, w)

/-- Releases contexts one after the other and takes them out of the directory: those the
workspace made are dropped, the others returned. -/
def cleanContexts (obs : Observer ο α) :
    List ContextId → Workspace α → ο → World τ α → List ContextRef × Workspace α × ο × World τ α
  | [], ws, o, w => ([], ws, o, w)
  | id :: ids, ws, o, w =>
    match ws.find? id with
    | none => cleanContexts obs ids ws o w
    | some c =>
      let ws := { ws with directory := ws.directory.erase id }
      let (o, w) := tell obs (.cleaned id) o (w.release c)
      if (w.context? c).any (·.createdByDirectory) then
        cleanContexts obs ids ws o ((w.report (.contextDestroyed id)).dropContext c)
      else
        let (returned, ws, o, w) := cleanContexts obs ids ws o (w.report (.contextReturned id))
        (c :: returned, ws, o, w)

/-- Releases one context or all of them; those that the application handed over come back
to it. -/
def cleanup (ws : Workspace α) (obs : Observer ο α) (id : ContextId) (o : ο) (w : World τ α) :
    Except WorkspaceError (List ContextRef) × Workspace α × ο × World τ α :=
  match ws.targets id with
  | .error e => (.error e, ws, o, w)
  | .ok ids =>
    let (returned, ws, o, w) := cleanContexts obs ids ws o w
    (.ok returned, ws, o, w)

/-- Drops every context of the directory. -/
def drop (ws : Workspace α) (w : World τ α) : World τ α :=
  ws.directory.values.foldl (fun w c => w.dropContext c) w

/-- The displayed structure of a workspace. -/
def debug (ws : Workspace α) : String :=
  "Workspace \x7b config: WorkspaceConfig \x7b tick_duration_millis: "
    ++ toString ws.config.tickMillis.toNat
    ++ ", state_log_interval_ticks: " ++ toString ws.config.stateLogInterval.toNat
    ++ ", log_static_variables_on_tick: " ++ (if ws.config.logStaticsOnTick then "true" else "false")
    ++ " \x7d, contexts: [" ++ ", ".intercalate (ws.contextIds.map (·.display)) ++ "], .. \x7d"

end Workspace

end AgentScheduler
