/-
Playing a session: an application that owns agents, contexts and a workspace
carries out one command after the other and answers each.
-/
import AgentScheduler.Session.Command
import AgentScheduler.Session.Play
import AgentScheduler.Workspace

namespace AgentScheduler

/-- A session in progress. -/
structure Session where
  types : Hierarchy
  world : World Session.Task Session.App := { host := { app := {} } }
  /-- The workspace, and what its receiver is. -/
  workspace : Option (Workspace Session.App × Session.SinkHandle) := none
  observers : SortedMap String Session.ObserverState := .empty

namespace Session

/-- The application's state. -/
def app (s : Session) : App := s.world.host.app

/-- Changes the application's state. -/
def modifyApp (s : Session) (f : App → App) : Session :=
  { s with world := { s.world with host := { s.world.host with app := f s.world.host.app } } }

/-- Changes the world. -/
def modifyWorld (s : Session) (f : World Task App → World Task App) : Session :=
  { s with world := f s.world }

/-- The context of a name. -/
def context? (s : Session) : ContextName → Option ContextRef
  | .slot name => s.app.slots.get? name
  | .member id => s.workspace.bind fun (ws, _) => ws.find? id

/-- Everything that can be seen of a context. -/
def dump (s : Session) (c : ContextRef) : Answer :=
  .ofOption (fun ctx => .dump (.of s.world ctx)) (s.world.context? c)

/-- What can be seen of an agent. -/
def view (s : Session) (a : AgentRef) : Answer :=
  .ofOption (fun agent => .agent agent.view) (s.world.live? a)

/-- Puts a context into a slot; the one that was there is dropped. -/
def setSlot (s : Session) (slot : String) (c : ContextRef) : Session :=
  let former := s.app.slots.get? slot
  let s := s.modifyApp fun app => { app with slots := app.slots.insert slot c }
  match former with
  | none => s
  | some old => s.modifyWorld (·.dropContext old)

/-! ## Agents -/

/-- Makes an agent under a key; the one that was there is given up. -/
def createAgent (s : Session) (key : String) (new : NewAgent Task) : Answer × Session :=
  let (a, world) := s.world.create new
  let former := s.app.agents.get? key
  let s := { s with world }.modifyApp fun app => { app with agents := app.agents.insert key a }
  let s := match former with
    | none => s
    | some old => s.modifyWorld (·.disown old)
  (s.view a, s)

/-- Gives up the agent of a key: whether there was one. -/
def dropAgent (s : Session) (key : String) : Answer × Session :=
  match s.app.agents.get? key with
  | none => (.flag false, s)
  | some a =>
    (.flag true, (s.modifyApp fun app => { app with agents := app.agents.erase key }).modifyWorld
      (·.disown a))

/-- Carries out a command on an agent. -/
def runAgent (s : Session) (a : AgentRef) : AgentCommand → Answer × Session
  | .info => (s.view a, s)
  | .debug => (.ofOption (fun agent => .text agent.view.debug) (s.world.live? a), s)
  | .setPlace place =>
    let s := s.modifyWorld (·.setPlace a place)
    (s.view a, s)
  | .clearPlace =>
    let s := s.modifyWorld (·.setPlace a {})
    (s.view a, s)
  | .saveState => (.ofExcept .agentFault .blob (s.world.saveTask a), s)
  | .loadState state =>
    let (result, world) := s.world.loadTask a state
    (.ofExcept .agentFault (fun _ => .done) result, { s with world })
  | .describe => (.text (s.world.describeTask a), s)

/-- The agents of a pool with their descriptions; first, those that are not registered may
be given up. -/
def runPool (s : Session) (name : String) (retain : Bool) : Answer × Session :=
  let agents := (s.app.pools.get? name).getD []
  let registered := fun a => (s.world.agent? a).any (·.place.context.isValid)
  let kept := if retain then agents.filter registered else agents
  let s := if retain && s.app.pools.contains name then
      let s := s.modifyApp fun app => { app with pools := app.pools.insert name kept }
      s.modifyWorld fun w =>
        (agents.filter fun a => !registered a).foldl (fun w a => w.disown a) w
    else s
  (.list (kept.map fun a => .list [s.view a, .text (s.world.describeTask a)]), s)

/-! ## Contexts -/

/-- Carries out a command on a context. -/
def runContext (s : Session) (c : ContextRef) (ctx : Context) :
    ContextCommand → Answer × Session
  | .dump => (s.dump c, s)
  | .setCreated on =>
    (.done, s.modifyWorld (·.modifyContext c fun ctx => { ctx with createdByDirectory := on }))
  | .byId id =>
    (.list [.ofOption s.view ((ctx.registry.agent? id).filter s.world.alive),
      .ofOption (fun p => .number p.toInt) (ctx.registry.index.get? id)], s)
  | .bucket priority =>
    (.list ((ctx.registry.bucket priority).keys.map fun id => .number id.number.toNat), s)
  | .unbind name =>
    let (result, world) := s.world.unbind c name
    (.ofExcept .agentFault (fun _ => .done) result, { s with world })
  | .lookup name => (.ofOption s.view (s.world.lookup c name), s)
  | .clearBindings => (.done, s.modifyWorld (·.clearBindings c))
  | .clearBaselines => (.done, s.modifyWorld (·.clearBaselines c))
  | .release => (.done, s.modifyWorld (·.release c))
  | .get cls name => (.ofOption .value (s.world.getStatic c cls name), s)
  | .set cls name v =>
    let (result, world) := s.world.setStatic c cls name v
    (.ofExcept .agentFault (fun _ => .done) result, { s with world })
  | .classStatics cls =>
    (.statics (ctx.statics.live.get? cls) (ctx.statics.baselines.get? cls)
      (ctx.statics.pendingChanges cls), s)
  | .tick =>
    let (report, world) := s.world.tick c
    (.report report, { s with world })
  | .setClock frames millis secs =>
    let clock := ctx.clock
    let clock := { clock with
      frames := frames.getD clock.frames
      elapsedMillis := millis.getD clock.elapsedMillis }
    let clock := match secs with
      | some x => clock.setElapsedSecs x
      | none => clock
    (.list [.clock clock, .text clock.display],
      s.modifyWorld (·.modifyContext c fun ctx => { ctx with clock }))
  | .save slot =>
    let (result, world) := s.world.save c
    let s := { s with world }
    match result with
    | .error e => (.contextFault e, s)
    | .ok states =>
      (.snapshot states, s.modifyApp fun app =>
        { app with snapshots := app.snapshots.insert slot states })

/-- Carries out a command on an agent and a context. -/
def runMember (s : Session) (a : AgentRef) (c : ContextRef) : MemberCommand → Answer × Session
  | .add =>
    let s := s.modifyWorld (·.addAgent c a)
    (s.view a, s)
  | .remove =>
    let s := s.modifyWorld (·.removeAgent c a)
    (s.view a, s)
  | .contains => (.flag (s.world.containsAgent c a), s)
  | .bind name =>
    let (result, world) := s.world.bind c name a
    (.ofExcept .agentFault (fun _ => .done) result, { s with world })
  | .exec =>
    let (status, world) := s.world.exec c a
    (.ofOption .status status, { s with world })

/-! ## Snapshots -/

/-- Keeps the snapshot that a text stands for. -/
def readSnapshot (s : Session) (slot text : String) : Answer × Session :=
  match Snapshot.decode text with
  | .error e => (.contextFault e, s)
  | .ok states =>
    (.snapshot states, s.modifyApp fun app =>
      { app with snapshots := app.snapshots.insert slot states })

/-- Whether a snapshot is the same after it was written and read. -/
def reread (states : Snapshot) : Answer :=
  match Snapshot.decode states.toText with
  | .error e => .contextFault e
  | .ok again => .equal (again.same states)

/-! ## Receivers, writers and observers -/

/-- Sets up a receiver. -/
def newSink (s : Session) (name : String) (spec : SinkSpec) : Answer × Session :=
  let keep := fun (app : App) handle => { app with sinks := app.sinks.insert name handle }
  match spec with
  | .memory fails broken =>
    (.done, s.modifyApp fun app =>
      keep { app with memories := app.memories.push { fails, broken } } (.memory app.memories.size))
  | .reporting => (.done, s.modifyApp fun app => keep app .reporting)
  | .output writer =>
    match s.app.writerNames.get? writer with
    | none => (.refused .noSink, s)
    | some n => (.done, s.modifyApp fun app => keep app (.output n))

/-- The records of a memory, taken out. -/
def takeRecords (s : Session) (sink : String) : Answer × Session :=
  match s.app.sinks.get? sink with
  | none => (.refused .noSink, s)
  | some (.memory n) =>
    (.records ((s.app.memories[n]?.map (·.records)).getD []),
      s.modifyApp fun app =>
        { app with memories := app.memories.modify n fun m => { m with records := [] } })
  | some _ => (.nothing, s)

/-- Sets up a writer. -/
def newWriter (s : Session) (name : String) (spec : WriterSpec) : Answer × Session :=
  let keep := fun w => s.modifyApp fun app =>
    { app with
      writers := app.writers.push w
      writerNames := app.writerNames.insert name app.writers.size }
  match spec with
  | .csv true => (.outputFault (.csv "missing directory"), s)
  | .csv false => (.done, keep (.csv {}))
  | .database true => (.outputFault (.sqlite "unable to open database file"), s)
  | .database false => (.done, keep (.database {}))
  | .recorder fails => (.done, keep (.recorder { fails }))

/-- Puts a call to a writer. -/
def callWriter (s : Session) (n : Nat) (call : Output.Call) :
    Except OutputError Unit × Session :=
  let (result, app) := App.channel n call s.app
  (result, s.modifyApp fun _ => app)

/-- Drops the workspace with all its contexts. -/
def dropWorkspace (s : Session) : Session :=
  match s.workspace with
  | none => s
  | some (ws, _) => { s with workspace := none }.modifyWorld ws.drop

/-- Closes a writer of files: everybody who writes to writers goes first. -/
def closeWriter (s : Session) (name : String) (n : Nat) : Answer × Session :=
  let s := s.dropWorkspace
  let isOutput := fun h => match h with
    | SinkHandle.output _ => true
    | _ => false
  let s := s.modifyApp fun app =>
    { app with
      sinks := (app.sinks.filter fun _ h => !isOutput h).erase "prev"
      writerNames := app.writerNames.erase name }
  let s := { s with observers := s.observers.filter fun _ o => match o with
    | .output .. => false
    | _ => true }
  let answer := match s.app.writers[n]? with
    | some (.csv w) => Answer.contents (.csv w.close)
    | _ => .nothing
  (answer, s)

/-- Sets up an observer. -/
def newObserver (s : Session) (name : String) (spec : ObserverSpec) : Answer × Session :=
  let keep := fun o => { s with observers := s.observers.insert name o }
  match spec with
  | .recorder => (.done, keep (.recorder []))
  | .output writer =>
    match s.app.writerNames.get? writer with
    | none => (.refused .noSink, s)
    | some n => (.done, keep (.output n none))

/-- What an observer was told, taken out; for one that writes, only that it is there. -/
def readObserver (s : Session) (name : String) : Answer × Session :=
  match s.observers.get? name with
  | none => (.nothing, s)
  | some (.recorder notices) =>
    (.notices notices, { s with observers := s.observers.insert name (.recorder []) })
  | some (.output ..) => (.flag true, s)

/-- The first refusal that an observer met, taken out. -/
def takeError (s : Session) (name : String) : Answer × Session :=
  match s.observers.get? name with
  | some (.output n first) =>
    let (e, first) := Output.takeError first
    (.ofOption .outputFault e, { s with observers := s.observers.insert name (.output n first) })
  | _ => s.readObserver name

/-- Finishes an observer. -/
def finishObserver (s : Session) (name : String) : Answer × Session :=
  match s.observers.get? name with
  | some (.output n first) =>
    let (result, first, host) := Output.finish (App.channel n) first s.world.host
    (.ofExcept .outputFault (fun _ => .done) result,
      { s with
        world := { s.world with host }
        observers := s.observers.insert name (.output n first) })
  | _ => s.readObserver name

/-! ## The workspace -/

/-- Sets up a workspace in the place of the former one. -/
def newWorkspace (s : Session) (config : ConfigSpec) (sink : Option String) :
    Answer × Session :=
  let config : Except BaseError Config := match config with
    | .given c => .ok c
    | .text json => Config.ofText json
  match config with
  | .error e => (.configFault e, s)
  | .ok config =>
    match sink.map fun name => s.app.sinks.get? name with
    | some none => (.refused .noSink, s)
    | found =>
      let handle := found.join
      match Workspace.build config s.types (handle.map App.sink) with
      | .error e => (.workspaceFault e, s)
      | .ok ws => (.done, { s.dropWorkspace with workspace := some (ws, handle.getD .reporting) })

/-- Hands the context of a slot over to the workspace. -/
def insertContext (s : Session) (slot : String) : Answer × Session :=
  match s.app.slots.get? slot, s.workspace with
  | none, _ => (.refused .noContext, s)
  | _, none => (.refused .noWorkspace, s)
  | some c, some (ws, handle) =>
    let (result, ws, world) := ws.insert c s.world
    let s := { s with world, workspace := some (ws, handle) }.modifyApp fun app =>
      { app with slots := app.slots.erase slot }
    (.ofExcept .workspaceFault (fun _ => .done) result, s)

/-- The observer of a name, or one that nobody asked for. -/
def observerOr (s : Session) (name : Option String) : ObserverState :=
  (name.bind s.observers.get?).getD (.recorder [])

/-- Keeps the state of the observer of a name, if there is one. -/
def keepObserver (s : Session) (name : Option String) (o : ObserverState) : Session :=
  match name with
  | some name =>
    if s.observers.contains name then { s with observers := s.observers.insert name o } else s
  | none => s

/-- Carries out a command on the workspace. -/
def runWorkspace (s : Session) (ws : Workspace App) (handle : SinkHandle) :
    WorkspaceCommand → Answer × Session
  | .context id =>
    let (result, ws, world) := ws.context id s.world
    let s := { s with world, workspace := some (ws, handle) }
    (.ofExcept .workspaceFault s.dump result, s)
  | .find id => (.ofOption s.dump (ws.find? id), s)
  | .ids =>
    (.list [.list (ws.contextIds.map fun id => .number id.number.toInt),
      .number ws.directory.size, .flag ws.directory.isEmpty], s)
  | .tick id observer =>
    let (result, ws, o, world) := ws.tick App.observer id (s.observerOr observer) s.world
    (.ofExcept .workspaceFault .report result,
      { s with world, workspace := some (ws, handle) }.keepObserver observer o)
  | .log id =>
    let (result, world) := ws.logStates id s.world
    (.ofExcept .workspaceFault (fun n => .number n) result, { s with world })
  | .cleanup id observer =>
    let (result, ws, o, world) := ws.cleanup App.observer id (s.observerOr observer) s.world
    let s := { s with world, workspace := some (ws, handle) }.keepObserver observer o
    match result with
    | .error e => (.workspaceFault e, s)
    | .ok returned =>
      let answer := .list (returned.map s.dump)
      let slot := fun (c : ContextRef) => "ret:" ++ toString
        (((s.world.context? c).map Context.id).getD ContextId.invalid).number.toInt
      (answer, returned.foldl (fun s c => s.setSlot (slot c) c) s)
  | .replaceSink name =>
    match s.app.sinks.get? name with
    | none => (.refused .noSink, s)
    | some new =>
      let (_, ws) := ws.replaceSink (App.sink new)
      (.done, { s with workspace := some (ws, new) }.modifyApp fun app =>
        { app with sinks := app.sinks.insert "prev" handle })
  | .debug => (.text ws.debug, s)
  | .info =>
    (.list [.number ws.config.tickMillis.toNat, .number ws.config.stateLogInterval.toNat,
      .flag ws.config.logStaticsOnTick, .list (ws.types.classes.keys.map .text)], s)

/-! ## Commands -/

/-- Goes on with the agent of a name, or refuses. -/
def withAgent (s : Session) (name : AgentName) (f : AgentRef → Answer × Session) :
    Answer × Session :=
  match s.app.agent? name with
  | some a => f a
  | none => (.refused .noAgent, s)

/-- Goes on with the context of a name, or refuses. -/
def withContext (s : Session) (name : ContextName) (f : ContextRef → Context → Answer × Session) :
    Answer × Session :=
  match s.context? name with
  | none => (.refused .noContext, s)
  | some c =>
    match s.world.context? c with
    | none => (.refused .noContext, s)
    | some ctx => f c ctx

/-- Goes on with a receiver, or refuses. -/
def withSink (s : Session) (name : String) (f : Sink App → Answer × Session) : Answer × Session :=
  match s.app.sinks.get? name with
  | some handle => f (App.sink handle)
  | none => (.refused .noSink, s)

/-- Goes on with a snapshot, or refuses. -/
def withSnapshot (s : Session) (slot : String) (f : Snapshot → Answer × Session) :
    Answer × Session :=
  match s.app.snapshots.get? slot with
  | some states => f states
  | none => (.refused .noSnapshot, s)

/-- Goes on with the number of a writer, or refuses. -/
def withWriter (s : Session) (name : String) (f : Nat → Answer × Session) : Answer × Session :=
  match s.app.writerNames.get? name with
  | some n => f n
  | none => (.refused .noSink, s)

/-- Carries out a command. -/
def run (s : Session) : Command → Answer × Session
  | .create key name cls priority task =>
    s.createAgent key { name, cls, priority, task := task.start }
  | .drop key => s.dropAgent key
  | .same a b => s.withAgent a fun a => s.withAgent b fun b =>
    (.list [.flag (a == b), .flag (s.world.alive a), .flag (s.world.alive a)], s)
  | .agent name command => s.withAgent name fun a => s.runAgent a command
  | .pool name retain => s.runPool name retain
  | .newContext slot id stepMillis =>
    let (c, world) := s.world.addContext (.new id s.types stepMillis)
    let s := { s with world }.setSlot slot c
    (s.dump c, s)
  | .dropContext slot =>
    match s.app.slots.get? slot with
    | none => (.flag false, s)
    | some c =>
      (.flag true, (s.modifyApp fun app => { app with slots := app.slots.erase slot }).modifyWorld
        (·.dropContext c))
  | .context name command => s.withContext name fun c ctx => s.runContext c ctx command
  | .member a name command =>
    s.withAgent a fun a => s.withContext name fun c _ => s.runMember a c command
  | .logStatics name sink cls => s.withContext name fun c _ => s.withSink sink fun sink =>
    let (sent, world) := s.world.logStatics c cls sink
    (.ofExcept .contextFault (fun n => .number n) sent, { s with world })
  | .logState name sink => s.withContext name fun c _ => s.withSink sink fun sink =>
    let (sent, world) := s.world.logState c sink
    (.ofExcept .contextFault (fun n => .number n) sent, { s with world })
  | .load name slot =>
    let go := fun states => s.withContext name fun c _ =>
      let (result, world) := s.world.load c states
      (.ofExcept .contextFault (fun _ => .done) result, { s with world })
    match slot with
    | none => go {}
    | some slot => s.withSnapshot slot go
  | .toText slot => s.withSnapshot slot fun states => (.text states.toText, s)
  | .fromText slot text => s.readSnapshot slot text
  | .reread slot => s.withSnapshot slot fun states => (reread states, s)
  | .newSink name spec => s.newSink name spec
  | .takeRecords sink => s.takeRecords sink
  | .newWriter name spec => s.newWriter name spec
  | .write writer call => s.withWriter writer fun n =>
    let (result, s) := s.callWriter n call
    (.ofExcept .outputFault (fun _ => .done) result, s)
  | .finish writer => s.withWriter writer fun n =>
    let (result, s) := s.callWriter n .finish
    (.list [.ofExcept .outputFault (fun _ => .done) result,
      .ofOption .contents (s.app.writers[n]?)], s)
  | .close writer => s.withWriter writer (s.closeWriter writer)
  | .newObserver name spec => s.newObserver name spec
  | .readObserver name => s.readObserver name
  | .takeError observer => s.takeError observer
  | .finishObserver observer => s.finishObserver observer
  | .newWorkspace config sink => s.newWorkspace config sink
  | .dropWorkspace => (.flag s.workspace.isSome, s.dropWorkspace)
  | .insertContext slot => s.insertContext slot
  | .workspace command =>
    match s.workspace with
    | none => (.refused .noWorkspace, s)
    | some (ws, handle) => s.runWorkspace ws handle command

/-! ## Steps -/

/-- What there is after a step: the contexts of the slots and of the workspace, and the
agents under keys with their registrations. -/
structure Digest where
  slots : List (String × Dump)
  members : List (ContextId × Dump)
  agents : List (String × Registration)

/-- The digest of a session. -/
def digest (s : Session) : Digest where
  slots := s.app.slots.toList.filterMap fun (name, c) =>
    (s.world.context? c).map fun ctx => (name, .of s.world ctx)
  members := match s.workspace with
    | none => []
    | some (ws, _) => ws.directory.toList.filterMap fun (id, c) =>
      (s.world.context? c).map fun ctx => (id, .of s.world ctx)
  agents := s.app.agents.toList.filterMap fun (key, a) =>
    (s.world.live? a).map fun agent => (key, agent.place)

/-- The outcome of a step: the answer, the trace of scripted tasks, and the reports. -/
structure StepOutcome where
  answer : Answer
  trace : Array Trace
  events : Array Event

/-- Carries out one command while a writer may be in use by somebody else. -/
def step (s : Session) (hold : Option String) (c : Command) : StepOutcome × Session :=
  let held := hold.bind fun name => s.app.writerNames.get? name
  let s := s.modifyApp fun app => { app with held, trace := #[] }
  let s := s.modifyWorld fun w => { w with host := { w.host with events := #[] } }
  let (answer, s) := s.run c
  (⟨answer, s.app.trace, s.world.host.events⟩, s)

end Session

end AgentScheduler
