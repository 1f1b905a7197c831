/-
The arena demonstration: two arenas with one spawner each are ticked forty
times. Halfway the first arena is saved, and at the end the program tries to
load it back. It leaves three tables, the saved text and a printed account; if
one of its files cannot be opened, it ends there with what it has written.
-/
import AgentScheduler.Arena.Task
import AgentScheduler.Output.Adapter
import AgentScheduler.Output.Csv

namespace AgentScheduler.Arena

/-- How many arenas there are. -/
def arenaCount : Nat := 2

/-- How many ticks are run. -/
def totalTicks : Nat := 40

/-- The tick after which the first arena is saved. -/
def saveAtTick : Nat := 20

/-- The seed of the first arena; those of the others follow. -/
def seed : Nat := 42

/-- The directory that is written to unless another one is named. -/
def defaultDirectory : String := "arena_output"

/-- The file of the saved arena. -/
def savedFile : String := "arena_0_states.json"

/-- The configuration. -/
def config : Config where
  tickMillis := 100
  stateLogInterval := 10
  logStaticsOnTick := true

/-- The classes of the arena. -/
def declarations : List Declaration :=
  [.cls "Actor" none, .cls "Spawner" (some "Actor"), .cls "Minion" (some "Actor"),
    .instanceName "Spawner" "spawner", .instanceName "Minion" "champion",
    .static "Spawner" "waves" (.int 0), .static "Minion" "spawned" (.int 0),
    .static "Minion" "alive" (.int 0)]

/-- A task of the arena; spawners draw from `γ`. -/
inductive Task (γ : Type)
  | spawner (s : Spawner γ)
  | minion (m : Minion)

/-- What the program keeps besides its contexts. -/
structure Keep where
  pools : Pools := .empty
  writer : Output.CsvWriter := {}

/-- The program's writer; its files can always be written. -/
def channel : Output.Channel Keep := fun call keep =>
  let (result, writer) := keep.writer.serve (fun _ => none) call
  (result, { keep with writer })

instance {γ : Type} [Draws γ] : Behavior (Task γ) Keep where
  exec self
    | .spawner s => do
      let (status, s) ← s.exec .minion fun pool a keep => { keep with pools := keep.pools.keep pool a }
      return (status, .spawner s)
    | .minion m => do
      let (status, m) ← m.exec self
      return (status, .minion m)
  save
    | .spawner s => s.save
    | .minion m => m.save
  load state
    | .spawner s =>
      let (result, s) := s.load state
      (result, .spawner s)
    | .minion m =>
      let (result, m) := m.load state
      (result, .minion m)
  describe
    | .spawner s => s.describe
    | .minion m => m.describe

/-- The program between two ticks. -/
structure State where
  workspace : Workspace Keep
  world : World (Task Generator) Keep
  firstError : Output.FirstError := none
  /-- The tables whose files are open. -/
  tables : List Output.Table := []
  /-- The saved arena. -/
  saved : Option String := none
  /-- The printed lines so far. -/
  lines : Array String := #[]

/-- Why the program ended early, and what was behind it. -/
structure Failure where
  message : String
  cause : Option String := none
  deriving DecidableEq

/-- What the program says at an early end. -/
def Failure.text (f : Failure) : String :=
  let cause := match f.cause with
    | none => ""
    | some cause => "\n\nCaused by:\n    " ++ cause
  "Error: " ++ f.message ++ cause ++ "\n"

/-- The directory cannot be made. -/
def Failure.directory (name fault : String) : Failure :=
  ⟨"creating output directory " ++ name, some fault⟩

/-- The file of a table cannot be opened. -/
def Failure.table (fault : String) : Failure := ⟨(OutputError.csv fault).message, some fault⟩

/-- What the program leaves. -/
structure Outcome where
  lines : Array String
  /-- The tables whose files were opened, with what is in them. -/
  files : List (String × String)
  saved : Option String
  failure : Option Failure

/-- Step of the program, up to a failure. -/
abbrev Step (β : Type) := ExceptT Failure (StateM State) β

/-- Prints a line. -/
def print (line : String) : Step Unit := modify fun s => { s with lines := s.lines.push line }

/-- The value, or an end with the wording of the failure. -/
def orFail {ε β : Type} (message : ε → String) : Except ε β → Step β
  | .ok b => pure b
  | .error e => throw ⟨message e, none⟩

/-- Opens the file of a table; `fault` is why that cannot be done, if so. -/
def openTable (fault : String → Option String) (t : Output.Table) : Step Unit :=
  match fault t.fileName with
  | some fault => throw (.table fault)
  | none => modify fun s => { s with tables := s.tables ++ [t] }

/-- The context of an arena. -/
def arenaContext (n : Nat) : Step ContextRef := do
  let s ← get
  let (result, workspace, world) := s.workspace.context ⟨.ofNat n⟩ s.world
  set { s with workspace, world }
  orFail WorkspaceError.message result

/-- Puts a spawner into an arena. -/
def addSpawner (n : Nat) : Step Unit := do
  let s ← get
  let (spawner, world) := s.world.create
    { name := "spawner-" ++ toString n
      cls := "Spawner"
      priority := 0
      task := .spawner { draws := .ofSeed (.ofNat (seed + n)), pool := toString n } }
  set { s with world }
  let c ← arenaContext n
  modify fun s => { s with world := s.world.addAgent c spawner }
  let s ← get
  let (result, world) := s.world.bind c "spawner" spawner
  set { s with world }
  orFail AgentError.message result

/-- Gives up the minions that left their arena. -/
def dropFallen (s : State) : State :=
  let registered := fun a => (s.world.agent? a).any (·.place.context.isValid)
  let pools := s.world.host.app.pools
  let fallen := pools.values.flatten.filter fun a => !registered a
  let world := fallen.foldl (fun w a => w.disown a) s.world
  let app := { world.host.app with pools := pools.mapValues fun _ as => as.filter registered }
  { s with world := { world with host := { world.host with app } } }

/-- Saves the first arena, unless its file has a fault. -/
def saveArena (fault : String → Option String) (tick : Nat) : Step Unit := do
  let c ← arenaContext 0
  let s ← get
  let (result, world) := s.world.save c
  set { s with world }
  let states ← orFail ContextError.message result
  if let some fault := fault savedFile then throw ⟨fault, none⟩
  print ("Saved arena 0 at tick " ++ toString tick ++ ": " ++ toString states.agents.length
    ++ " agents")
  modify fun s => { s with saved := some states.toText }

/-- One tick of all arenas. -/
def tick (fault : String → Option String) (n : Nat) : Step Unit := do
  let s ← get
  let (result, workspace, firstError, world) :=
    s.workspace.tick (Output.observer channel) .all s.firstError s.world
  set { s with workspace, world, firstError }
  discard (orFail WorkspaceError.message result)
  if let some e := firstError then throw ⟨e.message, none⟩
  modify dropFallen
  if n = saveAtTick then saveArena fault n

/-- Tries to load what was saved. A snapshot with agents that have left is refused. -/
def restoreArena (text : String) : Step Unit := do
  let states ← orFail ContextError.message (Snapshot.decode text)
  let c ← arenaContext 0
  let s ← get
  let (result, world) := s.world.load c states
  set { s with world }
  match result with
  | .ok () => print ("Restored arena 0 to frame " ++ toString states.clock.frames.toNat)
  | .error e => print ("Snapshot not restored: " ++ e.message)

/-- The last line about an arena. -/
def summary (s : State) (n : Nat) : List String :=
  match (s.workspace.find? ⟨.ofNat n⟩).bind fun c => (s.world.context? c) with
  | none => []
  | some ctx =>
    let static := fun name => ((ctx.statics.get? "Minion" name).map (·.display)).getD ""
    ["Arena " ++ toString n ++ ": clock " ++ ctx.clock.display ++ "  agents "
      ++ toString ctx.registry.index.size ++ "  spawned " ++ static "spawned"
      ++ "  alive " ++ static "alive"]

/-- The whole program. -/
def program (directory : String) (fault : String → Option String) : Step Unit := do
  print "=== arena: rust_bt behavior-tree runtime ==="
  print ("Arenas: " ++ toString arenaCount ++ "  |  Ticks: " ++ toString totalTicks
    ++ "  |  Seed: " ++ toString seed)
  print ("Output: " ++ directory)
  print ""
  [Output.Table.ticks, .statics, .states].forM (openTable fault)
  (List.range arenaCount).forM addSpawner
  (List.range' 1 totalTicks).forM (tick fault)
  match (← get).saved with
  | some text => restoreArena text
  | none => pure ()
  let s ← get
  let (result, world) := s.workspace.logStates .all s.world
  set { s with world }
  let records ← orFail WorkspaceError.message result
  let s ← get
  let (result, firstError, host) := Output.finish channel s.firstError s.world.host
  set { s with firstError, world := { s.world with host } }
  orFail OutputError.message result
  print ""
  let s ← get
  ((List.range arenaCount).flatMap (summary s)).forM print
  print ("Final state records: " ++ toString records)
  print ("Spawners still owned by the application: " ++ toString arenaCount)

/-- The configured workspace, which writes to the tables. -/
def workspace : Except String (Workspace Keep) := do
  let types ← (Hierarchy.build declarations).mapError AgentError.message
  (Workspace.build config types (some (Output.sink channel))).mapError WorkspaceError.message

/-- Runs the program for an output directory that exists; `fault` is why the file of a name
cannot be opened there, if so. -/
def run (directory : String) (fault : String → Option String) : Outcome :=
  match workspace with
  | .error message => ⟨#[], [], none, some ⟨message, none⟩⟩
  | .ok workspace =>
    let start : State := { workspace, world := { host := { app := {} } } }
    let (result, s) := (program directory fault).run.run start
    let writer := s.world.host.app.writer.close
    { lines := s.lines
      files := s.tables.map fun t => (t.fileName, String.ofList (writer.file t).flushed)
      saved := s.saved
      failure := match result with
        | .ok () => none
        | .error e => some e }

end AgentScheduler.Arena
