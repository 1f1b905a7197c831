/-
The tasks of a session: how scripted tasks carry out their actions.
-/
import AgentScheduler.Session.App
import AgentScheduler.Tick

namespace AgentScheduler.Session

/-- A program of a session's tasks. -/
abbrev Play (β : Type) := Prog Task App β

namespace Play

/-- Goes on with the agent of a name, or refuses. -/
def withAgent (self : AgentRef) (name : AgentName) (f : AgentRef → Play Answer) : Play Answer := do
  match (← Prog.app).agentFor? self name with
  | some a => f a
  | none => return .refused .noAgent

/-- An operation on the context of a slot, unless the context is in use. -/
def there (slot : String) (op : ContextOp App) (f : op.Answer → Answer) : Play Answer := do
  match (← Prog.app).slots.get? slot with
  | none => return .refused .noContext
  | some c =>
    let answer : Option op.Answer ← Prog.ask (.there c op)
    return match answer with
      | some answer => f answer
      | none => .refused .busy

/-- An operation on the context of a slot that concerns an agent. -/
def thereWith (self : AgentRef) (slot : String) (name : AgentName) (op : AgentRef → TaskOp) :
    Play Answer := do
  if !(← Prog.app).slots.contains slot then return .refused .noContext
  withAgent self name fun a => there slot (.task (op a)) fun _ => .done

/-- Whether the result is good, or its failure. -/
def outcome (r : Except AgentError Unit) : Answer := .ofExcept .agentFault (fun _ => .done) r

/-- Carries out one action. -/
def act (self : AgentRef) : Action → Play Answer
  | .add a => withAgent self a fun a => do
    Prog.add a
    return .done
  | .remove a => withAgent self a fun a => do
    Prog.remove a
    return .done
  | .bind name a => withAgent self a fun a => return outcome (← Prog.bindName name a)
  | .unbind name => return outcome (← Prog.unbindName name)
  | .lookup name => do
    match ← Prog.lookup name with
    | none => return .nothing
    | some a =>
      let view : Option AgentView ← Prog.ask (.view a)
      return .ofOption (fun v => .text v.name) view
  | .get cls name => return .ofOption .value (← Prog.getStatic cls name)
  | .set cls name v => return outcome (← Prog.setStatic cls name v)
  | .increase cls name delta => do
    let current := match ← Prog.getStatic cls name with
      | some (.int n) => n
      | _ => 0
    return outcome (← Prog.setStatic cls name (.int (current + delta)))
  | .clock => return .clock (← Prog.clock)
  | .context => return .list [.number (← Prog.contextId).number.toInt, .flag (← Prog.isExecuting)]
  | .drop key => do
    match (← Prog.app).agents.get? key with
    | none => return .flag false
    | some a =>
      Prog.setApp fun app => { app with agents := app.agents.erase key }
      Prog.ask (.disown a)
      return .flag true
  | .create key name cls priority task => do
    let a ← Prog.create { name, cls, priority, task := task.start }
    let former := (← Prog.app).agents.get? key
    Prog.setApp fun app => { app with agents := app.agents.insert key a }
    match former with
    | none => return .flag false
    | some old =>
      Prog.ask (.disown old)
      return .flag true
  | .exec a => withAgent self a fun a => do
    let status : Option Status ← Prog.ask (.exec a)
    return .ofOption .status status
  | .saveState a => withAgent self a fun a => do
    let state : Except AgentError Json ← Prog.ask (.saveTask a)
    return .ofExcept .agentFault .blob state
  | .loadState a state => withAgent self a fun a => do
    let result : Except AgentError Unit ← Prog.ask (.loadTask a state)
    return outcome result
  | .describe a => withAgent self a fun a => do
    let text : String ← Prog.ask (.describeTask a)
    return .text text
  | .info a => withAgent self a fun a => do
    let view : Option AgentView ← Prog.ask (.view a)
    return .ofOption .agent view
  | .counts => do
    let counts : Counts ← Prog.ask (.here .counts)
    return .ofCounts counts
  | .tick => do
    let report : TickReport ← Prog.ask (.here .tick)
    return .report report
  | .save => do
    let states : Except ContextError Snapshot ← Prog.ask (.here .save)
    return .ofExcept .contextFault .snapshot states
  | .load slot => do
    let states := ((← Prog.app).snapshots.get? slot).getD {}
    let result : Except ContextError Unit ← Prog.ask (.here (.load states))
    return .ofExcept .contextFault (fun _ => .done) result
  | .release => do
    Prog.ask (.here .release)
    return .done
  | .logState sink => do
    match (← Prog.app).sinks.get? sink with
    | none => return .refused .noSink
    | some handle =>
      let sent : Except ContextError Nat ← Prog.ask (.here (.logState (App.sink handle)))
      return .ofExcept .contextFault (fun n => .number n) sent
  | .otherAdd slot a => thereWith self slot a .add
  | .otherRemove slot a => thereWith self slot a .remove
  | .otherTick slot => there slot .tick fun (r : TickReport) => .report r

/-- Carries out actions one after the other and traces each with its answer. -/
def actAll (self : AgentRef) (name : String) : List Action → Play Unit
  | [] => return
  | action :: actions => do
    let answer ← act self action
    Prog.setApp (·.record (.did name action answer))
    actAll self name actions

/-- One step of a scripted task. Without a script for the step the task goes on running. -/
def script (self : AgentRef) (t : ScriptTask) : Play (Status × ScriptTask) := do
  let next := { t with execs := t.execs + 1, runs := t.runs + 1 }
  let view : Option AgentView ← Prog.ask (.view self)
  let name := (view.map (·.name)).getD ""
  match t.script.step? t.execs with
  | none =>
    Prog.setApp (·.record (.idle name))
    return (.running, next)
  | some (.mk actions status) =>
    Prog.setApp (·.record (.run name))
    actAll self name actions
    return (status, next)

end Play

instance : Behavior Task App where
  exec self
    | .noop => return (.success, .noop)
    | .bare => return (.failure, .bare)
    | .spawner s => do
      let (status, s) ← s.exec .minion fun pool a app => { app with pools := app.pools.keep pool a }
      return (status, .spawner s)
    | .minion m => do
      let (status, m) ← m.exec self
      return (status, .minion m)
    | .script t => do
      let (status, t) ← Play.script self t
      return (status, .script t)
  save
    | .spawner s => s.save
    | .minion m => m.save
    | .script t => t.save
    | _ => .null
  load state
    | .spawner s => (s.load state).map id .spawner
    | .minion m => (m.load state).map id .minion
    | .script t => (t.load state).map id .script
    | t => (.ok (), t)
  describe
    | .spawner s => s.describe
    | .minion m => m.describe
    | .script t => t.describe
    | _ => ""

end AgentScheduler.Session
