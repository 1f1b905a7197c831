/-
Scripted tasks: each step of such a task carries out a list of actions and ends
with a given status. An action names agents, contexts and receivers as the
session does.
-/
import AgentScheduler.Arena.Task
import AgentScheduler.Session.Writer

namespace AgentScheduler.Session

/-- How a session names an agent: a key, the running agent, or a place in a pool. -/
abbrev AgentName := String

mutual

/-- What an agent is to do. -/
inductive TaskSpec
  /-- Succeeds and does nothing. -/
  | noop
  /-- Fails and does nothing. -/
  | bare
  /-- Spawns minions into a pool. -/
  | spawner (seed : UInt64) (pool : String)
  /-- Carries out a script. -/
  | script (s : Script)

/-- The steps of a scripted task. -/
inductive Script
  | mk (steps : List ScriptStep) (repeats : Bool) (data : Json) (description : Option String)
    (refusedLoads : List Nat)

/-- What is done at one step, and how it ends. -/
inductive ScriptStep
  | mk (actions : List Action) (status : Status)

/-- One action of a running task. -/
inductive Action
  | add (a : AgentName)
  | remove (a : AgentName)
  | bind (name : String) (a : AgentName)
  | unbind (name : String)
  | lookup (name : String)
  | get (cls name : String)
  | set (cls name : String) (v : Value)
  | increase (cls name : String) (delta : Int64)
  | clock
  | context
  | drop (key : String)
  | create (key : String) (name cls : String) (priority : Int32) (task : TaskSpec)
  | exec (a : AgentName)
  | saveState (a : AgentName)
  | loadState (a : AgentName) (state : Json)
  | describe (a : AgentName)
  | info (a : AgentName)
  | counts
  | tick
  | save
  | load (slot : String)
  | release
  | logState (sink : String)
  | otherAdd (slot : String) (a : AgentName)
  | otherRemove (slot : String) (a : AgentName)
  | otherTick (slot : String)

end

namespace Script

/-- The steps, in order. -/
def steps : Script → List ScriptStep
  | mk steps .. => steps

/-- Starts again after the last step. -/
def repeats : Script → Bool
  | mk _ repeats .. => repeats

/-- What the task keeps at first. -/
def data : Script → Json
  | mk _ _ data .. => data

/-- The fixed description, if there is one. -/
def description : Script → Option String
  | mk _ _ _ description _ => description

/-- The loads to refuse, counted from 0. -/
def refusedLoads : Script → List Nat
  | mk _ _ _ _ refusedLoads => refusedLoads

/-- The step that is carried out at the `k`-th run. -/
def step? (s : Script) (k : Nat) : Option ScriptStep :=
  if s.repeats ∧ s.steps ≠ [] then s.steps[k % s.steps.length]? else s.steps[k]?

end Script

/-- A scripted task in progress. -/
structure ScriptTask where
  script : Script
  /-- How often the task ran, as far as it knows. -/
  runs : UInt64 := 0
  data : Json
  /-- How often the task ran. -/
  execs : Nat := 0
  /-- How often a state was offered to the task. -/
  loads : Nat := 0

namespace ScriptTask

/-- The task's kept state. -/
def save (t : ScriptTask) : Json :=
  Json.ofMembers [("runs", .int t.runs.toNat), ("data", t.data)]

/-- The task with a kept state. -/
def load (state : Json) (t : ScriptTask) : Except AgentError Unit × ScriptTask :=
  let next := { t with loads := t.loads + 1 }
  if t.script.refusedLoads.contains t.loads then
    (.error (.state ("load " ++ toString t.loads ++ " refused")), next)
  else if (state.member? "bad").isSome then (.error (.state "rejected"), next)
  else match (state.member? "runs").bind Json.unsigned? with
    | none => (.error (.state "missing 'runs'"), next)
    | some runs => (.ok (), { next with runs, data := (state.member? "data").getD .null })

/-- One line about the task. -/
def describe (t : ScriptTask) : String :=
  t.script.description.getD ("runs=" ++ toString t.runs.toNat)

end ScriptTask

/-- A task of a session. -/
inductive Task
  | noop
  | bare
  | spawner (s : Arena.Spawner Arena.Generator)
  | minion (m : Arena.Minion)
  | script (t : ScriptTask)

/-- The task that a specification starts as. -/
def TaskSpec.start : TaskSpec → Task
  | noop => .noop
  | bare => .bare
  | spawner seed pool => .spawner { draws := .ofSeed seed, pool }
  | script s => .script { script := s, data := s.data }

end AgentScheduler.Session
