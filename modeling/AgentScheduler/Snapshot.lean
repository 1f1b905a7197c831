/-
Snapshots of a context: identities and values, never references. A snapshot has
a JSON form; one that was taken from no particular context carries the invalid
context id.
-/
import AgentScheduler.Clock
import AgentScheduler.Id
import AgentScheduler.Json.Printer
import AgentScheduler.Variables

namespace AgentScheduler

/-- The agent that a name was bound to, by its id, and its class. -/
structure NamedBinding where
  agent : AgentId
  cls : String
  deriving DecidableEq

/-- The state of one agent's task. -/
structure AgentSnapshot where
  id : AgentId
  cls : String
  priority : Int32
  state : Json

/-- The logical state of a context. -/
structure Snapshot where
  context : ContextId := .invalid
  clock : Clock := {}
  named : SortedMap String NamedBinding := .empty
  baselines : SortedMap String Variables := .empty
  values : SortedMap String Variables := .empty
  agents : List AgentSnapshot := []

namespace Snapshot

/-- Equal snapshots, doubles inside task states compared as numbers. -/
def same (a b : Snapshot) : Bool :=
  decide (a.context = b.context) && decide (a.clock = b.clock) && decide (a.named = b.named)
    && decide (a.baselines = b.baselines) && decide (a.values = b.values)
    && a.agents.length == b.agents.length
    && (a.agents.zip b.agents).all fun (x, y) =>
      decide (x.id = y.id) && x.cls == y.cls && decide (x.priority = y.priority)
        && x.state.same y.state

/-! ## Writing -/

/-- The JSON object of a map. -/
def mapToJson {ν : Type} (m : SortedMap String ν) (f : ν → Json) : Json :=
  .obj (m.toList.map fun (key, v) => (key, f v))

/-- The JSON object of a binding. -/
def bindingToJson (b : NamedBinding) : Json :=
  .obj [("agent", .int b.agent.number.toNat), ("class", .str b.cls)]

/-- The JSON object of an agent's state. -/
def agentToJson (a : AgentSnapshot) : Json :=
  .obj [("id", .int a.id.number.toNat), ("class", .str a.cls), ("priority", .int a.priority.toInt),
    ("state", a.state)]

/-- The JSON object of a snapshot, its fields in a fixed order. -/
def toJson (s : Snapshot) : Json :=
  .obj [("context_id", .int s.context.number.toInt), ("clock", s.clock.toJson),
    ("named", mapToJson s.named bindingToJson),
    ("static_baselines", mapToJson s.baselines Variables.toJson),
    ("static_values", mapToJson s.values Variables.toJson),
    ("agents", .arr (s.agents.map agentToJson))]

/-- The indented JSON text of a snapshot. -/
def toText (s : Snapshot) : String := s.toJson.pretty

/-! ## Reading -/

/-- How deep arrays and objects may be nested in a text, blobs of agents included. -/
def maxDepth : Nat := 127

/-- An agent's blob lies inside the snapshot, its list of agents and the agent. -/
def blobDepth : Nat := maxDepth - 3

/-- The binding that a record stands for. -/
def bindingOfSource? (s : Json.Source) : Option NamedBinding := do
  match ← s.fields? ["agent", "class"] with
  | [some agent, some cls] => some ⟨⟨← agent.uint32?⟩, ← cls.string?⟩
  | _ => none

/-- The agent's state that a record stands for. -/
def agentOfSource? (s : Json.Source) : Option AgentSnapshot := do
  match ← s.fields? ["id", "class", "priority", "state"] with
  | [some id, some cls, some priority, some state] =>
    some ⟨⟨← id.uint32?⟩, ← cls.string?, ← priority.int32?, ← state.json? blobDepth⟩
  | _ => none

/-- The snapshot that a record stands for. -/
def ofSource? (s : Json.Source) : Option Snapshot := do
  match ← s.fields?
      ["context_id", "clock", "named", "static_baselines", "static_values", "agents"] with
  | [some context, some clock, some named, some baselines, some values, some agents] =>
    some
      { context := ⟨← context.int64?⟩
        clock := ← Clock.ofSource? clock
        named := ← named.map? bindingOfSource?
        baselines := ← baselines.map? Variables.ofSource?
        values := ← values.map? Variables.ofSource?
        agents := ← agents.list? agentOfSource? }
  | _ => none

/-- The snapshot that a JSON text stands for. -/
def ofText? (text : String) : Option Snapshot := (Json.Source.ofText? text).bind ofSource?

end Snapshot

end AgentScheduler
