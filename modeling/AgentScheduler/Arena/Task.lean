/-
The tasks of the arena. A spawner draws at each step whether to spawn a minion;
a minion loses a hit point at each step and leaves with the last one. Both keep
count in static variables.
-/
import AgentScheduler.Arena.Random
import AgentScheduler.Task

namespace AgentScheduler.Arena

/-- Spawns minions into a pool. -/
structure Spawner (γ : Type) where
  draws : γ
  pool : String
  spawned : UInt32 := 0

/-- Has hit points left. -/
structure Minion where
  hp : Int64
  deriving DecidableEq

section Programs

variable {τ α γ : Type}

/-- Adds to a static variable that counts; one that holds no integer counts from zero. -/
def bump (cls name : String) (delta : Int64) : Prog τ α Unit := do
  let current := match ← Prog.getStatic cls name with
    | some (.int n) => n
    | _ => 0
  match ← Prog.setStatic cls name (.int (current + delta)) with
  | .ok () => pure ()
  | .error e => Prog.report (.counterNotUpdated e)

/-- One step of a spawner. A new minion is added to the context, becomes the champion if
there is none, and is kept in the spawner's pool. -/
def Spawner.exec [Draws γ] (minionTask : Minion → τ) (keep : String → AgentRef → α → α)
    (s : Spawner γ) : Prog τ α (Status × Spawner γ) := do
  let (spawns, draws) := Draws.spawns s.draws
  if !spawns then return (.running, { s with draws })
  let spawned := s.spawned + 1
  let (hp, draws) := Draws.hitPoints draws
  let context ← Prog.contextId
  let minion ← Prog.create
    { name := "minion-" ++ toString context.number.toInt ++ "-" ++ toString spawned.toNat
      cls := "Minion"
      priority := 1
      task := minionTask ⟨hp⟩ }
  Prog.add minion
  if (← Prog.lookup "champion").isNone then
    match ← Prog.bindName "champion" minion with
    | .ok () => pure ()
    | .error e => Prog.report (.championNotBound e)
  Prog.setApp (keep s.pool minion)
  bump "Spawner" "waves" 1
  bump "Minion" "spawned" 1
  bump "Minion" "alive" 1
  return (.success, { s with draws, spawned })

/-- One step of a minion. -/
def Minion.exec (self : AgentRef) (m : Minion) : Prog τ α (Status × Minion) := do
  let hp := m.hp - 1
  if 0 < hp then return (.running, ⟨hp⟩)
  Prog.remove self
  bump "Minion" "alive" (-1)
  return (.failure, ⟨hp⟩)

end Programs

/-! ## States -/

section States

variable {γ : Type}

/-- A spawner's kept state. -/
def Spawner.save (s : Spawner γ) : Json := .obj [("spawned", .int s.spawned.toNat)]

/-- A spawner with a kept state: its counter takes the last 32 bits. -/
def Spawner.load (state : Json) (s : Spawner γ) : Except AgentError Unit × Spawner γ :=
  match (state.member? "spawned").bind Json.unsigned? with
  | some n => (.ok (), { s with spawned := n.toUInt32 })
  | none => (.error (.state "spawner state lacks 'spawned'"), s)

/-- One line about a spawner. -/
def Spawner.describe (s : Spawner γ) : String := "spawned=" ++ toString s.spawned.toNat

/-- A minion's kept state. -/
def Minion.save (m : Minion) : Json := .obj [("hp", .int m.hp.toInt)]

/-- A minion with a kept state. -/
def Minion.load (state : Json) (m : Minion) : Except AgentError Unit × Minion :=
  match (state.member? "hp").bind Json.signed? with
  | some hp => (.ok (), ⟨hp⟩)
  | none => (.error (.state "minion state lacks 'hp'"), m)

/-- One line about a minion. -/
def Minion.describe (m : Minion) : String := "hp=" ++ toString m.hp.toInt

end States

/-- The agents kept in each pool, oldest first. -/
abbrev Pools := SortedMap String (List AgentRef)

/-- Puts an agent into a pool. -/
def Pools.keep (pools : Pools) (pool : String) (a : AgentRef) : Pools :=
  pools.insert pool ((pools.get? pool).getD [] ++ [a])

end AgentScheduler.Arena
