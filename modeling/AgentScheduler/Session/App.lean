/-
The state of the application that a session plays: the agents it owns, by key
and in pools, the contexts it holds in slots, snapshots, receivers, writers,
and the trace of its scripted tasks.
-/
import AgentScheduler.Session.Answer

namespace AgentScheduler.Session

/-- The application's state. -/
structure App where
  /-- The agents owned under keys. -/
  agents : SortedMap String AgentRef := .empty
  /-- The agents owned in pools. -/
  pools : Arena.Pools := .empty
  /-- The contexts that are in no workspace. -/
  slots : SortedMap String ContextRef := .empty
  snapshots : SortedMap String Snapshot := .empty
  memories : Array Memory := #[]
  writers : Array Writer := #[]
  sinks : SortedMap String SinkHandle := .empty
  writerNames : SortedMap String Nat := .empty
  /-- The writer that somebody else uses for now. -/
  held : Option Nat := none
  trace : Array Trace := #[]

namespace App

/-- The agent at a place of a pool, written as the pool's name and the place behind a
slash. -/
def pooled? (app : App) (name : AgentName) : Option AgentRef :=
  match name.splitOn "/" with
  | [pool, place] => do (← app.pools.get? pool)[(← place.toNat?)]?
  | _ => none

/-- The agent of a name, outside of tasks. -/
def agent? (app : App) (name : AgentName) : Option AgentRef :=
  (app.agents.get? name).or (app.pooled? name)

/-- The agent of a name, within a task: a dollar sign names the running agent. -/
def agentFor? (app : App) (self : AgentRef) (name : AgentName) : Option AgentRef :=
  if name = "$" then some self else app.agent? name

/-- Adds to the trace. -/
def record (app : App) (t : Trace) : App := { app with trace := app.trace.push t }

/-! ## Writers and receivers -/

/-- The writer of a number, unless it is in use. -/
def channel (n : Nat) : Output.Channel App := fun call app =>
  if app.held = some n then (.error .busy, app)
  else
    match app.writers[n]? with
    | none => (.error .busy, app)
    | some w =>
      let (result, w) := w.serve call
      (result, { app with writers := app.writers.setIfInBounds n w })

/-- The memory of a number, as a receiver. -/
def memorySink (n : Nat) : Sink App := fun record h =>
  match h.app.memories[n]? with
  | none => (.ok (), h)
  | some m =>
    let (result, m) := m.log record
    (result, { h with app := { h.app with memories := h.app.memories.setIfInBounds n m } })

/-- The receiver that a handle stands for. -/
def sink : SinkHandle → Sink App
  | .memory n => memorySink n
  | .reporting => Sink.reporting
  | .output writer => Output.sink (channel writer)

/-- What an observer does with a notice. -/
def observer : Observer ObserverState App
  | n, .recorder notices, h => (.recorder (notices ++ [n]), h)
  | n, .output writer first, h =>
    let (first, h) := Output.observer (channel writer) n first h
    (.output writer first, h)

end App

end AgentScheduler.Session
