/-
The receivers, writers and observers that a session can set up: a memory that
keeps records, a recorder that keeps calls, and both output writers behind
their adapters. Memory and recorder can be told to refuse some of their calls.
-/
import AgentScheduler.Output.Adapter
import AgentScheduler.Output.Csv
import AgentScheduler.Output.Database

namespace AgentScheduler.Session

/-! ## Memories -/

/-- Keeps the records it accepts. -/
structure Memory where
  /-- The calls to refuse, counted from 0. -/
  fails : List Nat
  /-- Refuses as a broken device does. -/
  broken : Bool
  calls : Nat := 0
  records : List Record := []

/-- Takes one record or refuses it. -/
def Memory.log (m : Memory) (r : Record) : Except LogError Unit × Memory :=
  let next := { m with calls := m.calls + 1 }
  if m.fails.contains m.calls then
    (.error (if m.broken then .io ("broken " ++ toString m.calls)
      else .sink ("disk full " ++ toString m.calls)), next)
  else (.ok (), { next with records := m.records ++ [r] })

/-! ## Writers -/

/-- Keeps the calls it accepts. -/
structure Recorder where
  /-- The calls to refuse, counted from 0. -/
  fails : List Nat
  calls : Nat := 0
  accepted : List Output.Call := []
  finished : Nat := 0

/-- Serves a call. -/
def Recorder.serve (call : Output.Call) (r : Recorder) : Except OutputError Unit × Recorder :=
  match call with
  | .finish => (.ok (), { r with finished := r.finished + 1 })
  | _ =>
    let next := { r with calls := r.calls + 1 }
    if r.fails.contains r.calls then (.error (.io ("broken " ++ toString r.calls)), next)
    else (.ok (), { next with accepted := r.accepted ++ [call] })

/-- A writer of any kind. -/
inductive Writer
  | csv (w : Output.CsvWriter)
  | database (d : Output.Database)
  | recorder (r : Recorder)

/-- Serves a call. -/
def Writer.serve (call : Output.Call) : Writer → Except OutputError Unit × Writer
  | csv w => (w.serve (fun _ => none) call).map id csv
  | database d => (d.serve call).map id database
  | recorder r => (r.serve call).map id recorder

/-! ## Handles -/

/-- A receiver of records, by what it is. -/
inductive SinkHandle
  /-- The memory of a number. -/
  | memory (n : Nat)
  /-- Reports every record. -/
  | reporting
  /-- Writes to the writer of a number. -/
  | output (writer : Nat)
  deriving DecidableEq

/-- An observer of ticks. -/
inductive ObserverState
  /-- Keeps what it is told. -/
  | recorder (notices : List Notice)
  /-- Writes to the writer of a number. -/
  | output (writer : Nat) (first : Output.FirstError)

end AgentScheduler.Session
