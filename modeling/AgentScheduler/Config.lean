/-
The configuration that all contexts of a workspace share.
-/
import AgentScheduler.Id
import AgentScheduler.Json.Decode
import AgentScheduler.Json.Printer

namespace AgentScheduler

/-- Failures below the level of contexts. -/
inductive BaseError
  | agentNotFound (id : AgentId)
  | contextNotFound (id : ContextId)
  | config (reason : String)
  | parse (reason : String)
  | io (reason : String)
  deriving DecidableEq

/-- The wording of a failure. -/
def BaseError.message : BaseError → String
  | agentNotFound id => "agent " ++ id.display ++ " not found"
  | contextNotFound id => "context " ++ id.display ++ " not found"
  | config reason => "configuration error: " ++ reason
  | parse reason => "parse error: " ++ reason
  | io reason => "I/O error: " ++ reason

/-- The milliseconds of a tick, how often states are logged, and whether changed static
variables are logged after every tick. -/
structure Config where
  tickMillis : UInt32 := 16
  /-- Frames between two logs of all states; 0 for no such logs. -/
  stateLogInterval : UInt64 := 0
  logStaticsOnTick : Bool := false
  deriving DecidableEq, Inhabited

namespace Config

/-- A tick lasts an hour at most. -/
def validate (c : Config) : Except BaseError Unit :=
  if 3600000 < c.tickMillis.toNat then
    throw (.config ("tick_duration_millis " ++ toString c.tickMillis.toNat ++ " exceeds one hour"))
  else pure ()

/-- The states are due to be logged after `frame` completed ticks. -/
def stateLogDue (c : Config) (frame : UInt64) : Bool :=
  0 < c.stateLogInterval && frame % c.stateLogInterval == 0

/-- The JSON object of a configuration. -/
def toJson (c : Config) : Json :=
  .obj [("tick_duration_millis", .int c.tickMillis.toNat),
    ("state_log_interval_ticks", .int c.stateLogInterval.toNat),
    ("log_static_variables_on_tick", .bool c.logStaticsOnTick)]

/-- A field, or its default where it is missing. -/
def fieldOr {α : Type} (default : α) (read : Json.Source → Option α) :
    Option Json.Source → Option α
  | none => some default
  | some s => read s

/-- The configuration that a record stands for; missing fields have their defaults. -/
def ofSource? (s : Json.Source) : Option Config := do
  let d : Config := {}
  match ← s.fields?
      ["tick_duration_millis", "state_log_interval_ticks", "log_static_variables_on_tick"] with
  | [tick, interval, log] =>
    some ⟨← fieldOr d.tickMillis (·.uint32?) tick, ← fieldOr d.stateLogInterval (·.uint64?) interval,
      ← fieldOr d.logStaticsOnTick (·.bool?) log⟩
  | _ => none

/-- The valid configuration that a JSON text stands for. -/
def ofText (text : String) : Except BaseError Config :=
  match (Json.Source.ofText? text).bind ofSource? with
  | none => throw (.parse "malformed configuration")
  | some c => do
    c.validate
    return c

end Config

end AgentScheduler
