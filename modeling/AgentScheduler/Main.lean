/-
The arena demonstration as a command. Its argument is the directory to write
to, which is made if it is not there.
-/
import AgentScheduler.Arena.Launch

namespace AgentScheduler.Arena

/-- What the system says about a failure, and its number of it. -/
def systemText : IO.Error → String
  | .noFileOrDirectory _ code text | .alreadyExists _ code text | .permissionDenied _ code text
  | .inappropriateType _ code text | .invalidArgument _ code text
  | .resourceExhausted _ code text => text ++ " (os error " ++ toString code.toNat ++ ")"
  | e => toString e

/-- The path of a directory that is there; its entry for itself always exists. -/
def isDirectory (path : String) : IO Bool := do
  try
    IO.FS.createDir (inDirectory path ".")
    return true
  catch e => match e with
    | .alreadyExists .. => return true
    | _ => return false

/-- Makes one directory, and says why if that fails and it is not there already. -/
def makeOne (p : Path) : IO (Option IO.Error) := do
  try
    IO.FS.createDir p.toText
    return none
  catch e => match e with
    | .alreadyExists .. => return if ← isDirectory p.toText then none else some e
    | _ => return some e

/-- Something on the way is not there. -/
def isMissing : IO.Error → Bool
  | .noFileOrDirectory .. => true
  | _ => false

/-- Empties a file, and says why if that fails. -/
def clearFile (directory name : String) : IO (Option String) := do
  try
    IO.FS.writeFile (inDirectory directory name) ""
    return none
  catch e => return some (systemText e)

/-- Empties the files one after the other, up to one that has a fault. -/
def clearFiles (directory : String) : List String → IO (List (String × String))
  | [] => return []
  | name :: names => do
    match ← clearFile directory name with
    | none => clearFiles directory names
    | some fault => return [(name, fault)]

/-- Writes what the program leaves. -/
def writeOutcome (directory : String) (outcome : Outcome) : IO Unit := do
  for (name, text) in outcome.files do
    IO.FS.writeFile (inDirectory directory name) text
  if let some text := outcome.saved then
    IO.FS.writeFile (inDirectory directory savedFile) text
  for line in outcome.lines do
    IO.println line

end AgentScheduler.Arena

open AgentScheduler

/-- Runs the demonstration and answers the exit code. -/
def main (args : List String) : IO UInt32 := do
  let directory := Arena.directoryOf args
  if let some e ← (Arena.Path.ofText directory).makeAll Arena.makeOne Arena.isMissing then
    IO.eprint (Arena.Failure.directory directory (Arena.systemText e)).text
    return 1
  let names := (Arena.tableFiles fun _ => none).map (·.1)
  let faults ← Arena.clearFiles directory (names ++ [Arena.savedFile])
  let outcome := Arena.run directory fun name => faults.lookup name
  Arena.writeOutcome directory outcome
  match outcome.failure with
  | none => return 0
  | some failure => do
    IO.eprint failure.text
    return 1
