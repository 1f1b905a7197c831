/-
The arena program as a command that is started in a directory where only some
empty files are: its exit code, what it prints, and the files it leaves.
-/
import AgentScheduler.Arena.Directory
import AgentScheduler.Arena.Run

namespace AgentScheduler.Arena

/-- What can be seen of the command afterwards. -/
structure Launch where
  exitCode : Nat
  stdout : String
  stderr : String
  /-- The tables, each by its file, where there is one. -/
  tables : List (String × Option String)
  saved : Option String

/-- The directory that the arguments name. -/
def directoryOf (args : List String) : String := args.headD defaultDirectory

/-- Each table's file with what is in it. -/
def tableFiles (content : String → Option String) : List (String × Option String) :=
  [Output.Table.ticks, .statics, .states].map fun t => (t.fileName, content t.fileName)

/-- Starts the command with arguments, in a directory with those empty files. -/
def launch (files args : List String) : Launch :=
  let directory := directoryOf args
  let file := fun name => Path.ofText (inDirectory directory name)
  match (Tree.ofFiles files).makeAll (Path.ofText directory) with
  | (some fault, _) =>
    { exitCode := 1
      stdout := ""
      stderr := (Failure.directory directory fault.message).text
      tables := tableFiles fun _ => none
      saved := none }
  | (none, tree) =>
    let outcome := run directory fun name =>
      match tree.openFile (file name) with
      | .error fault => some fault.message
      | .ok _ => none
    let untouched := fun name => if tree.isFile (file name) then some "" else none
    { exitCode := if outcome.failure.isSome then 1 else 0
      stdout := String.join (outcome.lines.toList.map (· ++ "\n"))
      stderr := (outcome.failure.map Failure.text).getD ""
      tables := tableFiles fun name => (outcome.files.lookup name).or (untouched name)
      saved := outcome.saved.or (untouched savedFile) }

end AgentScheduler.Arena
