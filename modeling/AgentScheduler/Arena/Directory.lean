/-
A working directory with files and directories below it, and what the system
answers when a directory or a file is to be made there.

The directories are numbered. The working directory is in one that holds
nothing else and is its own parent; paths that start with a slash start there.
-/
import AgentScheduler.Arena.Path

namespace AgentScheduler.Arena

/-- What a name in a directory stands for. -/
inductive Entry
  | file
  | directory (number : Nat)
  deriving DecidableEq

/-- A directory: the number of the one above it, and its entries. -/
structure Directory where
  parent : Nat
  entries : List (String × Entry) := []

/-- Files and directories. -/
structure Tree where
  directories : Array Directory

/-- The number of the directory above all others. -/
def top : Nat := 0

/-- The number of the working directory. -/
def working : Nat := 1

/-- The most bytes of a path. -/
def pathLimit : Nat := 4095

/-- The most bytes of a name. -/
def nameLimit : Nat := 255

namespace Tree

/-- An empty working directory. -/
def empty : Tree := ⟨#[{ parent := top }, { parent := top }]⟩

/-- What a name stands for in a directory. -/
def entry? (t : Tree) (d : Nat) (name : String) : Option Entry :=
  t.directories[d]?.bind fun directory => directory.entries.lookup name

/-- Puts an entry under a new name into a directory. -/
def addEntry (t : Tree) (d : Nat) (name : String) (e : Entry) : Tree where
  directories := t.directories.modify d fun directory =>
    { directory with entries := (name, e) :: directory.entries }

/-- Follows the parts of a path from a directory on. -/
def follow (t : Tree) (d : Nat) : List String → Except PathFault Nat
  | [] => .ok d
  | name :: rest =>
    if name == "" || name == "." then t.follow d rest
    else if name == ".." then t.follow ((t.directories[d]?.map (·.parent)).getD top) rest
    else if nameLimit < name.utf8ByteSize then .error .nameTooLong
    else match t.entry? d name with
      | some (.directory next) => t.follow next rest
      | some .file => .error .notADirectory
      | none => .error .notFound

/-- The directory at a path. -/
def directory (t : Tree) (p : Path) : Except PathFault Nat :=
  if pathLimit < p.size then .error .nameTooLong
  else match p.reverse with
    | "" :: rest => t.follow top rest
    | parts => t.follow working parts

/-- The directory in which a path ends and the name there, with its entry; `special` is the
answer where the path ends with no name of its own. -/
def locate (t : Tree) (special : PathFault) (p : Path) :
    Except PathFault (Nat × String × Option Entry) := do
  if pathLimit < p.size then throw .nameTooLong
  match p with
  | [] => throw .notFound
  | name :: above =>
    let d ← t.directory above
    if name == "" || name == "." || name == ".." then throw special
    if nameLimit < name.utf8ByteSize then throw .nameTooLong
    return (d, name, t.entry? d name)

/-- Makes one directory. Slashes at the end of its path do not count. -/
def make (t : Tree) (p : Path) : Except PathFault Tree := do
  if pathLimit < p.size then throw .nameTooLong
  let (d, name, entry) ← t.locate .taken (p.dropWhile (· == ""))
  if entry.isSome then throw .taken
  let t := t.addEntry d name (.directory t.directories.size)
  return { t with directories := t.directories.push { parent := d } }

/-- Makes one directory unless it is there already. -/
def ensure (p : Path) : StateM Tree (Option PathFault) := do
  let t ← get
  match t.make p with
  | .ok t => set t; return none
  | .error fault =>
    return if fault = .taken && (t.directory p).isOk then none else some fault

/-- Makes a directory and those above it. -/
def makeAll (t : Tree) (p : Path) : Option PathFault × Tree :=
  (Path.makeAll ensure (· = .notFound) p).run t

/-- Opens a file to write to it from its start; a missing one is made. -/
def openFile (t : Tree) (p : Path) : Except PathFault Tree := do
  match ← t.locate .isADirectory p with
  | (_, _, some (.directory _)) => throw .isADirectory
  | (_, _, some .file) => return t
  | (d, name, none) => return t.addEntry d name .file

/-- The path names a file. -/
def isFile (t : Tree) (p : Path) : Bool :=
  match t.locate .isADirectory p with
  | .ok (_, _, entry) => entry = some .file
  | .error _ => false

/-- A working directory with some empty files, and the directories they are in. -/
def ofFiles (names : List String) : Tree :=
  names.foldl (fun t name =>
    let p := Path.ofText name
    let t := (t.makeAll p.tail).2
    (t.openFile p).toOption.getD t) empty

end Tree

end AgentScheduler.Arena
