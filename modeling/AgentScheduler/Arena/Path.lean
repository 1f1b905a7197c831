/-
Paths as text: the parts between their slashes, and the order in which the
directories on a path are made.

The system is asked for the whole path first. Only where it misses something
are the directories above made, and then it is asked again.
-/
namespace AgentScheduler.Arena

/-- Why the system refuses a path. -/
inductive PathFault
  | notFound | taken | notADirectory | isADirectory | nameTooLong
  deriving DecidableEq

/-- The system's number of a fault. -/
def PathFault.code : PathFault → Nat
  | notFound => 2
  | taken => 17
  | notADirectory => 20
  | isADirectory => 21
  | nameTooLong => 36

/-- The system's wording of a fault. -/
def PathFault.message (f : PathFault) : String :=
  let text := match f with
    | notFound => "No such file or directory"
    | taken => "File exists"
    | notADirectory => "Not a directory"
    | isADirectory => "Is a directory"
    | nameTooLong => "File name too long"
  text ++ " (os error " ++ toString f.code ++ ")"

/-- The path of a file in a directory. -/
def inDirectory (directory name : String) : String :=
  if directory.isEmpty || directory.endsWith "/" then directory ++ name
  else directory ++ "/" ++ name

/-- What stands between the slashes of a path, the last part first. -/
abbrev Path := List String

namespace Path

/-- The parts of a path's text. -/
def ofText (s : String) : Path := (s.splitOn "/").reverse

/-- The text of a path. -/
def toText (p : Path) : String := "/".intercalate p.reverse

/-- The bytes of the text. -/
def size (p : Path) : Nat := p.toText.utf8ByteSize

/-- A path up to its last name. Empty parts and dots at the end go; a dot that starts the
path counts as a name. -/
def trim : Path → Path
  | [] => []
  | part :: above =>
    if part == "" || (part == "." && !above.isEmpty) then trim above else part :: above

theorem length_trim_le : ∀ p : Path, p.trim.length ≤ p.length
  | [] => Nat.le_refl _
  | part :: above => by
    unfold trim
    split
    · exact Nat.le_succ_of_le (length_trim_le above)
    · exact Nat.le_refl _

/-- Makes a directory, and those above it where the system misses something on the way.
`make` makes one and answers a fault, or none if the directory is there afterwards. -/
def makeAll {m : Type → Type} [Monad m] {ε : Type} (make : Path → m (Option ε))
    (isMissing : ε → Bool) (p : Path) : m (Option ε) :=
  match h : p.trim with
  | [] => pure none
  | _ :: above => do
    have shorter : (trim above).length < p.length := by
      have := length_trim_le p
      have := length_trim_le above
      simp_all
      omega
    match ← make p with
    | none => return none
    | some fault =>
      if isMissing fault then
        match ← makeAll make isMissing (trim above) with
        | none => make p
        | some fault => return some fault
      else return some fault
termination_by p.length

end Path

end AgentScheduler.Arena
