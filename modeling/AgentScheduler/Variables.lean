/-
Named values in ascending order of their names, and the changes that lead from
one such set to another.

`get?_applyChanges` is the meaning of a list of changes: each sets its name to
the new value, or removes it. `diff` walks both name orders once.
-/
import AgentScheduler.SortedMap
import AgentScheduler.Value

namespace AgentScheduler

/-- Named values. -/
abbrev Variables := SortedMap String Value

/-- One variable that differs: its old and its new value, `none` where it is absent. -/
structure VarChange where
  name : String
  old : Option Value
  new : Option Value
  deriving DecidableEq

/-- The displayed text of a change. -/
def VarChange.display (c : VarChange) : String :=
  match c.old, c.new with
  | some old, some new => c.name ++ ": " ++ old.display ++ " -> " ++ new.display
  | none, some new => c.name ++ ": " ++ new.display
  | some old, none => c.name ++ ": " ++ old.display ++ " -> (removed)"
  | none, none => c.name

namespace Variables

/-- The changes between two ascending lists of named values. -/
def changes : List (String × Value) → List (String × Value) → List VarChange
  | [], live => live.map fun (name, new) => ⟨name, none, some new⟩
  | base, [] => base.map fun (name, old) => ⟨name, some old, none⟩
  | (m, old) :: base, (n, new) :: live =>
    match compare m n with
    | .lt => ⟨m, some old, none⟩ :: changes base ((n, new) :: live)
    | .gt => ⟨n, none, some new⟩ :: changes ((m, old) :: base) live
    | .eq =>
      if old = new then changes base live else ⟨m, some old, some new⟩ :: changes base live
  termination_by base live => base.length + live.length

/-- What changed from `base` to `live`, in ascending order of names. -/
def diff (base live : Variables) : List VarChange := changes base.toList live.toList

/-- The variables after a change. -/
def applyChange (vars : Variables) (c : VarChange) : Variables :=
  match c.new with
  | some v => vars.insert c.name v
  | none => vars.erase c.name

/-- The variables after a list of changes, one after the other. -/
def applyChanges (vars : Variables) (cs : List VarChange) : Variables := cs.foldl applyChange vars

/-- The JSON object of named values. -/
def toJson (vars : Variables) : Json := .obj (vars.toList.map fun (name, v) => (name, v.toJson))

/-- The named values that a JSON object stands for. -/
def ofSource? (s : Json.Source) : Option Variables := s.map? Value.ofSource?

end Variables

end AgentScheduler
