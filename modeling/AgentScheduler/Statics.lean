/-
Static variables of classes: their live values, and the baseline of each class,
which is what was last logged of it.

A log of a class sends the changes from its baseline to its live values. The
baseline moves only once the changes were accepted, so a refused change is sent
again.
-/
import AgentScheduler.Hierarchy
import AgentScheduler.Record

namespace AgentScheduler

/-- Live static variables and baselines, by class. -/
structure Statics where
  live : SortedMap String Variables := .empty
  baselines : SortedMap String Variables := .empty
  deriving DecidableEq

namespace Statics

/-- The declared values are live and nothing was logged. -/
def seeded (h : Hierarchy) : Statics := { live := h.allStaticDefaults }

/-- The live value of a variable. -/
def get? (s : Statics) (cls name : String) : Option Value :=
  (s.live.get? cls).bind (·.get? name)

/-- Sets the live value of a variable of a declared class. Infinities and NaNs are
refused, so every snapshot has a JSON form. -/
def set (s : Statics) (h : Hierarchy) (cls name : String) (v : Value) :
    Except AgentError Statics :=
  if !h.contains cls then throw (.unknownClass cls)
  else if !v.isFinite then throw (.nonFiniteValue cls name)
  else pure { s with live := s.live.insert cls (((s.live.get? cls).getD .empty).insert name v) }

/-- The changes that a log of the class would send. -/
def pendingChanges (s : Statics) (cls : String) : List VarChange :=
  Variables.diff ((s.baselines.get? cls).getD .empty) ((s.live.get? cls).getD .empty)

/-- The live values of the class are its baseline. -/
def commit (s : Statics) (cls : String) : Statics :=
  { s with
    baselines := match s.live.get? cls with
      | some vars => s.baselines.insert cls vars
      | none => s.baselines.erase cls }

/-- The classes with live values or a baseline, in ascending order. -/
def classes (s : Statics) : List String :=
  (s.baselines.toList.foldl (fun m e => m.insert e.1 ()) (s.live.mapValues fun _ _ => ())).keys

/-- Logs one class after the other up to the first refusal: how many changes were sent. -/
def logClasses {α : Type} (context : ContextId) (frame : UInt64) (sink : Sink α) :
    List String → Nat → Statics → Host α → Except LogError Nat × Statics × Host α
  | [], sent, s, h => (.ok sent, s, h)
  | cls :: rest, sent, s, h =>
    match s.pendingChanges cls with
    | [] => logClasses context frame sink rest sent s h
    | change :: changes =>
      match sink (.statics context frame cls (change :: changes)) h with
      | (.error e, h) => (.error e, s, h)
      | (.ok (), h) =>
        logClasses context frame sink rest (sent + (changes.length + 1)) (s.commit cls) h

/-- Logs one class, or all of them in ascending order. -/
def log {α : Type} (s : Statics) (context : ContextId) (frame : UInt64) (cls : Option String)
    (sink : Sink α) (h : Host α) : Except LogError Nat × Statics × Host α :=
  logClasses context frame sink (match cls with | some c => [c] | none => s.classes) 0 s h

/-- Nothing counts as logged any more. -/
def clearBaselines (s : Statics) : Statics := { s with baselines := .empty }

end Statics

end AgentScheduler
