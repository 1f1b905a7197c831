/-
Classes of agents: each has at most one parent and declares static variables.
An instance name belongs to one class and is valid for it and all its
descendants.

A hierarchy comes from `build`, which refuses parents that are not declared and
chains of parents that do not end, so `lineage` follows every chain to its end.
-/
import AgentScheduler.Error
import AgentScheduler.Variables

namespace AgentScheduler

/-- A class: its parent and its static variables with their initial values. -/
structure ClassInfo where
  parent : Option String
  statics : Variables := .empty
  deriving DecidableEq

/-- The classes and the instance names with the class each belongs to. -/
structure Hierarchy where
  classes : SortedMap String ClassInfo := .empty
  instanceNames : SortedMap String String := .empty
  deriving DecidableEq

namespace Hierarchy

/-- The class is declared. -/
def contains (h : Hierarchy) (cls : String) : Bool := h.classes.contains cls

/-- The class that `cls` extends. -/
def parent? (h : Hierarchy) (cls : String) : Option String :=
  (h.classes.get? cls).bind (·.parent)

/-- The first `n` classes of the chain of parents that starts at `cls`. -/
def chain (h : Hierarchy) : Nat → String → List String
  | 0, _ => []
  | n + 1, cls =>
    cls :: match h.parent? cls with
      | none => []
      | some parent => chain h n parent

/-- A declared class and its ancestors, nearest first; nothing for another name. A chain
without repetition has no more classes than there are. -/
def lineage (h : Hierarchy) (cls : String) : List String :=
  if h.contains cls then h.chain h.classes.size cls else []

/-- `cls` is `ancestor` or descends from it. -/
def isA (h : Hierarchy) (cls ancestor : String) : Bool := (h.lineage cls).contains ancestor

/-- The class that an instance name belongs to. -/
def instanceClass? (h : Hierarchy) (name : String) : Option String := h.instanceNames.get? name

/-- The name belongs to `cls` or an ancestor of it. -/
def isValidInstanceName (h : Hierarchy) (name cls : String) : Bool :=
  (h.instanceClass? name).any (h.isA cls)

/-- The static variables that exactly this class declares. -/
def staticDefaults? (h : Hierarchy) (cls : String) : Option Variables :=
  (h.classes.get? cls).map (·.statics)

/-- The static variables of every class that declares any. -/
def allStaticDefaults (h : Hierarchy) : SortedMap String Variables :=
  (h.classes.filter fun _ info => !info.statics.isEmpty).mapValues fun _ info => info.statics

/-! ## Declarations -/

end Hierarchy

/-- One declaration of a hierarchy. -/
inductive Declaration
  | cls (name : String) (parent : Option String)
  | instanceName (cls name : String)
  | static (cls name : String) (value : Value)
  deriving DecidableEq

namespace Hierarchy

/-- Declares a class. Declaring it again must name the same parent. -/
def declareClass (h : Hierarchy) (name : String) (parent : Option String) :
    Except AgentError Hierarchy :=
  match h.classes.get? name with
  | some info =>
    if info.parent = parent then pure h else throw (.registration (.twoParents name))
  | none => pure { h with classes := h.classes.insert name { parent } }

/-- The chain of parents from `cls` ends within `n` steps and does not come to `start`. -/
def endsWithin (h : Hierarchy) (start : String) : Nat → String → Bool
  | n, cls =>
    match h.parent? cls, n with
    | none, _ => true
    | some _, 0 => false
    | some parent, n + 1 => parent != start && endsWithin h start n parent

/-- What is wrong with the parent of a class, if anything. -/
def parentFault? (h : Hierarchy) (cls : String) : Option DeclarationFault :=
  match h.parent? cls with
  | none => none
  | some parent =>
    if !h.contains parent then some (.undeclaredParent cls parent)
    else if !h.endsWithin cls h.classes.size cls then some (.cyclic cls)
    else none

/-- Gives an instance name to a class. -/
def declareInstanceName (h : Hierarchy) (cls name : String) : Except AgentError Hierarchy :=
  if !h.contains cls then throw (.unknownClass cls)
  else match h.instanceNames.get? name with
    | some owner =>
      if owner = cls then pure h else throw (.registration (.nameTaken name owner))
    | none => pure { h with instanceNames := h.instanceNames.insert name cls }

/-- Declares a static variable; the last declaration of a variable counts. -/
def declareStatic (h : Hierarchy) (cls name : String) (value : Value) :
    Except AgentError Hierarchy :=
  match h.classes.get? cls with
  | none => throw (.unknownClass cls)
  | some info =>
    pure { h with
      classes := h.classes.insert cls { info with statics := info.statics.insert name value } }

/-- The declared classes with their parents. -/
def classDecls (ds : List Declaration) : List (String × Option String) :=
  ds.filterMap fun
    | .cls name parent => some (name, parent)
    | _ => none

/-- The classes with the instance names that they are given. -/
def nameDecls (ds : List Declaration) : List (String × String) :=
  ds.filterMap fun
    | .instanceName cls name => some (cls, name)
    | _ => none

/-- The static variables with their class and value. -/
def staticDecls (ds : List Declaration) : List (String × String × Value) :=
  ds.filterMap fun
    | .static cls name value => some (cls, name, value)
    | _ => none

/-- Takes up the classes, then checks the parent of every class. The classes are gone through
in the order that `order` brings their names into. -/
def declareClasses (order : List String → List String) (l : List (String × Option String)) :
    Except AgentError Hierarchy := do
  let h ← l.foldlM (fun h d => h.declareClass d.1 d.2) {}
  match (order h.classes.keys).findSome? h.parentFault? with
  | some fault => throw (.registration fault)
  | none => pure h

/-- Takes up the instance names. -/
def declareNames (l : List (String × String)) (h : Hierarchy) : Except AgentError Hierarchy :=
  l.foldlM (fun h d => h.declareInstanceName d.1 d.2) h

/-- Takes up the static variables. -/
def declareStatics (l : List (String × String × Value)) (h : Hierarchy) :
    Except AgentError Hierarchy :=
  l.foldlM (fun h d => h.declareStatic d.1 d.2.1 d.2.2) h

/-- The hierarchy of declarations in any order: first the classes are taken up, then the
instance names, then the static variables. -/
def buildIn (order : List String → List String) (ds : List Declaration) :
    Except AgentError Hierarchy := do
  let h ← declareClasses order (classDecls ds)
  let h ← declareNames (nameDecls ds) h
  declareStatics (staticDecls ds) h

/-- The hierarchy of declarations, the parents checked in ascending order of the classes. -/
def build (ds : List Declaration) : Except AgentError Hierarchy := buildIn id ds

end Hierarchy

end AgentScheduler
