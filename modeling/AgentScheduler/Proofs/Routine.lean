/-
Sample tasks: a routine puts the same requests at each step, whatever the
answers are, and succeeds; a chore asks its own context only, in an application
that keeps records, and so does a duty in any application.
-/
import AgentScheduler.Tick

namespace AgentScheduler

/-- One thing a routine does. -/
inductive Errand
  /-- An operation on the context that executes the task. -/
  | here (op : TaskOp)
  /-- An operation on another context. -/
  | there (c : ContextRef) (op : ContextOp Unit)
  /-- Gives up an agent. -/
  | disown (a : AgentRef)

/-- A task that does the same things at each step. -/
structure Routine where
  errands : List Errand

/-- The request of an errand. -/
def Errand.request : Errand → Request Routine Unit
  | here op => .here (.task op)
  | there c op => .there c op
  | disown a => .disown a

namespace Routine

/-- One errand after the other, then `b`. -/
def program {β : Type} (b : β) : List Errand → Prog Routine Unit β
  | [] => .done b
  | e :: l => .call e.request fun _ => program b l

instance : Behavior Routine Unit where
  exec _ r := program (.success, r) r.errands
  save _ := .null
  load _ r := (.ok (), r)
  describe _ := ""

end Routine

/-- A task that asks the same of its context at each step. -/
structure Chore where
  ops : List TaskOp

namespace Chore

/-- One operation after the other, then `b`. -/
def program {β : Type} (b : β) : List TaskOp → Prog Chore (List Record) β
  | [] => .done b
  | op :: ops => .call (.here (.task op)) fun _ => program b ops

instance : Behavior Chore (List Record) where
  exec _ t := program (.success, t) t.ops
  save _ := .null
  load _ t := (.ok (), t)
  describe _ := ""

end Chore

/-- A task that asks the same of its context at each step, in any application. -/
structure Duty (α : Type) where
  ops : List TaskOp

namespace Duty

variable {α : Type}

/-- One operation after the other, then `b`. -/
def program {β : Type} (b : β) : List TaskOp → Prog (Duty α) α β
  | [] => .done b
  | op :: ops => .call (.here (.task op)) fun _ => program b ops

instance : Behavior (Duty α) α where
  exec _ t := program (.success, t) t.ops
  save _ := .null
  load _ t := (.ok (), t)
  describe _ := ""

end Duty

end AgentScheduler
