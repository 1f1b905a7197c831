/-
What one tick of a context did, in numbers.
-/
namespace AgentScheduler

/-- How a step of a task ended. Schedulers only count it. -/
inductive Status
  | success | failure | running
  deriving DecidableEq

/-- The numbers of a tick. -/
structure TickReport where
  /-- Completed ticks afterwards. -/
  frame : UInt64 := 0
  /-- Agents whose task ran. -/
  executed : Nat := 0
  success : Nat := 0
  failure : Nat := 0
  running : Nat := 0
  /-- Registrations skipped because the agent is gone. -/
  stale : Nat := 0
  /-- Requested additions that registered an agent after the walk. -/
  added : Nat := 0
  /-- Requested removals that unregistered an agent after the walk. -/
  removed : Nat := 0
  deriving DecidableEq, Inhabited

namespace TickReport

/-- The sum of two reports; the frame is the later one. -/
def add (a b : TickReport) : TickReport where
  frame := if a.frame ≤ b.frame then b.frame else a.frame
  executed := a.executed + b.executed
  success := a.success + b.success
  failure := a.failure + b.failure
  running := a.running + b.running
  stale := a.stale + b.stale
  added := a.added + b.added
  removed := a.removed + b.removed

instance : Add TickReport := ⟨add⟩

/-- The report with one more task that ran. -/
def count (r : TickReport) : Status → TickReport
  | .success => { r with executed := r.executed + 1, success := r.success + 1 }
  | .failure => { r with executed := r.executed + 1, failure := r.failure + 1 }
  | .running => { r with executed := r.executed + 1, running := r.running + 1 }

end TickReport

end AgentScheduler
