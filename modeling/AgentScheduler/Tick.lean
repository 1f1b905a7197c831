/-
A tick of a context: a walk over its agents that runs each task once, then the
requests of the walk, then the removal of agents that are gone, and one step of
the clock.

While the walk is under way, additions and removals only wait in the registry;
afterwards they are applied, additions first, each in the order requested. What
the walk visits is fixed when it starts.

Tasks may run other tasks and tick other contexts. `Nested` says how such
requests are served one level further in; a request `nestingLimit` levels deep
is refused, as one for a task or a context that is busy is.
-/
import AgentScheduler.Persistence

namespace AgentScheduler

/-- How requests that run tasks are served. -/
structure Nested (τ α : Type) where
  exec : ContextRef → AgentRef → World τ α → Option Status × World τ α
  tick : ContextRef → World τ α → TickReport × World τ α

/-- What a walk did at one registration. -/
inductive Visit
  /-- The agent was gone. -/
  | stale
  /-- The agent's task was running already. -/
  | busy
  /-- The agent's task ran. -/
  | ran (status : Status)
  deriving DecidableEq

/-- The report with one more visit. -/
def TickReport.visit (r : TickReport) : Visit → TickReport
  | .stale => { r with stale := r.stale + 1 }
  | .busy => r
  | .ran status => r.count status

namespace World

variable {τ α : Type} [Behavior τ α]

/-! ## Requests -/

/-- The answer to an operation that every task may ask of a context. -/
def answerTaskOp (c : ContextRef) : (op : TaskOp) → World τ α → op.Answer × World τ α
  | .contextId, w => (((w.context? c).map (·.id)).getD .invalid, w)
  | .clock, w => (((w.context? c).map (·.clock)).getD {}, w)
  | .isExecuting, w => ((w.context? c).any (·.executing), w)
  | .add a, w => ((), w.addAgent c a)
  | .remove a, w => ((), w.removeAgent c a)
  | .bind name a, w => w.bind c name a
  | .unbind name, w => w.unbind c name
  | .lookup name, w => (w.lookup c name, w)
  | .getStatic cls name, w => (w.getStatic c cls name, w)
  | .setStatic cls name v, w => w.setStatic c cls name v

/-- The answer to an operation on a context. -/
def answerContextOp (nested : Nested τ α) (c : ContextRef) :
    (op : ContextOp α) → World τ α → op.Answer × World τ α
  | .task op, w => w.answerTaskOp c op
  | .counts, w =>
    (((w.context? c).map fun ctx => w.counts ctx.registry).getD ⟨0, 0, 0, 0⟩, w)
  | .tick, w => nested.tick c w
  | .save, w => w.save c
  | .load s, w => w.load c s
  | .release, w => ((), w.release c)
  | .logStatics cls sink, w => w.logStatics c cls sink
  | .logState sink, w => w.logState c sink
  | .clearBindings, w => ((), w.clearBindings c)
  | .clearBaselines, w => ((), w.clearBaselines c)
  | .setClock f, w => ((), w.modifyContext c fun ctx => { ctx with clock := f ctx.clock })

/-- The answer to a request of a task that runs in the context `c`. -/
def answer (nested : Nested τ α) (c : ContextRef) :
    (r : Request τ α) → World τ α → r.Answer × World τ α
  | .here op, w => w.answerContextOp nested c op
  | .there other op, w =>
    match w.context? other with
    | none => (none, w)
    | some ctx =>
      if ctx.inUse then (none, w)
      else
        let (result, w) := w.answerContextOp nested other op
        (some result, w)
  | .dropContext other, w =>
    match w.context? other with
    | none => (false, w)
    | some ctx => if ctx.inUse then (false, w) else (true, w.dropContext other)
  | .create a, w => w.create a
  | .disown a, w => ((), w.disown a)
  | .view a, w => ((w.live? a).map (·.view), w)
  | .exec a, w => nested.exec c a w
  | .saveTask a, w => (w.saveTask a, w)
  | .loadTask a state, w => w.loadTask a state
  | .describeTask a, w => (w.describeTask a, w)
  | .app, w => (w.host.app, w)
  | .setApp f, w => ((), { w with host := { w.host with app := f w.host.app } })
  | .report e, w => ((), w.report e)

end World

/-- Runs a program in the context `c`. -/
def Prog.run {τ α β : Type} [Behavior τ α] (nested : Nested τ α) (c : ContextRef) :
    Prog τ α β → World τ α → β × World τ α
  | .done b, w => (b, w)
  | .call r k, w =>
    let (answer, w) := w.answer nested c r
    (k answer).run nested c w

namespace World

variable {τ α : Type} [Behavior τ α]

/-! ## Running tasks -/

/-- The task of an agent begins. -/
def startTask (a : AgentRef) (w : World τ α) : World τ α :=
  w.modifyAgent a fun agent => { agent with running := true }

/-- The task of an agent ends. -/
def endTask (a : AgentRef) (task : τ) (w : World τ α) : World τ α :=
  w.modifyAgent a fun agent => { agent with running := false, task }

/-- Runs a live agent's task once in a context; nothing happens while it runs already. The
agent lives until its task is through. -/
def runTask (nested : Nested τ α) (c : ContextRef) (a : AgentRef) (w : World τ α) :
    Option Status × World τ α :=
  match w.live? a with
  | none => (none, w)
  | some agent =>
    if agent.running then (none, w)
    else
      let ((status, task), w) := (Behavior.exec a agent.task).run nested c (w.startTask a)
      (some status, w.endTask a task)

/-! ## The tick -/

/-- One stop of a walk. -/
def visit (nested : Nested τ α) (c : ContextRef) (a : AgentRef) (w : World τ α) :
    Visit × World τ α :=
  if !w.alive a then (.stale, w)
  else
    match w.runTask nested c a with
    | (some status, w) => (.ran status, w)
    | (none, w) =>
      let context := ((w.context? c).map (·.id)).getD .invalid
      let id := ((w.agent? a).map (·.place.id)).getD .invalid
      (.busy, w.report (.taskBusy context id))

/-- Visits agents one after the other. -/
def walk (nested : Nested τ α) (c : ContextRef) :
    List AgentRef → World τ α → List Visit × World τ α
  | [], w => ([], w)
  | a :: as, w =>
    let (v, w) := w.visit nested c a
    let (vs, w) := walk nested c as w
    (v :: vs, w)

/-- Applies one requested addition: whether it registered an agent. The names of an agent
that is refused go. -/
def drainAddition (c : ContextRef) (a : AgentRef) (w : World τ α) : Bool × World τ α :=
  match w.context? c, w.live? a with
  | some ctx, some agent =>
    let w := w.insertNow c a
    match ctx.entry agent.place with
    | .fresh _ => (true, w)
    | .alreadyHere => (false, w)
    | _ =>
      let names := (ctx.registry.namesOf a).length
      let w := w.modifyRegistry c (·.unbindAgent a)
      (false, if names = 0 then w
        else w.report (.refusedBindingsDropped ctx.id agent.name names))
  | _, _ => (false, w)

/-- Applies one requested removal: whether it unregistered an agent. -/
def drainRemoval (c : ContextRef) (a : AgentRef) (w : World τ α) : Bool × World τ α :=
  match w.context? c, w.live? a with
  | some ctx, some agent => (ctx.holds agent.place, w.removeNow c a)
  | _, _ => (false, w)

/-- Applies requests one after the other: how many had an effect. -/
def drain (apply : AgentRef → World τ α → Bool × World τ α) :
    List AgentRef → World τ α → Nat × World τ α
  | [], w => (0, w)
  | a :: as, w =>
    let (effect, w) := apply a w
    let (n, w) := drain apply as w
    (if effect then n + 1 else n, w)

/-- Takes the requests of a tick out of the registry and applies them, additions first:
how many agents were registered and unregistered. -/
def drainRequests (c : ContextRef) (w : World τ α) : (Nat × Nat) × World τ α :=
  match w.context? c with
  | none => ((0, 0), w)
  | some ctx =>
    let w := w.modifyRegistry c fun r => { r with pendingAdd := [], pendingRemove := [] }
    let (added, w) := w.drain (drainAddition c) ctx.registry.pendingAdd
    let (removed, w) := w.drain (drainRemoval c) ctx.registry.pendingRemove
    ((added, removed), w)

/-- A walk over the agents of a context begins. -/
def startWalk (c : ContextRef) (w : World τ α) : World τ α :=
  w.modifyContext c fun ctx => { ctx with executing := true, inUse := true }

/-- What comes after a walk: the requests, the agents that are gone, and the clock. -/
def finishWalk (c : ContextRef) (inUse : Bool) (w : World τ α) : (Nat × Nat) × World τ α :=
  let w := w.modifyContext c fun ctx => { ctx with executing := false, inUse }
  let (counts, w) := w.drainRequests c
  (counts, (w.prune c).modifyContext c fun ctx => { ctx with clock := ctx.clock.advance })

/-- The report of a tick of a context, from what its walk did and how many agents were
registered and unregistered after it. -/
def tickReport (visits : List Visit) (counts : Nat × Nat) (c : ContextRef) (w : World τ α) :
    TickReport :=
  { visits.foldl TickReport.visit {} with
    frame := ((w.context? c).map (·.clock.frames)).getD 0
    added := counts.1
    removed := counts.2 }

/-- One tick of a context. A context that is being ticked refuses: its report shows the
frame and nothing else. -/
def tickWith (nested : Nested τ α) (c : ContextRef) (w : World τ α) : TickReport × World τ α :=
  match w.context? c with
  | none => ({}, w)
  | some ctx =>
    if ctx.executing then ({ frame := ctx.clock.frames }, w.report (.alreadyTicking ctx.id))
    else
      let (visits, w) := (w.startWalk c).walk nested c ctx.registry.walkOrder
      let (counts, w) := w.finishWalk c ctx.inUse
      let report := tickReport visits counts c w
      (report, w.report
        (.tickComplete ctx.id report.frame report.executed report.added report.removed))

/-- Requests that run tasks, `n` levels further in at most. -/
def nested : Nat → Nested τ α
  | 0 =>
    { exec := fun _ _ w => (none, w)
      tick := fun c w => ({ frame := ((w.context? c).map (·.clock.frames)).getD 0 }, w) }
  | n + 1 =>
    { exec := fun c a w => w.runTask (nested n) c a
      tick := fun c w => w.tickWith (nested n) c }

/-- How deep tasks may run tasks. -/
def nestingLimit : Nat := 10000

/-- One tick of a context. -/
def tick (w : World τ α) (c : ContextRef) : TickReport × World τ α :=
  w.tickWith (nested nestingLimit) c

/-- Runs a live agent's task once in a context, outside a tick. -/
def exec (w : World τ α) (c : ContextRef) (a : AgentRef) : Option Status × World τ α :=
  match w.context? c with
  | none => (none, w)
  | some before =>
    let w := w.modifyContext c fun ctx => { ctx with inUse := true }
    let (status, w) := w.runTask (nested nestingLimit) c a
    (status, w.modifyContext c fun ctx => { ctx with inUse := before.inUse })

end World

end AgentScheduler
