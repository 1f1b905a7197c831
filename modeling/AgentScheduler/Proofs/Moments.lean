/-
The moments of a tick: each stop of a walk, each request of a running task and
each end of a task, with the world as it is then. `tickMoments` lists them in
order, those of nested ticks and tasks included.

`Happens` is what a tick is made of, whatever its tasks are: `tickWith_happens`
says that the moments of every tick are put together by its rules, so what the
rules keep holds at every moment of every tick (`Durable.happens`).
-/
import AgentScheduler.Proofs.Edits

namespace AgentScheduler

/-- What happens at a moment. -/
inductive Happening (τ α : Type)
  /-- A walk comes to an agent that is gone. -/
  | passes (a : AgentRef)
  /-- A walk comes to an agent whose task runs already. -/
  | skips (a : AgentRef)
  /-- A walk comes to an agent and runs its task. -/
  | runs (a : AgentRef)
  /-- A running task puts a request. -/
  | asks (r : Request τ α)
  /-- A task is through. -/
  | ends (a : AgentRef) (status : Status)

/-- A moment: the context that walks or executes a task, what happens, and the world. -/
structure Moment (τ α : Type) where
  context : ContextRef
  what : Happening τ α
  world : World τ α

/-- A part of a run, by the context it belongs to. -/
inductive Phase
  /-- The rest of a task that the context executes. -/
  | task (c : ContextRef)
  /-- The task of an agent, from its beginning to its end. -/
  | exec (c : ContextRef) (a : AgentRef)
  /-- The rest of a walk, with the agents it has yet to come to. -/
  | walk (c : ContextRef) (l : List AgentRef)
  /-- A tick. -/
  | tick (c : ContextRef)

/-- The context of a phase. -/
def Phase.context : Phase → ContextRef
  | task c | exec c _ | walk c _ | tick c => c

/-- What serves a request of a task that runs in the context `c`, if the request runs tasks. -/
def Request.phase? {τ α : Type} (c : ContextRef) : Request τ α → Option Phase
  | .here .tick => some (.tick c)
  | .there other .tick => some (.tick other)
  | .exec a => some (.exec c a)
  | _ => none

namespace World

variable {τ α : Type}

variable [Behavior τ α]

/-! ## The parts of a tick -/

/-- A tick of a context between ticks is a walk and what comes after it. -/
theorem tickWith_eq {nested : Nested τ α} {c : ContextRef} {w : World τ α} {ctx : Context}
    (hc : w.context? c = some ctx) (hx : ctx.executing = false) :
    w.tickWith nested c =
      let (visits, v) := (w.startWalk c).walk nested c ctx.registry.walkOrder
      let (counts, u) := v.finishWalk c ctx.inUse
      let report := tickReport visits counts c u
      (report, u.report
        (.tickComplete ctx.id report.frame report.executed report.added report.removed)) := by
  simp only [tickWith, hc, hx, Bool.false_eq_true, if_false]

theorem runTask_eq {nested : Nested τ α} {c : ContextRef} {a : AgentRef} {w : World τ α}
    {agent : Agent τ} (hl : w.live? a = some agent) (hr : agent.running = false) :
    w.runTask nested c a =
      let ((status, task), v) := (Behavior.exec a agent.task).run nested c (w.startTask a)
      (some status, v.endTask a task) := by
  simp only [runTask, hl, hr, Bool.false_eq_true, if_false]

/-! ## The moments of a tick -/

/-- The moments of requests that run tasks. -/
structure NestedMoments (τ α : Type) where
  exec : ContextRef → AgentRef → World τ α → List (Moment τ α)
  tick : ContextRef → World τ α → List (Moment τ α)

/-- The moments while a request is served. -/
def requestMoments (inner : NestedMoments τ α) (c : ContextRef) (w : World τ α) :
    Request τ α → List (Moment τ α)
  | .here .tick => inner.tick c w
  | .there other .tick =>
    match w.context? other with
    | none => []
    | some ctx => if ctx.inUse then [] else inner.tick other w
  | .exec a => inner.exec c a w
  | _ => []

omit [Behavior τ α] in
/-- No moments pass while a request is served that runs no task. -/
theorem requestMoments_none (inner : NestedMoments τ α) {c : ContextRef} (w : World τ α)
    {r : Request τ α} (hp : r.phase? c = none) : requestMoments inner c w r = [] := by
  unfold requestMoments
  split
  · cases hp
  · cases hp
  · cases hp
  · rfl

/-- The moments of a program. -/
def programMoments (nested : Nested τ α) (inner : NestedMoments τ α) (c : ContextRef) {β : Type} :
    Prog τ α β → World τ α → List (Moment τ α)
  | .done _, _ => []
  | .call r k, w =>
    let (answer, v) := w.answer nested c r
    ⟨c, .asks r, w⟩ :: (requestMoments inner c w r ++ programMoments nested inner c (k answer) v)

/-- The moments while an agent's task runs, its end included. -/
def taskMoments (nested : Nested τ α) (inner : NestedMoments τ α) (c : ContextRef) (a : AgentRef)
    (w : World τ α) : List (Moment τ α) :=
  match w.live? a, w.runTask nested c a with
  | some agent, (some status, v) =>
    programMoments nested inner c (Behavior.exec a agent.task) (w.startTask a)
      ++ [⟨c, .ends a status, v⟩]
  | _, _ => []

/-- The moments of one stop of a walk. -/
def visitMoments (nested : Nested τ α) (inner : NestedMoments τ α) (c : ContextRef) (a : AgentRef)
    (w : World τ α) : List (Moment τ α) :=
  match w.live? a with
  | none => [⟨c, .passes a, w⟩]
  | some agent =>
    if agent.running then [⟨c, .skips a, w⟩]
    else ⟨c, .runs a, w⟩ :: taskMoments nested inner c a w

/-- The moments of a walk. -/
def walkMoments (nested : Nested τ α) (inner : NestedMoments τ α) (c : ContextRef) :
    List AgentRef → World τ α → List (Moment τ α)
  | [], _ => []
  | a :: as, w =>
    visitMoments nested inner c a w ++ walkMoments nested inner c as (w.visit nested c a).2

/-- The moments of a tick; none if the context is being ticked already. -/
def tickMomentsWith (nested : Nested τ α) (inner : NestedMoments τ α) (c : ContextRef)
    (w : World τ α) : List (Moment τ α) :=
  match w.context? c with
  | none => []
  | some ctx =>
    if ctx.executing then [] else walkMoments nested inner c ctx.registry.walkOrder (w.startWalk c)

/-- The moments of requests that run tasks, as `nested` serves them. -/
def nestedMoments : Nat → NestedMoments τ α
  | 0 => { exec := fun _ _ _ => [], tick := fun _ _ => [] }
  | n + 1 =>
    { exec := taskMoments (nested n) (nestedMoments n)
      tick := tickMomentsWith (nested n) (nestedMoments n) }

/-- The moments of a tick whose tasks may run tasks `n` levels further in. -/
def tickMoments (n : Nat) (w : World τ α) (c : ContextRef) : List (Moment τ α) :=
  tickMomentsWith (nested n) (nestedMoments n) c w

/-! ## The steps of a walk -/

section Steps

variable (nested : Nested τ α) (inner : NestedMoments τ α) (c : ContextRef) (l : List AgentRef)
  {a : AgentRef} {w v : World τ α} {agent : Agent τ}

theorem walk_pass (hl : w.live? a = none) :
    w.walk nested c (a :: l) = (.stale :: (w.walk nested c l).1, (w.walk nested c l).2) ∧
      walkMoments nested inner c (a :: l) w =
        ⟨c, .passes a, w⟩ :: walkMoments nested inner c l w := by
  have hdead : w.alive a = false := by rw [alive, hl]; rfl
  simp [walk, walkMoments, visit, visitMoments, hl, hdead]

theorem walk_skip (hl : w.live? a = some agent) (hr : agent.running = true) :
    ∃ e, w.walk nested c (a :: l) =
        (.busy :: ((w.report e).walk nested c l).1, ((w.report e).walk nested c l).2) ∧
      walkMoments nested inner c (a :: l) w =
        ⟨c, .skips a, w⟩ :: walkMoments nested inner c l (w.report e) := by
  have halive : w.alive a = true := alive_of_live? hl
  refine ⟨.taskBusy (((w.context? c).map (·.id)).getD .invalid)
    (((w.agent? a).map (·.place.id)).getD .invalid), ?_, ?_⟩
  · simp only [walk, visit, halive, runTask, hl, hr]
    rfl
  · simp only [walkMoments, visitMoments, visit, halive, runTask, hl, hr]
    rfl

theorem walk_run (hl : w.live? a = some agent) (hr : agent.running = false) {status : Status}
    {task : τ}
    (h : (Behavior.exec a agent.task).run nested c (w.startTask a) = ((status, task), v)) :
    w.walk nested c (a :: l) = (.ran status :: ((v.endTask a task).walk nested c l).1,
        ((v.endTask a task).walk nested c l).2) ∧
      walkMoments nested inner c (a :: l) w = ⟨c, .runs a, w⟩ ::
        (programMoments nested inner c (Behavior.exec a agent.task) (w.startTask a) ++
          ⟨c, .ends a status, v.endTask a task⟩ ::
            walkMoments nested inner c l (v.endTask a task)) := by
  have halive : w.alive a = true := alive_of_live? hl
  have hrun : w.runTask nested c a = (some status, v.endTask a task) := by
    rw [runTask_eq hl hr, h]
  constructor
  · simp [walk, visit, halive, hrun]
  · simp [walkMoments, visitMoments, taskMoments, visit, halive, hl, hr, hrun]

/-- What a walk does at the first of its agents, and what follows: its result and its moments. -/
inductive FirstStop (a : AgentRef) (w : World τ α) :
    List Visit × World τ α → List (Moment τ α) → Prop
  | pass (hl : w.live? a = none) : FirstStop a w
      (.stale :: (w.walk nested c l).1, (w.walk nested c l).2)
      (⟨c, .passes a, w⟩ :: walkMoments nested inner c l w)
  | skip {agent : Agent τ} (hl : w.live? a = some agent) (hr : agent.running = true) (e : Event) :
      FirstStop a w (.busy :: ((w.report e).walk nested c l).1, ((w.report e).walk nested c l).2)
        (⟨c, .skips a, w⟩ :: walkMoments nested inner c l (w.report e))
  | run {agent : Agent τ} {status : Status} {task : τ} {v : World τ α} (hl : w.live? a = some agent)
      (hr : agent.running = false)
      (h : (Behavior.exec a agent.task).run nested c (w.startTask a) = ((status, task), v)) :
      FirstStop a w
        (.ran status :: ((v.endTask a task).walk nested c l).1, ((v.endTask a task).walk nested c l).2)
        (⟨c, .runs a, w⟩ ::
          (programMoments nested inner c (Behavior.exec a agent.task) (w.startTask a) ++
            ⟨c, .ends a status, v.endTask a task⟩ ::
              walkMoments nested inner c l (v.endTask a task)))

theorem walk_firstStop (a : AgentRef) (w : World τ α) : FirstStop nested inner c l a w
    (w.walk nested c (a :: l)) (walkMoments nested inner c (a :: l) w) := by
  cases hl : w.live? a with
  | none =>
    obtain ⟨hwalk, hmoments⟩ := walk_pass nested inner c l hl
    rw [hwalk, hmoments]
    exact .pass hl
  | some agent =>
    cases hr : agent.running with
    | true =>
      obtain ⟨e, hwalk, hmoments⟩ := walk_skip nested inner c l hl hr
      rw [hwalk, hmoments]
      exact .skip hl hr e
    | false =>
      obtain ⟨⟨⟨status, task⟩, v⟩, hrun⟩ :
        ∃ r, (Behavior.exec a agent.task).run nested c (w.startTask a) = r := ⟨_, rfl⟩
      obtain ⟨hwalk, hmoments⟩ := walk_run nested inner c l hl hr hrun
      rw [hwalk, hmoments]
      exact .run hl hr hrun

end Steps

/-! ## Changes other than edits -/

/-- The same agents with the same registrations; none lives that did not live before. -/
def Fades (w v : World τ α) : Prop :=
  ∀ a, (v.agent? a).map Agent.view = (w.agent? a).map Agent.view ∧
    (v.alive a = true → w.alive a = true)

/-- What a phase is made of: the worlds before and after, and the moments in between. -/
inductive Happens : Phase → World τ α → List (Moment τ α) → World τ α → Prop
  /-- A task is through. -/
  | done {c w} : Happens (.task c) w [] w
  /-- A task puts a request that runs no task. -/
  | serve {c r w v T} (nested : Nested τ α) (hp : r.phase? c = none)
      (h : Happens (.task c) (w.answer nested c r).2 T v) :
      Happens (.task c) w (⟨c, .asks r, w⟩ :: T) v
  /-- A task puts a request that runs tasks. -/
  | call {c r p w v u T T'} (hp : r.phase? c = some p) (h : Happens p w T v)
      (h' : Happens (.task c) v T' u) : Happens (.task c) w (⟨c, .asks r, w⟩ :: (T ++ T')) u
  /-- A task runs. -/
  | exec {c a w v T} {agent : Agent τ} {status : Status} {task : τ} (hl : w.live? a = some agent)
      (hr : agent.running = false) (h : Happens (.task c) (w.startTask a) T v) :
      Happens (.exec c a) w (T ++ [⟨c, .ends a status, v.endTask a task⟩]) (v.endTask a task)
  /-- A task is busy, or too deep. -/
  | noExec {c a w} : Happens (.exec c a) w [] w
  /-- A walk is through. -/
  | finish {c w} : Happens (.walk c []) w [] w
  /-- A walk passes by an agent that is gone. -/
  | pass {c a l w v T} (hl : w.live? a = none) (h : Happens (.walk c l) w T v) :
      Happens (.walk c (a :: l)) w (⟨c, .passes a, w⟩ :: T) v
  /-- A walk skips an agent whose task runs already. -/
  | skip {c a l w v T} {agent : Agent τ} (hl : w.live? a = some agent) (hr : agent.running = true)
      (e : Event) (h : Happens (.walk c l) (w.report e) T v) :
      Happens (.walk c (a :: l)) w (⟨c, .skips a, w⟩ :: T) v
  /-- A walk runs the task of an agent. -/
  | visit {c a l w v u T T'} {agent : Agent τ} {status : Status} {task : τ}
      (hl : w.live? a = some agent) (hr : agent.running = false)
      (h : Happens (.task c) (w.startTask a) T v)
      (h' : Happens (.walk c l) (v.endTask a task) T' u) :
      Happens (.walk c (a :: l)) w
        (⟨c, .runs a, w⟩ :: (T ++ ⟨c, .ends a status, v.endTask a task⟩ :: T')) u
  /-- A context between ticks is ticked: a walk, and what comes after it. -/
  | tick {c w v T} {ctx : Context} (hc : w.context? c = some ctx) (hx : ctx.executing = false)
      (h : Happens (.walk c ctx.registry.walkOrder) (w.startWalk c) T v) (e : Event) :
      Happens (.tick c) w T ((v.finishWalk c ctx.inUse).2.report e)
  /-- A context that is being ticked refuses. -/
  | refuse {c w} (e : Event) : Happens (.tick c) w [] (w.report e)
  /-- There is no such context, or it is in use, or too deep. -/
  | noTick {c w} : Happens (.tick c) w [] w

/-- Requests that run tasks are served by what happens at their moments. -/
structure Traced (nested : Nested τ α) (inner : NestedMoments τ α) : Prop where
  exec : ∀ c a w, Happens (.exec c a) w (inner.exec c a w) (nested.exec c a w).2
  tick : ∀ c w, Happens (.tick c) w (inner.tick c w) (nested.tick c w).2

section Traced

variable {nested : Nested τ α} {inner : NestedMoments τ α} {c : ContextRef} {w : World τ α}
  {a : AgentRef}

theorem answer_happens (ht : Traced nested inner) {r : Request τ α} {p : Phase}
    (hp : r.phase? c = some p) :
    Happens p w (requestMoments inner c w r) (w.answer nested c r).2 := by
  unfold Request.phase? at hp
  split at hp
  · cases hp
    exact ht.tick c w
  · next other =>
    cases hp
    cases hc : w.context? other with
    | none =>
      simp only [answer, requestMoments, hc]
      exact .noTick
    | some ctx =>
      by_cases hu : ctx.inUse = true
      · simp only [answer, requestMoments, hc, hu, if_true]
        exact .noTick
      · simp only [answer, requestMoments, hc, hu, Bool.false_eq_true, if_false]
        exact ht.tick other w
  · next b =>
    cases hp
    exact ht.exec c b w
  · cases hp

theorem program_happens (ht : Traced nested inner) {β : Type} (p : Prog τ α β) :
    Happens (.task c) w (programMoments nested inner c p w) (p.run nested c w).2 := by
  induction p generalizing w with
  | done b => exact .done
  | call r k ih =>
    simp only [programMoments, Prog.run]
    cases hp : r.phase? c with
    | none =>
      rw [requestMoments_none inner w hp, List.nil_append]
      exact .serve nested hp (ih _)
    | some q => exact .call hp (answer_happens ht hp) (ih _)

theorem task_happens (ht : Traced nested inner) :
    Happens (.exec c a) w (taskMoments nested inner c a w) (w.runTask nested c a).2 := by
  unfold taskMoments
  cases hl : w.live? a with
  | none =>
    simp only [runTask, hl]
    exact .noExec
  | some agent =>
    by_cases hr : agent.running = true
    · simp only [runTask, hl, hr]
      exact .noExec
    · have hr : agent.running = false := Bool.eq_false_iff.2 hr
      rw [runTask_eq hl hr]
      exact .exec hl hr (program_happens ht _)

theorem walk_happens (ht : Traced nested inner) (l : List AgentRef) :
    Happens (.walk c l) w (walkMoments nested inner c l w) (w.walk nested c l).2 := by
  induction l generalizing w with
  | nil => exact .finish
  | cons a l ih =>
    have hfirst := walk_firstStop nested inner c l a w
    generalize w.walk nested c (a :: l) = r, walkMoments nested inner c (a :: l) w = T at hfirst ⊢
    cases hfirst with
    | pass hl => exact .pass hl ih
    | skip hl hr e => exact .skip hl hr e ih
    | @run agent _ _ _ hl hr h =>
      have hprog := program_happens (c := c) (w := w.startTask a) ht (Behavior.exec a agent.task)
      rw [h] at hprog
      exact .visit hl hr hprog ih

theorem tickWith_happens (ht : Traced nested inner) :
    Happens (.tick c) w (tickMomentsWith nested inner c w) (w.tickWith nested c).2 := by
  unfold tickMomentsWith
  cases hc : w.context? c with
  | none =>
    simp only [tickWith, hc]
    exact .noTick
  | some ctx =>
    by_cases hx : ctx.executing = true
    · simp only [tickWith, hc, hx]
      exact .refuse _
    · have hx : ctx.executing = false := Bool.eq_false_iff.2 hx
      rw [tickWith_eq hc hx]
      simp only [hx]
      exact .tick hc hx (walk_happens ht _) _

end Traced

theorem traced_nested (n : Nat) : Traced (nested n : Nested τ α) (nestedMoments n) := by
  induction n with
  | zero => exact ⟨fun _ _ _ => .noExec, fun _ _ => .noTick⟩
  | succ n ih => exact ⟨fun _ _ _ => task_happens ih, fun _ _ => tickWith_happens ih⟩

end World

end AgentScheduler
