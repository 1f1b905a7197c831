/-
Between deeds nothing runs. A phase ends the tasks and the walks that it begins,
and no other (`Happens.sameActivity`), so an application that begins with
nothing under way is at rest after each of its deeds (`atRest_run`).
-/
import AgentScheduler.Proofs.Invariance
import AgentScheduler.Proofs.WalkEnd

namespace AgentScheduler

/-- An agent apart from its registration and its task. -/
def Agent.self {τ : Type} (a : Agent τ) : Agent Unit := { a with place := {}, task := () }

namespace World

variable {τ α : Type} {w v u : World τ α} {c : ContextRef} {a : AgentRef}

/-! ## What no edit changes of an agent -/

theorem SameAgents.self (h : SameAgents w v) (a : AgentRef) :
    (v.agent? a).map Agent.self = (w.agent? a).map Agent.self := by
  have hbody := congrArg (Option.map Agent.self) (h a)
  rw [Option.map_map, Option.map_map] at hbody
  exact hbody

/-- An agent that moves stays the same otherwise. -/
theorem self_move {agent : Agent τ} {place : Registration} (hl : w.live? a = some agent)
    (ha : ∀ b, v.agent? b = if b = a then some { agent with place } else w.agent? b)
    (b : AgentRef) : (v.agent? b).map Agent.self = (w.agent? b).map Agent.self := by
  rw [ha b]
  split
  · next hb => rw [hb, (live?_eq_some.1 hl).1]; rfl
  · rfl

/-- Edits change nothing of an agent but its registration and its task. -/
theorem Edit.self (h : Edit c w v) (a : AgentRef) :
    (v.agent? a).map Agent.self = (w.agent? a).map Agent.self := by
  cases h with
  | rest _ ha | set _ _ _ _ _ _ ha | wait _ _ _ _ _ _ ha | prune _ _ ha => exact ha.self a
  | enroll _ _ _ _ hl _ _ ha => exact self_move hl ha a
  | dismiss _ _ _ hl _ _ _ ha => exact self_move hl ha a
  | clear _ _ ha =>
    rw [ha a, Option.map_map]
    congr 1
    funext agent
    simp only [Function.comp_apply]
    split <;> rfl

theorem Edits.self (h : Edits c w v) (a : AgentRef) :
    (v.agent? a).map Agent.self = (w.agent? a).map Agent.self := by
  induction h with
  | refl => rfl
  | tail _ h ih => exact (h.self a).trans ih

/-- The end of a walk changes nothing of an agent but its registration. -/
theorem finishWalk_self (inUse : Bool) (a : AgentRef) :
    ((w.finishWalk c inUse).2.agent? a).map Agent.self = (w.agent? a).map Agent.self := by
  cases hc : w.context? c with
  | none => exact (finishWalk_none hc).self a
  | some ctx => exact (finishWalk_edits hc).self a

/-! ## What is under way -/

/-- The task of the agent runs. -/
def runsTask (w : World τ α) (a : AgentRef) : Bool := (w.agent? a).any (·.running)

@[simp] theorem runsTask_report (e : Event) : (w.report e).runsTask a = w.runsTask a := rfl

theorem runsTask_of_self (h : (v.agent? a).map Agent.self = (w.agent? a).map Agent.self) :
    v.runsTask a = w.runsTask a := by
  have hany (x : Option (Agent τ)) : x.any (·.running) = (x.map Agent.self).any (·.running) := by
    cases x <;> rfl
  rw [runsTask, runsTask, hany, h, ← hany]

theorem runsTask_of_live? {agent : Agent τ} (hl : w.live? a = some agent) :
    w.runsTask a = agent.running := by
  rw [runsTask, (live?_eq_some.1 hl).1, Option.any_some]

theorem alive_of_self (h : (v.agent? a).map Agent.self = (w.agent? a).map Agent.self) :
    v.alive a = w.alive a := by
  have hany (w : World τ α) : w.alive a = ((w.agent? a).map Agent.self).any (·.alive) := by
    rw [alive, live?]
    cases w.agent? a with
    | none => rfl
    | some agent =>
      have hself : agent.self.alive = agent.alive := rfl
      cases hl : agent.alive <;> simp [Option.filter, hl, hself]
  rw [hany, hany, h]

@[simp] theorem alive_report (e : Event) : (w.report e).alive a = w.alive a := rfl

/-- The same tasks run, and what is left of the contexts is as busy as it was. -/
structure SameActivity (w v : World τ α) : Prop where
  tasks : ∀ a, v.runsTask a = w.runsTask a
  contexts : ∀ c ctx', v.context? c = some ctx' → ∃ ctx, w.context? c = some ctx ∧
    ctx'.executing = ctx.executing ∧ ctx'.inUse = ctx.inUse

namespace SameActivity

theorem refl (w : World τ α) : SameActivity w w :=
  ⟨fun _ => rfl, fun _ ctx hc => ⟨ctx, hc, rfl, rfl⟩⟩

theorem trans (h : SameActivity w v) (h' : SameActivity v u) : SameActivity w u where
  tasks a := (h'.tasks a).trans (h.tasks a)
  contexts c ctx'' hc := by
    obtain ⟨ctx', hc', hx', hu'⟩ := h'.contexts c ctx'' hc
    obtain ⟨ctx, hc, hx, hu⟩ := h.contexts c ctx' hc'
    exact ⟨ctx, hc, hx'.trans hx, hu'.trans hu⟩

theorem of_same (hc : SameContexts w v)
    (ha : ∀ a, (v.agent? a).map Agent.self = (w.agent? a).map Agent.self) : SameActivity w v where
  tasks a := runsTask_of_self (ha a)
  contexts c ctx hx := ⟨ctx, hc c ▸ hx, rfl, rfl⟩

theorem of_edits (h : Edits c w v) : SameActivity w v where
  tasks a := runsTask_of_self (h.self a)
  contexts c' ctx' hx := by
    have hs := h.shell c'
    rw [hx, Option.map_some, eq_comm, Option.map_eq_some_iff] at hs
    obtain ⟨ctx, hc, hs⟩ := hs
    have hshell := (Context.mk.injEq .. ▸ hs).2.2.2.2
    exact ⟨ctx, hc, hshell.2.1.symm, hshell.2.2.1.symm⟩

/-- A task that runs from beginning to end. -/
theorem task {agent : Agent τ} (hl : w.live? a = some agent) (hr : agent.running = false)
    (h : SameActivity (w.startTask a) v) (task : τ) : SameActivity w (v.endTask a task) where
  tasks b := by
    by_cases hb : b = a
    · subst hb
      have hw : w.runsTask b = false := by simp [runsTask, (live?_eq_some.1 hl).1, hr]
      rw [hw, runsTask, endTask, agent?_modifyAgent, if_pos rfl]
      cases v.agent? b <;> rfl
    · have hstart : (w.startTask a).runsTask b = w.runsTask b := by
        rw [runsTask, startTask, agent?_modifyAgent, if_neg hb, runsTask]
      rw [← hstart, ← h.tasks b, runsTask, endTask, agent?_modifyAgent, if_neg hb, runsTask]
  contexts := h.contexts

/-- A walk that goes from beginning to end. -/
theorem walk {ctx : Context} (hc : w.context? c = some ctx) (hx : ctx.executing = false)
    (h : SameActivity (w.startWalk c) v) (e : Event) :
    SameActivity w ((v.finishWalk c ctx.inUse).2.report e) where
  tasks a := by
    rw [runsTask_report, runsTask_of_self (finishWalk_self ctx.inUse a)]
    exact h.tasks a
  contexts c' ctx' hc' := by
    rw [context?_report] at hc'
    by_cases hne : c' = c
    · subst hne
      refine ⟨ctx, hc, ?_⟩
      cases hv : v.context? c' with
      | none =>
        have hedits : Edits c' v (v.finishWalk c' ctx.inUse).2 := finishWalk_none hv
        have hs := hedits.shell c'
        rw [hv, hc'] at hs
        cases hs
      | some x =>
        have hedits : Edits c' (v.settle c' ctx.inUse) (v.finishWalk c' ctx.inUse).2 :=
          finishWalk_edits hv
        have hs := hedits.shell c'
        rw [hc', context?_settle_self hv, Option.map_some, Option.map_some] at hs
        have hshell := (Context.mk.injEq .. ▸ Option.some.inj hs).2.2.2.2
        exact ⟨hshell.2.1.trans hx.symm, hshell.2.2.1⟩
    · rw [finishWalk_other hne] at hc'
      obtain ⟨x, hx', hflags⟩ := h.contexts c' ctx' hc'
      rw [startWalk, context?_modifyContext_ne hne] at hx'
      exact ⟨x, hx', hflags⟩

/-- A context that goes leaves the others as they are. -/
theorem dropContext : SameActivity w (w.dropContext c) where
  tasks a := runsTask_of_self (clearRegistry_edits.self a)
  contexts c' ctx' hc' := by
    have hcontext : (w.clearRegistry c).context? c' = some ctx' := by
      rw [context?_dropContext_eq] at hc'
      split at hc'
      · cases hc'
      · exact hc'
    exact (of_edits clearRegistry_edits).contexts c' ctx' hcontext

theorem create (g : NewAgent τ) : SameActivity w (w.create g).2 where
  tasks a := by
    rw [runsTask, runsTask, agent?_create]
    split
    · next h => rw [agent?_eq_none_of_size (Nat.le_of_eq h.symm)]; rfl
    · rfl
  contexts c ctx hc := ⟨ctx, hc, rfl, rfl⟩

theorem disown : SameActivity w (w.disown a) where
  tasks b := by
    rw [runsTask, runsTask, World.disown, agent?_modifyAgent]
    split
    · cases w.agent? b <;> rfl
    · rfl
  contexts c ctx hc := ⟨ctx, hc, rfl, rfl⟩

end SameActivity

variable [Behavior τ α]

theorem answer_sameActivity (nested : Nested τ α) {r : Request τ α} (h : r.phase? c = none) :
    SameActivity w (w.answer nested c r).2 := by
  cases r with
  | here op =>
    refine .of_edits (answerContextOp_edits nested op fun he => ?_)
    rw [he] at h; cases h
  | there other op =>
    simp only [answer]
    split
    · exact .refl w
    · split
      · exact .refl w
      · refine .of_edits (answerContextOp_edits nested op fun he => ?_)
        rw [he] at h; cases h
  | dropContext other =>
    simp only [answer]
    split
    · exact .refl w
    · split
      · exact .refl w
      · exact .dropContext
  | create g => exact .create g
  | disown b => exact .disown
  | loadTask b state => exact .of_same (loadTask_edits state).1 (loadTask_edits state).2.self
  | exec b => cases h
  | view | saveTask | describeTask | app => exact .refl w
  | setApp f => exact .of_same (fun _ => rfl) fun _ => rfl
  | report e => exact .of_same (fun _ => rfl) fun _ => rfl

/-- A phase ends what it begins, and nothing else. -/
theorem Happens.sameActivity {p : Phase} {T : List (Moment τ α)} (h : Happens p w T v) :
    SameActivity w v := by
  have report {w : World τ α} (e : Event) : SameActivity w (w.report e) :=
    .of_same (fun _ => rfl) fun _ => rfl
  induction h with
  | done | noExec | finish | noTick => exact .refl _
  | refuse e => exact report e
  | serve nested hp _ ih => exact (answer_sameActivity nested hp).trans ih
  | call _ _ _ ih ih' => exact ih.trans ih'
  | exec hl hr _ ih => exact ih.task hl hr _
  | pass _ _ ih => exact ih
  | skip _ _ e _ ih => exact (report e).trans ih
  | visit hl hr _ _ ih ih' => exact (ih.task hl hr _).trans ih'
  | tick hc hx _ e ih => exact ih.walk hc hx e

/-! ## Between deeds -/

/-- No task runs, and no context is being ticked or used. -/
structure AtRest (w : World τ α) : Prop where
  tasks : ∀ a, w.runsTask a = false
  contexts : ∀ c ctx, w.context? c = some ctx → ctx.executing = false ∧ ctx.inUse = false

omit [Behavior τ α] in
theorem AtRest.not_running {agent : Agent τ} (h : w.AtRest) (ha : w.agent? a = some agent) :
    agent.running = false := by
  have := h.tasks a
  rw [runsTask, ha] at this
  exact this

omit [Behavior τ α] in
theorem SameActivity.atRest (h : SameActivity w v) (hw : w.AtRest) : v.AtRest where
  tasks a := (h.tasks a).trans (hw.tasks a)
  contexts c ctx' hc := by
    obtain ⟨ctx, hc, hx, hu⟩ := h.contexts c ctx' hc
    exact ⟨hx.trans (hw.contexts c ctx hc).1, hu.trans (hw.contexts c ctx hc).2⟩

omit [Behavior τ α] in
/-- A context may be marked as used while a task runs, if it is given back. -/
theorem AtRest.modifyContext {f : Context → Context} (hw : w.AtRest)
    (hf : ∀ ctx, ctx.executing = false → ctx.inUse = false →
      (f ctx).executing = false ∧ (f ctx).inUse = false) : (w.modifyContext c f).AtRest where
  tasks := hw.tasks
  contexts c' ctx' hc' := by
    rw [context?_modifyContext] at hc'
    split at hc'
    · obtain ⟨ctx, hc, rfl⟩ := Option.map_eq_some_iff.1 hc'
      exact hf ctx (hw.contexts c' ctx hc).1 (hw.contexts c' ctx hc).2
    · exact hw.contexts c' ctx' hc'

theorem AtRest.perform (hw : w.AtRest) (d : Deed τ α) : (w.perform d).AtRest := by
  cases d with
  | create g => exact (SameActivity.create g).atRest hw
  | disown a => exact SameActivity.disown.atRest hw
  | loadTask a state =>
    exact (SameActivity.of_same (loadTask_edits state).1 (loadTask_edits state).2.self).atRest hw
  | newContext id types stepMillis =>
    refine ⟨hw.tasks, fun c ctx hc => ?_⟩
    simp only [World.perform, context?_addContext] at hc
    split at hc
    · cases hc; exact ⟨rfl, rfl⟩
    · exact hw.contexts c ctx hc
  | dropContext c => exact SameActivity.dropContext.atRest hw
  | setCreated c created => exact hw.modifyContext fun _ hx hu => ⟨hx, hu⟩
  | on c op =>
    by_cases h : op = .tick
    · subst h
      exact (tickWith_happens (traced_nested nestingLimit)).sameActivity.atRest hw
    · exact (SameActivity.of_edits (answerContextOp_edits _ op h)).atRest hw
  | exec c a =>
    simp only [World.perform, World.exec]
    cases hc : w.context? c with
    | none => exact hw
    | some ctx =>
      have hidle := hw.contexts c ctx hc
      have htask : SameActivity (w.modifyContext c fun ctx => { ctx with inUse := true })
          ((w.modifyContext c fun ctx => { ctx with inUse := true }).runTask
            (nested nestingLimit) c a).2 :=
        (task_happens (traced_nested nestingLimit)).sameActivity
      refine ⟨fun b => (htask.tasks b).trans (hw.tasks b), fun c' ctx' hc' => ?_⟩
      rw [context?_modifyContext] at hc'
      split at hc'
      · next he =>
        obtain ⟨x, hx, rfl⟩ := Option.map_eq_some_iff.1 hc'
        obtain ⟨y, hy, hxy, -⟩ := htask.contexts c' x hx
        rw [he, context?_modifyContext_self hc] at hy
        cases hy
        exact ⟨hxy.trans hidle.1, hidle.2⟩
      · next hne =>
        obtain ⟨y, hy, hxy, huy⟩ := htask.contexts c' ctx' hc'
        rw [context?_modifyContext_ne hne] at hy
        exact ⟨hxy.trans (hw.contexts c' y hy).1, huy.trans (hw.contexts c' y hy).2⟩
  | host f => exact ⟨hw.tasks, hw.contexts⟩

/-- An application that begins at rest is at rest after each deed. -/
theorem atRest_run (ds : List (Deed τ α)) (hw : w.AtRest) : (run ds w).AtRest := by
  induction ds generalizing w with
  | nil => exact hw
  | cons d ds ih => exact ih (hw.perform d)

omit [Behavior τ α] in
theorem atRest_empty (h : Host α) : ({ host := h } : World τ α).AtRest where
  tasks a := by simp [runsTask, agent?]
  contexts c ctx hc := by simp [context?] at hc

end World

end AgentScheduler
