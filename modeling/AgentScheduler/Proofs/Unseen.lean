/-
What tasks cannot see. Two worlds are alike if they have the same agents and, up
to baselines, the same contexts, and show tasks the same part of the
application's state (`Alike`). A tick of tasks that act on contexts through the
one they are given only, and look at no other part of that state
(`Prog.Unaware`), does the same in both and leaves them alike (`tickWith_alike`);
a log to a receiver that only records leaves a world alike to what it was.
-/
import AgentScheduler.Proofs.WalkEnd

namespace AgentScheduler

/-- The context with nothing logged of its static variables. -/
def Context.unlogged (ctx : Context) : Context := { ctx with statics := ctx.statics.clearBaselines }

/-- The context with other baselines. -/
def Context.rebased (ctx : Context) (baselines : SortedMap String Variables) : Context :=
  { ctx with statics := { ctx.statics with baselines } }

section Rebased

variable (ctx : Context) (b : SortedMap String Variables)

@[simp] theorem Context.rebased_id : (ctx.rebased b).id = ctx.id := rfl

@[simp] theorem Context.rebased_types : (ctx.rebased b).types = ctx.types := rfl

@[simp] theorem Context.rebased_registry : (ctx.rebased b).registry = ctx.registry := rfl

@[simp] theorem Context.rebased_live : (ctx.rebased b).statics.live = ctx.statics.live := rfl

@[simp] theorem Context.rebased_executing : (ctx.rebased b).executing = ctx.executing := rfl

@[simp] theorem Context.rebased_inUse : (ctx.rebased b).inUse = ctx.inUse := rfl

@[simp] theorem Context.rebased_entry (place : Registration) :
    (ctx.rebased b).entry place = ctx.entry place := rfl

end Rebased

/-! ## Programs -/

section Programs

variable {τ α σ : Type}

/-- Acts on contexts through the one that executes the task only, and keeps what tasks see of the
application's state independent of the rest. -/
def Request.Harmless (see : α → σ) : Request τ α → Prop
  | .here (.task _) | .create _ | .disown _ | .view _ | .exec _ | .saveTask _ | .loadTask _ _
  | .describeTask _ | .app | .report _ => True
  | .setApp f => ∀ x y, see x = see y → see (f x) = see (f y)
  | _ => False

/-- Answers that tasks do not tell apart: the application's state may differ where they do not
look. -/
def Request.SameAnswer (see : α → σ) : (r : Request τ α) → r.Answer → r.Answer → Prop
  | .app => fun x y => see x = see y
  | _ => fun x y => x = y

/-- Puts harmless requests, and goes on in the same way after answers that are not told apart. -/
def Prog.Unaware {β : Type} (see : α → σ) : Prog τ α β → Prop
  | done _ => True
  | call r k => r.Harmless see ∧ (∀ x y, r.SameAnswer see x y → k x = k y) ∧
      ∀ answer, (k answer).Unaware see

/-- Records what it is given where no task looks. -/
def Sink.Unseen (see : α → σ) (sink : Sink α) : Prop := ∀ r h, see (sink r h).2.app = see h.app

end Programs

namespace World

variable {τ α σ : Type} {see : α → σ} {w v u : World τ α} {c : ContextRef} {a : AgentRef}

/-- The same agents and contexts, apart from baselines, and the same part of the application's state
in sight of tasks. -/
structure Alike (see : α → σ) (w v : World τ α) : Prop where
  agents : v.agents = w.agents
  contexts : ∀ c, (v.context? c).map Context.unlogged = (w.context? c).map Context.unlogged
  app : see v.host.app = see w.host.app

/-- The same result, in worlds that are alike. -/
def AlikeResults {β : Type} (see : α → σ) (x y : β × World τ α) : Prop :=
  y.1 = x.1 ∧ Alike see x.2 y.2

namespace Alike

theorem refl (w : World τ α) : Alike see w w := ⟨rfl, fun _ => rfl, rfl⟩

theorem symm (h : Alike see w v) : Alike see v w :=
  ⟨h.agents.symm, fun c => (h.contexts c).symm, h.app.symm⟩

theorem trans (h : Alike see w v) (h' : Alike see v u) : Alike see w u :=
  ⟨h'.agents.trans h.agents, fun c => (h'.contexts c).trans (h.contexts c), h'.app.trans h.app⟩

/-! ## Looking -/

theorem live? (h : Alike see w v) (a : AgentRef) : v.live? a = w.live? a := by
  rw [World.live?, World.live?, World.agent?, World.agent?, h.agents]

theorem alive (h : Alike see w v) : v.alive = w.alive := by
  funext a
  rw [World.alive, World.alive, h.live? a]

/-- Of each context both worlds have one that differs in its baselines at most, or none. -/
theorem context (h : Alike see w v) (c : ContextRef) :
    (w.context? c = none ∧ v.context? c = none) ∨
      ∃ ctx b, w.context? c = some ctx ∧ v.context? c = some (ctx.rebased b) := by
  have hc := h.contexts c
  cases hw : w.context? c with
  | none =>
    rw [hw, Option.map_none, Option.map_eq_none_iff] at hc
    exact .inl ⟨rfl, hc⟩
  | some ctx =>
    rw [hw, Option.map_some, Option.map_eq_some_iff] at hc
    obtain ⟨ctx', hv, he⟩ := hc
    refine .inr ⟨ctx, ctx'.statics.baselines, rfl, hv.trans (congrArg some ?_)⟩
    obtain ⟨_, _, _, ⟨_, _⟩, _, _, _, _⟩ := ctx'
    obtain ⟨_, _, _, ⟨_, _⟩, _, _, _, _⟩ := ctx
    cases he
    rfl

theorem context_map {β : Type} (h : Alike see w v) (c : ContextRef) (f : Context → β)
    (hf : ∀ ctx b, f (ctx.rebased b) = f ctx) : (v.context? c).map f = (w.context? c).map f := by
  rcases h.context c with ⟨hw, hv⟩ | ⟨ctx, b, hw, hv⟩
  · rw [hw, hv]
  · rw [hw, hv, Option.map_some, Option.map_some, hf]

theorem frames (h : Alike see w v) (c : ContextRef) :
    (v.context? c).map (·.clock.frames) = (w.context? c).map (·.clock.frames) :=
  h.context_map c _ fun _ _ => rfl

/-! ## Changing -/

theorem report (h : Alike see w v) (e e' : Event) : Alike see (w.report e) (v.report e') :=
  ⟨h.agents, h.contexts, h.app⟩

theorem report_right (h : Alike see w v) (e : Event) : Alike see w (v.report e) :=
  ⟨h.agents, h.contexts, h.app⟩

theorem host (h : Alike see w v) {g : Host α} (hg : see g.app = see v.host.app) :
    Alike see w { v with host := g } :=
  ⟨h.agents, h.contexts, hg.trans h.app⟩

theorem modifyAgent (h : Alike see w v) (a : AgentRef) (f : Agent τ → Agent τ) :
    Alike see (w.modifyAgent a f) (v.modifyAgent a f) :=
  ⟨congrArg (·.modify a.index f) h.agents, h.contexts, h.app⟩

theorem setPlace (h : Alike see w v) (a : AgentRef) (place : Registration) :
    Alike see (w.setPlace a place) (v.setPlace a place) :=
  h.modifyAgent a _

/-- Changes of a context that have nothing to do with its baselines. -/
theorem modifyContext (h : Alike see w v) (c : ContextRef) {f g : Context → Context}
    (hf : ∀ ctx b, (g (ctx.rebased b)).unlogged = (f ctx).unlogged) :
    Alike see (w.modifyContext c f) (v.modifyContext c g) := by
  refine ⟨h.agents, fun c' => ?_, h.app⟩
  rw [context?_modifyContext, context?_modifyContext]
  split
  · rcases h.context c' with ⟨hw, hv⟩ | ⟨ctx, b, hw, hv⟩
    · rw [hw, hv]
      rfl
    · rw [hw, hv]
      exact congrArg some (hf ctx b)
  · exact h.contexts c'

theorem modifyRegistry (h : Alike see w v) (c : ContextRef) (f : Registry → Registry) :
    Alike see (w.modifyRegistry c f) (v.modifyRegistry c f) :=
  h.modifyContext c fun _ _ => rfl

/-- A change of baselines alone. -/
theorem rebase (h : Alike see w v) (c : ContextRef) {f : Context → Context}
    (hf : ∀ ctx, v.context? c = some ctx → (f ctx).unlogged = ctx.unlogged) :
    Alike see w (v.modifyContext c f) := by
  refine ⟨h.agents, fun c' => ?_, h.app⟩
  rw [context?_modifyContext]
  split
  · next he =>
    subst he
    rw [← h.contexts c']
    cases hv : v.context? c' with
    | none => rfl
    | some ctx => exact congrArg some (hf ctx hv)
  · exact h.contexts c'

/-! ## Registration -/

theorem insertNow (h : Alike see w v) (c : ContextRef) (a : AgentRef) :
    Alike see (w.insertNow c a) (v.insertNow c a) := by
  unfold World.insertNow
  rw [h.live? a]
  rcases h.context c with ⟨hw, hv⟩ | ⟨ctx, b, hw, hv⟩
  · simp only [hw, hv]
    exact h
  · simp only [hw, hv]
    cases w.live? a with
    | none => exact h
    | some agent =>
      simp only [Context.rebased_entry]
      cases ctx.entry agent.place with
      | alreadyHere => exact h
      | elsewhere owner => exact h.report _ _
      | exhausted => exact h.report _ _
      | fresh id => exact ((h.modifyRegistry c _).setPlace a _).report _ _

theorem foldl_report (h : Alike see w v) (f : String → Event) (names : List String) :
    Alike see (names.foldl (fun w name => w.report (f name)) w)
      (names.foldl (fun w name => w.report (f name)) v) := by
  induction names generalizing w v with
  | nil => exact h
  | cons name names ih => exact ih (h.report _ _)

theorem removeNow (h : Alike see w v) (c : ContextRef) (a : AgentRef) :
    Alike see (w.removeNow c a) (v.removeNow c a) := by
  unfold World.removeNow
  rw [h.live? a]
  rcases h.context c with ⟨hw, hv⟩ | ⟨ctx, b, hw, hv⟩
  · simp only [hw, hv]
    exact h
  · simp only [hw, hv]
    cases w.live? a with
    | none => exact h
    | some agent =>
      simp only
      rw [Context.rebased_id, Context.rebased_registry]
      split
      · cases ctx.registry.index.get? agent.place.id with
        | none => exact h
        | some priority =>
          exact (((h.modifyRegistry c _).foldl_report _ _).setPlace a _).report _ _
      · exact h

/-- A request that waits during a tick and is served at once otherwise. -/
theorem addAgent (h : Alike see w v) (c : ContextRef) (a : AgentRef) :
    Alike see (w.addAgent c a) (v.addAgent c a) := by
  unfold World.addAgent
  rw [h.live? a]
  rcases h.context c with ⟨hw, hv⟩ | ⟨ctx, b, hw, hv⟩
  · simp only [hw, hv]
    exact h
  · simp only [hw, hv]
    cases w.live? a with
    | none => exact h
    | some agent =>
      simp only
      rw [Context.rebased_executing]
      split
      · exact (h.modifyRegistry c _).report _ _
      · exact h.insertNow c a

theorem removeAgent (h : Alike see w v) (c : ContextRef) (a : AgentRef) :
    Alike see (w.removeAgent c a) (v.removeAgent c a) := by
  unfold World.removeAgent
  rw [h.live? a]
  rcases h.context c with ⟨hw, hv⟩ | ⟨ctx, b, hw, hv⟩
  · simp only [hw, hv]
    exact h
  · simp only [hw, hv]
    cases w.live? a with
    | none => exact h
    | some agent =>
      simp only
      rw [Context.rebased_executing]
      split
      · exact (h.modifyRegistry c _).report _ _
      · exact h.removeNow c a

theorem prune (h : Alike see w v) (c : ContextRef) : Alike see (w.prune c) (v.prune c) := by
  unfold World.prune
  rw [h.alive]
  rcases h.context c with ⟨hw, hv⟩ | ⟨ctx, b, hw, hv⟩
  · simp only [hw, hv]
    exact h
  · simp only [hw, hv]
    rw [Context.rebased_registry]
    split
    · exact h.modifyRegistry c _
    · exact (h.modifyRegistry c _).report _ _

/-! ## Names and values -/

theorem bind (h : Alike see w v) (c : ContextRef) (name : String) (a : AgentRef) :
    AlikeResults see (w.bind c name a) (v.bind c name a) := by
  unfold World.bind
  rw [h.live? a]
  rcases h.context c with ⟨hw, hv⟩ | ⟨ctx, b, hw, hv⟩
  · simp only [hw, hv]
    exact ⟨rfl, h⟩
  · simp only [hw, hv]
    cases w.live? a with
    | none => exact ⟨rfl, h⟩
    | some agent =>
      have hfault : v.bindFault? (ctx.rebased b) name a agent = w.bindFault? ctx name a agent := by
        unfold World.bindFault?
        rw [h.alive]
        rfl
      simp only [hfault]
      rw [Context.rebased_registry]
      cases w.bindFault? ctx name a agent with
      | some fault => exact ⟨rfl, h⟩
      | none =>
        simp only
        split
        · exact ⟨rfl, h⟩
        · exact ⟨rfl, (h.modifyRegistry c _).report _ _⟩

theorem unbind (h : Alike see w v) (c : ContextRef) (name : String) :
    AlikeResults see (w.unbind c name) (v.unbind c name) := by
  unfold World.unbind
  rw [h.alive]
  rcases h.context c with ⟨hw, hv⟩ | ⟨ctx, b, hw, hv⟩
  · simp only [hw, hv]
    exact ⟨rfl, h⟩
  · simp only [hw, hv]
    rw [Context.rebased_registry]
    split
    · exact ⟨rfl, (h.modifyRegistry c _).report _ _⟩
    · exact ⟨rfl, h.modifyRegistry c _⟩

theorem lookup (h : Alike see w v) (c : ContextRef) (name : String) :
    v.lookup c name = w.lookup c name := by
  unfold World.lookup
  rw [h.alive]
  rcases h.context c with ⟨hw, hv⟩ | ⟨ctx, b, hw, hv⟩
  · rw [hw, hv]
  · rw [hw, hv]
    rfl

theorem getStatic (h : Alike see w v) (c : ContextRef) (cls name : String) :
    v.getStatic c cls name = w.getStatic c cls name := by
  unfold World.getStatic
  rcases h.context c with ⟨hw, hv⟩ | ⟨ctx, b, hw, hv⟩
  · rw [hw, hv]
  · rw [hw, hv]
    rfl

theorem setStatic (h : Alike see w v) (c : ContextRef) (cls name : String) (x : Value) :
    AlikeResults see (w.setStatic c cls name x) (v.setStatic c cls name x) := by
  unfold World.setStatic
  rcases h.context c with ⟨hw, hv⟩ | ⟨ctx, b, hw, hv⟩
  · simp only [hw, hv]
    exact ⟨rfl, h⟩
  · simp only [hw, hv, Context.rebased_types, Statics.set, Context.rebased_live]
    by_cases hknown : (!ctx.types.contains cls) = true
    · simp only [hknown, if_true]
      exact ⟨rfl, h⟩
    · by_cases hfinite : (!x.isFinite) = true
      · simp only [hknown, hfinite, if_true]
        exact ⟨rfl, h⟩
      · simp only [hknown, hfinite]
        exact ⟨rfl, h.modifyContext c fun _ _ => rfl⟩

/-! ## After a walk -/

theorem drainAddition (h : Alike see w v) (c : ContextRef) (a : AgentRef) :
    AlikeResults see (w.drainAddition c a) (v.drainAddition c a) := by
  have hinsert := h.insertNow c a
  unfold World.drainAddition
  rw [h.live? a]
  rcases h.context c with ⟨hw, hv⟩ | ⟨ctx, b, hw, hv⟩
  · simp only [hw, hv]
    exact ⟨rfl, h⟩
  · simp only [hw, hv]
    cases w.live? a with
    | none => exact ⟨rfl, h⟩
    | some agent =>
      simp only [Context.rebased_entry, Context.rebased_registry]
      have hrefused (e : Event) (n : Nat) : Alike see
          (if n = 0 then (w.insertNow c a).modifyRegistry c (·.unbindAgent a)
            else ((w.insertNow c a).modifyRegistry c (·.unbindAgent a)).report e)
          (if n = 0 then (v.insertNow c a).modifyRegistry c (·.unbindAgent a)
            else ((v.insertNow c a).modifyRegistry c (·.unbindAgent a)).report e) := by
        split
        · exact hinsert.modifyRegistry c _
        · exact (hinsert.modifyRegistry c _).report _ _
      cases ctx.entry agent.place with
      | fresh id => exact ⟨rfl, hinsert⟩
      | alreadyHere => exact ⟨rfl, hinsert⟩
      | elsewhere owner => exact ⟨rfl, hrefused _ _⟩
      | exhausted => exact ⟨rfl, hrefused _ _⟩

theorem drainRemoval (h : Alike see w v) (c : ContextRef) (a : AgentRef) :
    AlikeResults see (w.drainRemoval c a) (v.drainRemoval c a) := by
  unfold World.drainRemoval
  rw [h.live? a]
  rcases h.context c with ⟨hw, hv⟩ | ⟨ctx, b, hw, hv⟩
  · simp only [hw, hv]
    exact ⟨rfl, h⟩
  · simp only [hw, hv]
    cases w.live? a with
    | none => exact ⟨rfl, h⟩
    | some agent => exact ⟨rfl, h.removeNow c a⟩

theorem drain {apply : AgentRef → World τ α → Bool × World τ α}
    (happly : ∀ {w v : World τ α} a, Alike see w v → AlikeResults see (apply a w) (apply a v))
    (h : Alike see w v) (l : List AgentRef) : AlikeResults see (w.drain apply l) (v.drain apply l) := by
  induction l generalizing w v with
  | nil => exact ⟨rfl, h⟩
  | cons a l ih =>
    obtain ⟨heffect, hfirst⟩ := happly a h
    obtain ⟨hcount, hrest⟩ := ih hfirst
    refine ⟨?_, hrest⟩
    simp only [World.drain, heffect, hcount]

theorem finishWalk (h : Alike see w v) (c : ContextRef) (inUse : Bool) :
    AlikeResults see (w.finishWalk c inUse) (v.finishWalk c inUse) := by
  have hidle : Alike see (w.modifyContext c fun ctx => { ctx with executing := false, inUse })
      (v.modifyContext c fun ctx => { ctx with executing := false, inUse }) :=
    h.modifyContext c fun _ _ => rfl
  have hdrained : AlikeResults see
      ((w.modifyContext c fun ctx => { ctx with executing := false, inUse }).drainRequests c)
      ((v.modifyContext c fun ctx => { ctx with executing := false, inUse }).drainRequests c) := by
    unfold drainRequests
    rcases hidle.context c with ⟨hw, hv⟩ | ⟨ctx, b, hw, hv⟩
    · simp only [hw, hv]
      exact ⟨rfl, hidle⟩
    · simp only [hw, hv, Context.rebased_registry]
      obtain ⟨hadded, hafter⟩ := drain (fun a h => h.drainAddition c a)
        (hidle.modifyRegistry c fun r => { r with pendingAdd := [], pendingRemove := [] })
        ctx.registry.pendingAdd
      obtain ⟨hremoved, hend⟩ := drain (fun a h => h.drainRemoval c a) hafter
        ctx.registry.pendingRemove
      exact ⟨by rw [hadded, hremoved], hend⟩
  obtain ⟨hcounts, hend⟩ := hdrained
  exact ⟨hcounts, (hend.prune c).modifyContext c fun _ _ => rfl⟩

end Alike

/-! ## Tasks -/

section Tasks

variable [Behavior τ α]

omit [Behavior τ α] in
theorem Alike.answerTaskOp (h : Alike see w v) (c : ContextRef) (op : TaskOp) :
    AlikeResults see (w.answerTaskOp c op) (v.answerTaskOp c op) := by
  cases op with
  | contextId =>
    have hid := h.context_map c (·.id) fun _ _ => rfl
    exact ⟨congrArg (fun x : Option ContextId => x.getD .invalid) hid, h⟩
  | clock =>
    have hclock := h.context_map c (·.clock) fun _ _ => rfl
    exact ⟨congrArg (fun x : Option Clock => x.getD {}) hclock, h⟩
  | isExecuting =>
    refine ⟨?_, h⟩
    have hx := h.context_map c (·.executing) fun _ _ => rfl
    have hany (x : Option Context) : x.any (·.executing) = (x.map (·.executing)).any id := by
      cases x <;> rfl
    simp only [World.answerTaskOp]
    rw [hany, hx, ← hany]
  | add a => exact ⟨rfl, h.addAgent c a⟩
  | remove a => exact ⟨rfl, h.removeAgent c a⟩
  | bind name a => exact h.bind c name a
  | unbind name => exact h.unbind c name
  | lookup name => exact ⟨h.lookup c name, h⟩
  | getStatic cls name => exact ⟨h.getStatic c cls name, h⟩
  | setStatic cls name x => exact h.setStatic c cls name x

theorem Alike.loadTask (h : Alike see w v) (a : AgentRef) (state : Json) :
    AlikeResults see (w.loadTask a state) (v.loadTask a state) := by
  unfold World.loadTask
  rw [h.live? a]
  cases w.live? a with
  | none => exact ⟨rfl, h⟩
  | some agent =>
    simp only
    split
    · exact ⟨rfl, h⟩
    · exact ⟨rfl, h.modifyAgent a _⟩

/-- Tasks do not tell the two worlds apart, as far as they run inside each other. -/
def Impartial (see : α → σ) (nested : Nested τ α) : Prop :=
  ∀ {w v : World τ α} (c : ContextRef) (a : AgentRef), Alike see w v →
    AlikeResults see (nested.exec c a w) (nested.exec c a v)

/-- A harmless request is answered alike. -/
theorem Alike.answer {nested : Nested τ α} (hn : Impartial see nested) (h : Alike see w v)
    (c : ContextRef) {r : Request τ α} (hr : r.Harmless see) :
    r.SameAnswer see (v.answer nested c r).1 (w.answer nested c r).1 ∧
      Alike see (w.answer nested c r).2 (v.answer nested c r).2 := by
  cases r with
  | here op =>
    cases op with
    | task op => exact h.answerTaskOp c op
    | _ => exact hr.elim
  | there | dropContext => exact hr.elim
  | create g =>
    refine ⟨?_, ?_, h.contexts, h.app⟩
    · exact congrArg (fun agents => (⟨agents.size⟩ : AgentRef)) h.agents
    · simp only [World.answer, create, h.agents]
  | disown a => exact ⟨rfl, h.modifyAgent a _⟩
  | view a =>
    refine ⟨?_, h⟩
    show (v.live? a).map Agent.view = (w.live? a).map Agent.view
    rw [h.live? a]
  | exec a => exact hn c a h
  | saveTask a =>
    refine ⟨?_, h⟩
    show v.saveTask a = w.saveTask a
    rw [World.saveTask, World.saveTask, h.live? a]
  | loadTask a state => exact h.loadTask a state
  | describeTask a =>
    refine ⟨?_, h⟩
    show v.describeTask a = w.describeTask a
    rw [World.describeTask, World.describeTask, h.live? a]
  | app => exact ⟨h.app, h⟩
  | setApp f => exact ⟨rfl, h.agents, h.contexts, hr _ _ h.app⟩
  | report e => exact ⟨rfl, h.report e e⟩

theorem Alike.run {nested : Nested τ α} (hn : Impartial see nested) (c : ContextRef) {β : Type}
    (p : Prog τ α β) (hp : p.Unaware see) (h : Alike see w v) :
    AlikeResults see (p.run nested c w) (p.run nested c v) := by
  induction p generalizing w v with
  | done b => exact ⟨rfl, h⟩
  | call r k ih =>
    obtain ⟨hr, hsame, hk⟩ := hp
    obtain ⟨hanswer, hafter⟩ := h.answer hn c hr
    simp only [Prog.run]
    rw [hsame _ _ hanswer]
    exact ih _ (hk _) hafter

variable (tasks : ∀ (a : AgentRef) (t : τ), (Behavior.exec a t : Prog τ α _).Unaware see)

include tasks

theorem Alike.runTask {nested : Nested τ α} (hn : Impartial see nested) (c : ContextRef)
    (a : AgentRef) (h : Alike see w v) :
    AlikeResults see (w.runTask nested c a) (v.runTask nested c a) := by
  cases hl : w.live? a with
  | none =>
    simp only [World.runTask, h.live? a, hl]
    exact ⟨rfl, h⟩
  | some agent =>
    have hl' : v.live? a = some agent := (h.live? a).trans hl
    cases hr : agent.running with
    | true =>
      simp only [World.runTask, hl, hl', hr, if_true]
      exact ⟨rfl, h⟩
    | false =>
      have hstart : Alike see (w.startTask a) (v.startTask a) := h.modifyAgent a _
      obtain ⟨hresult, hafter⟩ := Alike.run hn c _ (tasks a agent.task) hstart
      rw [runTask_eq hl hr, runTask_eq hl' hr]
      generalize (Behavior.exec a agent.task).run nested c (w.startTask a) = x at hresult hafter
      generalize (Behavior.exec a agent.task).run nested c (v.startTask a) = y at hresult hafter
      obtain ⟨⟨status, task⟩, u⟩ := x
      obtain ⟨⟨status', task'⟩, u'⟩ := y
      cases hresult
      exact ⟨rfl, hafter.modifyAgent a _⟩

theorem Alike.visit {nested : Nested τ α} (hn : Impartial see nested) (c : ContextRef)
    (a : AgentRef) (h : Alike see w v) :
    AlikeResults see (w.visit nested c a) (v.visit nested c a) := by
  obtain ⟨hstatus, hafter⟩ := Alike.runTask tasks hn c a h
  unfold World.visit
  rw [h.alive]
  split
  · exact ⟨rfl, h⟩
  · generalize w.runTask nested c a = x at hstatus hafter
    generalize v.runTask nested c a = y at hstatus hafter
    obtain ⟨status, u⟩ := x
    obtain ⟨status', u'⟩ := y
    obtain rfl : status' = status := hstatus
    cases status' with
    | some status => exact ⟨rfl, hafter⟩
    | none => exact ⟨rfl, hafter.report _ _⟩

theorem Alike.walk {nested : Nested τ α} (hn : Impartial see nested) (c : ContextRef)
    (l : List AgentRef) (h : Alike see w v) :
    AlikeResults see (w.walk nested c l) (v.walk nested c l) := by
  induction l generalizing w v with
  | nil => exact ⟨rfl, h⟩
  | cons a l ih =>
    obtain ⟨hvisit, hafter⟩ := Alike.visit tasks hn c a h
    obtain ⟨hrest, hend⟩ := ih hafter
    exact ⟨congrArg₂ List.cons hvisit hrest, hend⟩

omit tasks [Behavior τ α] in
theorem Alike.tickReport (h : Alike see w v) (c : ContextRef) (visits : List Visit)
    (counts : Nat × Nat) : World.tickReport visits counts c v = World.tickReport visits counts c w := by
  rw [World.tickReport, World.tickReport, h.frames c]

/-- A tick does the same in both worlds. -/
theorem tickWith_alike {nested : Nested τ α} (hn : Impartial see nested) (c : ContextRef)
    (h : Alike see w v) : AlikeResults see (w.tickWith nested c) (v.tickWith nested c) := by
  rcases h.context c with ⟨hw, hv⟩ | ⟨ctx, b, hw, hv⟩
  · simp only [tickWith, hw, hv]
    exact ⟨rfl, h⟩
  · cases hx : ctx.executing with
    | true =>
      simp only [tickWith, hw, hv, Context.rebased_executing, hx, if_true]
      exact ⟨rfl, h.report _ _⟩
    | false =>
      rw [tickWith_eq hw hx, tickWith_eq hv hx]
      have hstart : Alike see (w.startWalk c) (v.startWalk c) :=
        h.modifyContext c fun _ _ => rfl
      obtain ⟨hvisits, hend⟩ := Alike.walk tasks hn c ctx.registry.walkOrder hstart
      obtain ⟨hcounts, hfinished⟩ := hend.finishWalk c ctx.inUse
      simp only [Context.rebased_registry, Context.rebased_inUse, hvisits, hcounts,
        hfinished.tickReport c]
      exact ⟨rfl, hfinished.report _ _⟩

theorem impartial_nested (n : Nat) : Impartial see (nested n : Nested τ α) := by
  induction n with
  | zero => exact fun _ _ h => ⟨rfl, h⟩
  | succ n ih => exact fun c a h => Alike.runTask tasks ih c a h

theorem tick_alike (c : ContextRef) (h : Alike see w v) :
    AlikeResults see (w.tick c) (v.tick c) :=
  tickWith_alike tasks (impartial_nested tasks nestingLimit) c h

end Tasks

/-! ## Logs -/

section Logs

variable {sink : Sink α}

theorem live_logClasses (hs : sink.Unseen see) (context : ContextId) (frame : UInt64)
    (classes : List String) (sent : Nat) (s : Statics) (g : Host α) :
    (Statics.logClasses context frame sink classes sent s g).2.1.live = s.live ∧
      see (Statics.logClasses context frame sink classes sent s g).2.2.app = see g.app := by
  induction classes generalizing sent s g with
  | nil => exact ⟨rfl, rfl⟩
  | cons cls classes ih =>
    rw [Statics.logClasses]
    split
    · exact ih sent s g
    · next change changes _ =>
      have hsent := hs (.statics context frame cls (change :: changes)) g
      generalize sink (.statics context frame cls (change :: changes)) g = r at hsent
      obtain ⟨result, g'⟩ := r
      cases result with
      | error e => exact ⟨rfl, hsent⟩
      | ok =>
        obtain ⟨hlive, happ⟩ := ih (sent + (changes.length + 1)) (s.commit cls) g'
        exact ⟨hlive, happ.trans hsent⟩

theorem live_log (hs : sink.Unseen see) (s : Statics) (context : ContextId) (frame : UInt64)
    (cls : Option String) (g : Host α) :
    (s.log context frame cls sink g).2.1.live = s.live ∧
      see (s.log context frame cls sink g).2.2.app = see g.app :=
  live_logClasses hs context frame _ 0 s g

/-- A log of static variables changes baselines only. -/
theorem logStatics_alike (hs : sink.Unseen see) (w : World τ α) (c : ContextRef)
    (cls : Option String) : Alike see w (w.logStatics c cls sink).2 := by
  unfold logStatics
  cases hc : w.context? c with
  | none => exact .refl w
  | some ctx =>
    simp only
    split
    · exact .refl w
    · obtain ⟨hlive, happ⟩ := live_log hs ctx.statics ctx.id ctx.clock.frames cls w.host
      refine Alike.host ((Alike.refl w).rebase c fun ctx' hctx => ?_) happ
      rw [hc] at hctx
      cases hctx
      simp only [Context.unlogged, Statics.clearBaselines, hlive]

variable [Behavior τ α]

theorem logAgents_alike (hs : sink.Unseen see) (ctx : Context) (l : List AgentRef) (sent : Nat)
    (w : World τ α) : Alike see w (logAgents ctx sink l sent w).2 := by
  induction l generalizing sent w with
  | nil => exact .refl w
  | cons a l ih =>
    rw [logAgents]
    split
    · exact ih sent w
    · next agent _ =>
      simp only
      have hsent := hs (.state ctx.id ctx.clock.frames agent.place.id agent.cls agent.name
        (w.describeTask a)) w.host
      generalize sink (.state ctx.id ctx.clock.frames agent.place.id agent.cls agent.name
        (w.describeTask a)) w.host = r at hsent
      obtain ⟨result, g⟩ := r
      have hafter : Alike see w { w with host := g } := (Alike.refl w).host hsent
      cases result with
      | error e => exact hafter
      | ok => exact hafter.trans (ih _ _)

/-- So does a log of states. -/
theorem logState_alike (hs : sink.Unseen see) (w : World τ α) (c : ContextRef) :
    Alike see w (w.logState c sink).2 := by
  unfold logState
  cases hc : w.context? c with
  | none => exact .refl w
  | some ctx =>
    simp only
    have hagents := logAgents_alike hs ctx (w.handles ctx.registry) 0 w
    generalize logAgents ctx sink (w.handles ctx.registry) 0 w = r at hagents
    obtain ⟨result, u⟩ := r
    cases result with
    | error e => exact hagents
    | ok n =>
      have hstatics := hagents.trans (logStatics_alike hs u c none)
      simp only
      generalize u.logStatics c none sink = r at hstatics
      obtain ⟨result, u'⟩ := r
      cases result with
      | error e => exact hstatics
      | ok m => exact hstatics

end Logs

end World

end AgentScheduler
