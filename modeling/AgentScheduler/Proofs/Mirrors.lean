/-
Worlds that differ in the application's state only. What an operation does to
contexts and agents does not depend on that state, unless it hands records to a
receiver or lets tasks look (`answerTaskOp_withApp`, `load_withApp` and the rest).
So worlds that mirror each other up to a relation of the two states (`Mirrors`)
still do after it, with the same result.
-/
import AgentScheduler.Proofs.WorldFacts
import AgentScheduler.Tick

namespace AgentScheduler

variable {τ α β : Type}

/-- The world with another state of the application. -/
def World.withApp (w : World τ α) (b : α) : World τ α :=
  { w with host := { w.host with app := b } }

/-- The same result, in the world with another state of the application. -/
abbrev World.carry (b : α) (x : β × World τ α) : β × World τ α := (x.1, x.2.withApp b)

namespace World

/-! ## Operations with another state of the application -/

section Elementary

variable (w : World τ α) (b : α) (c : ContextRef) (a : AgentRef)

theorem withApp_ite (p : Prop) [Decidable p] (v w : World τ α) :
    (if p then v else w).withApp b = if p then v.withApp b else w.withApp b :=
  apply_ite (fun w : World τ α => w.withApp b) p v w

theorem carry_ite (p : Prop) [Decidable p] (x y : β × World τ α) :
    carry b (if p then x else y) = if p then carry b x else carry b y :=
  apply_ite (carry b) p x y

@[simp] theorem context?_withApp : (w.withApp b).context? c = w.context? c := rfl

@[simp] theorem live?_withApp : (w.withApp b).live? a = w.live? a := rfl

@[simp] theorem alive_withApp : (w.withApp b).alive = w.alive := rfl

@[simp] theorem modifyContext_withApp (f : Context → Context) :
    (w.withApp b).modifyContext c f = (w.modifyContext c f).withApp b := rfl

@[simp] theorem modifyRegistry_withApp (f : Registry → Registry) :
    (w.withApp b).modifyRegistry c f = (w.modifyRegistry c f).withApp b := rfl

@[simp] theorem setPlace_withApp (place : Registration) :
    (w.withApp b).setPlace a place = (w.setPlace a place).withApp b := rfl

@[simp] theorem report_withApp (e : Event) :
    (w.withApp b).report e = (w.report e).withApp b := rfl

@[simp] theorem insertNow_withApp :
    (w.withApp b).insertNow c a = (w.insertNow c a).withApp b := by
  simp only [insertNow, context?_withApp, live?_withApp]
  split
  · split <;> rfl
  · rfl

theorem foldl_report_withApp (f : String → Event) (names : List String) :
    names.foldl (fun w name => w.report (f name)) (w.withApp b) =
      (names.foldl (fun w name => w.report (f name)) w).withApp b := by
  induction names generalizing w with
  | nil => rfl
  | cons name names ih => exact ih (w.report (f name))

@[simp] theorem removeNow_withApp :
    (w.withApp b).removeNow c a = (w.removeNow c a).withApp b := by
  simp only [removeNow, context?_withApp, live?_withApp]
  split
  · split
    · split
      · rfl
      · simp only [modifyRegistry_withApp, foldl_report_withApp, setPlace_withApp, report_withApp]
    · rfl
  · rfl

@[simp] theorem addAgent_withApp :
    (w.withApp b).addAgent c a = (w.addAgent c a).withApp b := by
  simp only [addAgent, context?_withApp, live?_withApp]
  split
  · split
    · rfl
    · exact insertNow_withApp w b c a
  · rfl

@[simp] theorem removeAgent_withApp :
    (w.withApp b).removeAgent c a = (w.removeAgent c a).withApp b := by
  simp only [removeAgent, context?_withApp, live?_withApp]
  split
  · split
    · rfl
    · exact removeNow_withApp w b c a
  · rfl

@[simp] theorem prune_withApp : (w.withApp b).prune c = (w.prune c).withApp b := by
  simp only [prune, context?_withApp, alive_withApp]
  split
  · rfl
  · rw [withApp_ite]
    rfl

@[simp] theorem clearPlaces_withApp (r : Registry) :
    (w.withApp b).clearPlaces r = (w.clearPlaces r).withApp b := by
  unfold clearPlaces
  generalize r.walkOrder = l
  induction l generalizing w with
  | nil => rfl
  | cons a l ih =>
    rw [List.foldl_cons, List.foldl_cons, ← ih, withApp_ite]
    rfl

@[simp] theorem clearRegistry_withApp :
    (w.withApp b).clearRegistry c = (w.clearRegistry c).withApp b := by
  simp only [clearRegistry, context?_withApp, clearPlaces_withApp, modifyRegistry_withApp]
  split <;> rfl

@[simp] theorem release_withApp : (w.withApp b).release c = (w.release c).withApp b := by
  simp only [release, context?_withApp, clearRegistry_withApp, modifyContext_withApp,
    report_withApp]
  split <;> rfl

@[simp] theorem dropContext_withApp :
    (w.withApp b).dropContext c = (w.dropContext c).withApp b := by
  simp only [dropContext, clearRegistry_withApp]
  rfl

theorem bind_withApp (name : String) :
    (w.withApp b).bind c name a = carry b (w.bind c name a) := by
  have hfault (ctx : Context) (agent : Agent τ) :
      (w.withApp b).bindFault? ctx name a agent = w.bindFault? ctx name a agent := rfl
  simp only [bind, context?_withApp, live?_withApp, hfault]
  split
  · split
    · rfl
    · split <;> rfl
  · rfl

theorem unbind_withApp (name : String) :
    (w.withApp b).unbind c name = carry b (w.unbind c name) := by
  simp only [unbind, context?_withApp, alive_withApp]
  split
  · rfl
  · rw [carry_ite]
    rfl

theorem setStatic_withApp (cls name : String) (v : Value) :
    (w.withApp b).setStatic c cls name v = carry b (w.setStatic c cls name v) := by
  simp only [setStatic, context?_withApp]
  split
  · rfl
  · split <;> rfl

theorem answerTaskOp_withApp [Behavior τ α] (op : TaskOp) :
    (w.withApp b).answerTaskOp c op = carry b (w.answerTaskOp c op) := by
  cases op with
  | contextId | clock | isExecuting | lookup | getStatic => rfl
  | add a => exact congrArg (Prod.mk ()) (addAgent_withApp w b c a)
  | remove a => exact congrArg (Prod.mk ()) (removeAgent_withApp w b c a)
  | bind name a => exact bind_withApp w b c a name
  | unbind name => exact unbind_withApp w b c name
  | setStatic cls name v => exact setStatic_withApp w b c cls name v

end Elementary

section Behavior

variable [Behavior τ α] (w : World τ α) (b : α) (c : ContextRef) (a : AgentRef)

/-! ## Saving and loading -/

theorem loadTask_withApp (state : Json) :
    (w.withApp b).loadTask a state = carry b (w.loadTask a state) := by
  simp only [loadTask, live?_withApp]
  split
  · rfl
  · rw [carry_ite]
    rfl

theorem rollBack_withApp (done : List (AgentRef × Json)) :
    rollBack done (w.withApp b) = (rollBack done w).withApp b := by
  induction done generalizing w with
  | nil => rfl
  | cons x done ih =>
    obtain ⟨a, before⟩ := x
    simp only [rollBack, loadTask_withApp]
    cases w.loadTask a before with
    | mk result v =>
      cases result with
      | ok => exact ih v
      | error e => exact ih (v.report _)

theorem restore_withApp (targets done : List (AgentRef × Json)) :
    restore targets done (w.withApp b) = carry b (restore targets done w) := by
  induction targets generalizing done w with
  | nil => rfl
  | cons x targets ih =>
    obtain ⟨a, state⟩ := x
    have hsave : (w.withApp b).saveTask a = w.saveTask a := rfl
    simp only [restore, hsave, loadTask_withApp, rollBack_withApp]
    cases w.saveTask a with
    | error e => rfl
    | ok before =>
      cases w.loadTask a state with
      | mk result v =>
        cases result with
        | ok => exact ih v _
        | error e => exact congrArg (Prod.mk _) (rollBack_withApp v b done)

theorem save_withApp : (w.withApp b).save c = carry b (w.save c) := by
  have hsave (l : List AgentRef) : (w.withApp b).saveAgents l = w.saveAgents l := rfl
  have hhandles (r : Registry) : (w.withApp b).handles r = w.handles r := rfl
  simp only [save, context?_withApp, hsave, hhandles]
  split
  · rfl
  · split
    · rfl
    · split <;> rfl

theorem load_withApp (s : Snapshot) : (w.withApp b).load c s = carry b (w.load c s) := by
  have hresolve (ctx : Context) : (w.withApp b).resolveAll ctx s = w.resolveAll ctx s := rfl
  simp only [load, context?_withApp, hresolve, restore_withApp]
  split
  · rfl
  · split
    · rfl
    · split
      · rfl
      · next named targets _ =>
        cases restore targets [] w with
        | mk result v => cases result <;> rfl

end Behavior

section Walks

variable (w : World τ α) (b : α) (c : ContextRef) (a : AgentRef)

/-! ## The end of a walk -/

theorem drainAddition_withApp :
    drainAddition c a (w.withApp b) = carry b (drainAddition c a w) := by
  simp only [drainAddition, context?_withApp, live?_withApp, insertNow_withApp]
  split
  · split
    · rfl
    · rfl
    · refine congrArg (Prod.mk false) ?_
      rw [withApp_ite]
      rfl
  · rfl

theorem drainRemoval_withApp :
    drainRemoval c a (w.withApp b) = carry b (drainRemoval c a w) := by
  simp only [drainRemoval, context?_withApp, live?_withApp, removeNow_withApp]
  split <;> rfl

theorem drain_withApp {apply : AgentRef → World τ α → Bool × World τ α}
    (h : ∀ a w, apply a (w.withApp b) = carry b (apply a w)) (l : List AgentRef) :
    (w.withApp b).drain apply l = carry b (w.drain apply l) := by
  induction l generalizing w with
  | nil => rfl
  | cons a l ih => simp only [drain, h, ih]

theorem drainRequests_withApp : (w.withApp b).drainRequests c = carry b (w.drainRequests c) := by
  simp only [drainRequests, context?_withApp, modifyRegistry_withApp,
    drain_withApp _ b (fun a w => drainAddition_withApp w b c a),
    drain_withApp _ b (fun a w => drainRemoval_withApp w b c a)]
  split <;> rfl

theorem finishWalk_withApp (inUse : Bool) :
    (w.withApp b).finishWalk c inUse = carry b (w.finishWalk c inUse) := by
  simp only [finishWalk, modifyContext_withApp, drainRequests_withApp, prune_withApp]

end Walks

/-! ## Worlds that mirror each other -/

end World

/-- The same reports, and related states of the application. -/
structure Host.Mirrors (R : α → α → Prop) (h g : Host α) : Prop where
  events : g.events = h.events
  app : R h.app g.app

/-- The same agents, contexts and reports, and related states of the application. -/
structure World.Mirrors (R : α → α → Prop) (w v : World τ α) : Prop where
  agents : v.agents = w.agents
  contexts : v.contexts = w.contexts
  host : w.host.Mirrors R v.host

/-- The same result, in worlds that mirror each other. -/
def World.MirrorsResult (R : α → α → Prop) (x y : β × World τ α) : Prop :=
  y.1 = x.1 ∧ x.2.Mirrors R y.2

theorem World.MirrorsResult.parts {R : α → α → Prop} {x y : β × World τ α}
    (h : MirrorsResult R x y) : ∃ b w v, x = (b, w) ∧ y = (b, v) ∧ w.Mirrors R v :=
  ⟨x.1, x.2, y.2, rfl, Prod.ext h.1 rfl, h.2⟩

namespace World.Mirrors

variable {R : α → α → Prop} {w v : World τ α}

theorem context? (h : w.Mirrors R v) (c : ContextRef) : v.context? c = w.context? c := by
  rw [World.context?, World.context?, h.contexts]

theorem live? (h : w.Mirrors R v) (a : AgentRef) : v.live? a = w.live? a := by
  rw [World.live?, World.live?, World.agent?, World.agent?, h.agents]

theorem alive (h : w.Mirrors R v) : v.alive = w.alive := by
  funext a
  rw [World.alive, World.alive, h.live? a]

theorem eq_withApp (h : w.Mirrors R v) : v = w.withApp v.host.app := by
  obtain ⟨hagents, hcontexts, hevents, -⟩ := h
  obtain ⟨_, _, _, _⟩ := v
  cases hagents
  cases hcontexts
  cases hevents
  rfl

theorem withApp {b : α} (h : R w.host.app b) : w.Mirrors R (w.withApp b) := ⟨rfl, rfl, rfl, h⟩

/-- What does not depend on the state of the application has the same result. -/
theorem result (h : w.Mirrors R v) (f : World τ α → β × World τ α)
    (hf : ∀ w b, f (w.withApp b) = carry b (f w)) : MirrorsResult R (f w) (f v) := by
  have happ : (f w).2.host.app = w.host.app := congrArg (·.2.host.app) (hf w w.host.app)
  rw [h.eq_withApp, hf]
  refine ⟨rfl, withApp ?_⟩
  rw [happ]
  exact h.host.app

theorem change (h : w.Mirrors R v) (f : World τ α → World τ α)
    (hf : ∀ w b, f (w.withApp b) = (f w).withApp b) : (f w).Mirrors R (f v) :=
  (h.result (fun w => ((), f w)) fun w b => congrArg (Prod.mk ()) (hf w b)).2

theorem changeHost (h : w.Mirrors R v) {h' g' : Host α} (hhost : h'.Mirrors R g') :
    ({ w with host := h' } : World τ α).Mirrors R { v with host := g' } :=
  ⟨h.agents, h.contexts, hhost⟩

theorem report (h : w.Mirrors R v) (e : Event) : (w.report e).Mirrors R (v.report e) :=
  h.change (·.report e) fun _ _ => rfl

theorem modifyContext (h : w.Mirrors R v) (c : ContextRef) (f : Context → Context) :
    (w.modifyContext c f).Mirrors R (v.modifyContext c f) :=
  h.change (·.modifyContext c f) fun _ _ => rfl

end World.Mirrors

end AgentScheduler
