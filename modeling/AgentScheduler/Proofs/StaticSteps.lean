/-
What operations make of the static variables of contexts. `World.valuation`
shows nothing else of a world, so what leaves it alone leaves them alone; the
six operations that do not are one `Statics.Step` of their context each
(`answerContextOp_turns`).
-/
import AgentScheduler.Proofs.Batches
import AgentScheduler.Proofs.Moments

namespace AgentScheduler

/-- The declared classes and the static variables of a context. -/
def Context.valuation (ctx : Context) : Hierarchy × Statics := (ctx.types, ctx.statics)

/-- The context after a load: with the names found, and the values and the time of the snapshot. -/
def Context.reloaded (s : Snapshot) (named : SortedMap String AgentRef) (ctx : Context) : Context :=
  { ctx with
    registry := { ctx.registry with named }
    statics := { live := s.values, baselines := s.baselines }
    clock := { ctx.clock with
      frames := s.clock.frames
      elapsedMillis := s.clock.elapsedMillis } }

namespace World

variable {τ α : Type} {w v u : World τ α} {c c' : ContextRef} {a : AgentRef} {told : List Told}

/-- The declared classes and the static variables of all contexts. -/
def valuation (w : World τ α) : Array (Option (Hierarchy × Statics)) :=
  w.contexts.map (·.map Context.valuation)

/-! ## What leaves static variables alone -/

theorem context?_valuation (w : World τ α) (c : ContextRef) :
    (w.context? c).map Context.valuation = w.valuation[c.index]?.join := by
  rw [context?, valuation, Array.getElem?_map]
  cases w.contexts[c.index]? <;> rfl

theorem valuation_modify (f : Option Context → Option Context)
    (g : Option (Hierarchy × Statics) → Option (Hierarchy × Statics))
    (hf : ∀ x, (f x).map Context.valuation = g (x.map Context.valuation)) (c : ContextRef) :
    (w.contexts.modify c.index f).map (·.map Context.valuation) =
      w.valuation.modify c.index g := by
  refine Array.ext_getElem? fun i => ?_
  simp only [valuation, Array.getElem?_map, Array.getElem?_modify]
  split
  · rw [Option.map_map, Option.map_map]
    congr 1
    exact funext hf
  · rfl

theorem valuation_modifyContext {f : Context → Context}
    (hf : ∀ ctx, (f ctx).valuation = ctx.valuation) :
    (w.modifyContext c f).valuation = w.valuation := by
  refine (valuation_modify (·.map f) id (fun x => ?_) c).trans ?_
  · rw [Option.map_map, id]
    congr 1
    exact funext hf
  · refine Array.ext_getElem? fun i => ?_
    rw [Array.getElem?_modify, Option.map_id]
    exact ite_self _

section Silent

@[simp] theorem valuation_modifyRegistry (f : Registry → Registry) :
    (w.modifyRegistry c f).valuation = w.valuation := valuation_modifyContext fun _ => rfl

@[simp] theorem valuation_modifyAgent (f : Agent τ → Agent τ) :
    (w.modifyAgent a f).valuation = w.valuation := rfl

@[simp] theorem valuation_setPlace (place : Registration) :
    (w.setPlace a place).valuation = w.valuation := rfl

@[simp] theorem valuation_report (e : Event) : (w.report e).valuation = w.valuation := rfl

@[simp] theorem valuation_host (h : Host α) : { w with host := h }.valuation = w.valuation := rfl

@[simp] theorem valuation_insertNow : (w.insertNow c a).valuation = w.valuation := by
  unfold insertNow
  split
  · split <;> simp
  · rfl

@[simp] theorem valuation_reports (f : String → Event) (names : List String) :
    (names.foldl (fun w name => w.report (f name)) w).valuation = w.valuation := by
  induction names generalizing w with
  | nil => rfl
  | cons name names ih => rw [List.foldl_cons, ih, valuation_report]

@[simp] theorem valuation_removeNow : (w.removeNow c a).valuation = w.valuation := by
  unfold removeNow
  split
  · split
    · split <;> simp
    · rfl
  · rfl

@[simp] theorem valuation_addAgent : (w.addAgent c a).valuation = w.valuation := by
  unfold addAgent
  split
  · split <;> simp
  · rfl

@[simp] theorem valuation_removeAgent : (w.removeAgent c a).valuation = w.valuation := by
  unfold removeAgent
  split
  · split <;> simp
  · rfl

@[simp] theorem valuation_prune : (w.prune c).valuation = w.valuation := by
  unfold prune
  split
  · rfl
  · simp only
    split <;> simp

@[simp] theorem valuation_clearPlaces (r : Registry) : (w.clearPlaces r).valuation = w.valuation := by
  rw [clearPlaces]
  generalize r.walkOrder = l
  induction l generalizing w with
  | nil => rfl
  | cons a l ih =>
    rw [List.foldl_cons, ih]
    split <;> rfl

@[simp] theorem valuation_clearRegistry : (w.clearRegistry c).valuation = w.valuation := by
  unfold clearRegistry
  split
  · rfl
  · simp

@[simp] theorem valuation_bind (name : String) : (w.bind c name a).2.valuation = w.valuation := by
  unfold bind
  split
  · split
    · rfl
    · split <;> simp
  · rfl

@[simp] theorem valuation_unbind (name : String) : (w.unbind c name).2.valuation = w.valuation := by
  unfold unbind
  split
  · rfl
  · simp only
    split <;> simp

@[simp] theorem valuation_drainAddition : (w.drainAddition c a).2.valuation = w.valuation := by
  unfold drainAddition
  split
  · simp only
    split
    · simp
    · simp
    · split <;> simp
  · rfl

@[simp] theorem valuation_drainRemoval : (w.drainRemoval c a).2.valuation = w.valuation := by
  unfold drainRemoval
  split <;> simp

theorem valuation_drain {apply : AgentRef → World τ α → Bool × World τ α}
    (h : ∀ a w, (apply a w).2.valuation = w.valuation) (l : List AgentRef) :
    (w.drain apply l).2.valuation = w.valuation := by
  induction l generalizing w with
  | nil => rfl
  | cons a l ih =>
    simp only [drain]
    rw [ih, h]

@[simp] theorem valuation_drainRequests : (w.drainRequests c).2.valuation = w.valuation := by
  unfold drainRequests
  split
  · rfl
  · simp only
    rw [valuation_drain fun a w => valuation_drainRemoval,
      valuation_drain fun a w => valuation_drainAddition, valuation_modifyRegistry]

@[simp] theorem valuation_startWalk : (w.startWalk c).valuation = w.valuation :=
  valuation_modifyContext fun _ => rfl

@[simp] theorem valuation_finishWalk (inUse : Bool) :
    (w.finishWalk c inUse).2.valuation = w.valuation := by
  simp only [finishWalk]
  have hclock := valuation_modifyContext (w := (((w.modifyContext c fun ctx =>
    { ctx with executing := false, inUse }).drainRequests c).2.prune c)) (c := c)
    (f := fun ctx => { ctx with clock := ctx.clock.advance }) fun _ => rfl
  rw [hclock, valuation_prune, valuation_drainRequests]
  exact valuation_modifyContext fun _ => rfl

variable [Behavior τ α]

@[simp] theorem valuation_loadTask (state : Json) :
    (w.loadTask a state).2.valuation = w.valuation := by
  unfold loadTask
  split
  · rfl
  · split <;> rfl

@[simp] theorem valuation_rollBack (l : List (AgentRef × Json)) :
    (rollBack l w).valuation = w.valuation := by
  induction l generalizing w with
  | nil => rfl
  | cons e l ih =>
    have hload := valuation_loadTask (w := w) (a := e.1) e.2
    rw [rollBack]
    split
    · next v hv => rw [hv] at hload; rw [ih]; exact hload
    · next e' v hv => rw [hv] at hload; rw [ih, valuation_report]; exact hload

@[simp] theorem valuation_restore (l done : List (AgentRef × Json)) :
    (restore l done w).2.valuation = w.valuation := by
  induction l generalizing w done with
  | nil => rfl
  | cons e l ih =>
    have hload := valuation_loadTask (w := w) (a := e.1) e.2
    rw [restore]
    split
    · exact valuation_rollBack done
    · split
      · next v hv => rw [hv] at hload; rw [ih]; exact hload
      · next e' v hv => rw [hv] at hload; rw [valuation_rollBack]; exact hload

@[simp] theorem valuation_save : (w.save c).2.valuation = w.valuation := by
  unfold save
  split
  · rfl
  · split
    · rfl
    · split <;> simp

end Silent

/-! ## What does not -/

/-- The static variables of one context take one step, and those of all others stay. -/
structure Turns (c : ContextRef) (told : List Told) (w v : World τ α) : Prop where
  absent : w.context? c = none → told = []
  turned : ∃ f : Statics → Statics,
    v.valuation = w.valuation.modify c.index (·.map fun (types, s) => (types, f s)) ∧
      ∀ ctx, w.context? c = some ctx → Statics.Step ctx.types ctx.statics told (f ctx.statics)

theorem Turns.silent (h : v.valuation = w.valuation) : Turns c [] w v where
  absent _ := rfl
  turned := by
    refine ⟨id, ?_, fun _ _ => .rest⟩
    rw [h]
    refine Array.ext_getElem? fun i => ?_
    rw [Array.getElem?_modify]
    split
    · simp
    · rfl

/-- A change of the static variables of a context alone. -/
theorem turns_modifyContext {ctx : Context} (f : Statics → Statics)
    (hc : w.context? c = some ctx) (h : Statics.Step ctx.types ctx.statics told (f ctx.statics))
    (g : Context → Context) (hg : ∀ ctx, (g ctx).valuation = (ctx.types, f ctx.statics)) :
    Turns c told w (w.modifyContext c g) where
  absent hn := by rw [hc] at hn; cases hn
  turned := by
    refine ⟨f, valuation_modify _ _ (fun x => ?_) c, fun ctx' hc' => ?_⟩
    · cases x with
      | none => rfl
      | some ctx => exact congrArg some (hg ctx)
    · rw [hc] at hc'
      cases hc'
      exact h

theorem Turns.of_valuation (h : Turns c told w v) (hu : u.valuation = v.valuation) :
    Turns c told w u :=
  ⟨h.absent, by obtain ⟨f, hf, hstep⟩ := h.turned; exact ⟨f, hu.trans hf, hstep⟩⟩

theorem Turns.after (h : Turns c told v u) (hc : v.context? c = w.context? c)
    (hv : v.valuation = w.valuation) : Turns c told w u where
  absent hn := h.absent (hc.trans hn)
  turned := by
    obtain ⟨f, hf, hstep⟩ := h.turned
    exact ⟨f, hv ▸ hf, fun ctx hx => hstep ctx (hc.trans hx)⟩

theorem setStatic_turns (cls name : String) (x : Value) :
    Turns c [] w (w.setStatic c cls name x).2 := by
  unfold setStatic
  split
  · exact .silent rfl
  · next ctx hc =>
    split
    · exact .silent rfl
    · next s hs =>
      exact turns_modifyContext (fun _ => s) hc (.set hs) _ fun _ => rfl

theorem clearBaselines_turns {ctx : Context} (hc : w.context? c = some ctx) :
    Turns c [.cleared] w (w.clearBaselines c) :=
  turns_modifyContext Statics.clearBaselines hc .clear _ fun _ => rfl

/-- What the receiver accepts when static variables of a context are logged. -/
def tellsLog (w : World τ α) (c : ContextRef) (cls : Option String) (sink : Sink α) : List Told :=
  match w.context? c with
  | none => []
  | some ctx =>
    match cls.filter fun cls => !ctx.types.contains cls with
    | some _ => []
    | none => ctx.statics.accepted ctx.id ctx.clock.frames cls sink w.host

theorem logStatics_turns (cls : Option String) (sink : Sink α) :
    Turns c (w.tellsLog c cls sink) w (w.logStatics c cls sink).2 := by
  unfold tellsLog logStatics
  cases hc : w.context? c with
  | none => exact .silent rfl
  | some ctx =>
    cases hcls : cls.filter fun cls => !ctx.types.contains cls with
    | some cls => simp only [hcls]; exact .silent rfl
    | none =>
      simp only [hcls]
      have hlog := Statics.log_logged ctx.statics ctx.id ctx.clock.frames cls sink w.host
      exact Turns.of_valuation (turns_modifyContext (fun _ => _) hc (.log hlog)
        (fun ctx' => { ctx' with statics := _ }) fun _ => rfl) rfl

theorem release_turns {ctx : Context} (hc : w.context? c = some ctx) :
    Turns c [.cleared] w (w.release c) := by
  have hclear : (w.clearRegistry c).context? c = some (ctx.withRegistry (·.clear)) := by
    simp only [clearRegistry, hc]
    rw [modifyRegistry, context?_modifyContext_self (by rw [context?_clearPlaces, hc])]
  have hvars : (w.release c).valuation =
      ((w.clearRegistry c).clearBaselines c).valuation := by
    simp only [release, hc]
    rfl
  obtain ⟨f, hf, hstep⟩ := (clearBaselines_turns hclear).turned
  refine ⟨fun hn => (by rw [hc] at hn; cases hn), f,
    by rw [hvars, hf, valuation_clearRegistry], fun ctx' hc' => ?_⟩
  rw [hc] at hc'
  cases hc'
  exact hstep (ctx.withRegistry (·.clear)) hclear

/-- The classes of a snapshot that is found are declared. -/
theorem resolveAll_declared {ctx : Context} {s : Snapshot}
    {found : SortedMap String AgentRef × List (AgentRef × Json)}
    (h : w.resolveAll ctx s = .ok found) :
    ∀ cls ∈ s.baselines.keys ++ s.values.keys, ctx.types.contains cls = true := by
  unfold resolveAll at h
  dsimp only at h
  split at h
  · cases h
  split at h
  · cases h
  next hfind =>
  intro cls hcls
  simpa using List.find?_eq_none.1 hfind cls hcls

section Behavior

variable [Behavior τ α]

theorem logAgents_contexts (ctx : Context) (sink : Sink α) (l : List AgentRef) (n : Nat) :
    (logAgents ctx sink l n w).2.contexts = w.contexts := by
  induction l generalizing w n with
  | nil => rfl
  | cons a l ih =>
    unfold logAgents
    split
    · exact ih n
    · simp only
      split
      · rfl
      · exact ih (n + 1)

/-- What the receiver accepts of static variables when the state of a context is logged. -/
def tellsState (w : World τ α) (c : ContextRef) (sink : Sink α) : List Told :=
  match w.context? c with
  | none => []
  | some ctx =>
    match logAgents ctx sink (w.handles ctx.registry) 0 w with
    | (.error _, _) => []
    | (.ok _, w) => w.tellsLog c none sink

theorem logState_turns (sink : Sink α) :
    Turns c (w.tellsState c sink) w (w.logState c sink).2 := by
  unfold tellsState logState
  cases hc : w.context? c with
  | none => exact .silent rfl
  | some ctx =>
    have hsame := logAgents_contexts (w := w) ctx sink (w.handles ctx.registry) 0
    have hvars : (logAgents ctx sink (w.handles ctx.registry) 0 w).2.valuation = w.valuation :=
      congrArg (·.map (·.map Context.valuation)) hsame
    have hcontext : (logAgents ctx sink (w.handles ctx.registry) 0 w).2.context? c =
        w.context? c := congrArg (·[c.index]?.join) hsame
    cases hl : logAgents ctx sink (w.handles ctx.registry) 0 w with
    | mk result v =>
      rw [hl] at hvars hcontext
      cases result with
      | error e => simp only [hl]; exact .silent hvars
      | ok n =>
        have hlog := (logStatics_turns (w := v) (c := c) none sink).after hcontext hvars
        simp only [hl]
        split
        · next u hu => rw [hu] at hlog; exact hlog
        · next m u hu => rw [hu] at hlog; exact hlog

/-- A load of nothing, a load that fails, and a load that goes through. -/
theorem load_cases (s : Snapshot) :
    (w.context? c = none ∧ w.load c s = (.ok (), w)) ∨
    (∃ e v, w.load c s = (.error e, v) ∧ SameContexts w v ∧ v.valuation = w.valuation) ∨
    ∃ ctx named targets v, w.context? c = some ctx ∧ ctx.executing = false ∧
      w.resolveAll ctx s = .ok (named, targets) ∧ restore targets [] w = (.ok (), v) ∧
      w.load c s = (.ok (), (v.modifyContext c (Context.reloaded s named)).report
        (.contextLoaded ctx.id targets.length)) := by
  unfold load
  cases hc : w.context? c with
  | none => exact .inl ⟨rfl, rfl⟩
  | some ctx =>
    refine .inr ?_
    cases hx : ctx.executing with
    | true =>
      simp only [Context.ensureIdle, hx, if_true]
      exact .inl ⟨_, w, rfl, .refl w, rfl⟩
    | false =>
      simp only [Context.ensureIdle, hx, Bool.false_eq_true, if_false, pure, Except.pure]
      cases hr : w.resolveAll ctx s with
      | error m => exact .inl ⟨_, w, rfl, .refl w, rfl⟩
      | ok found =>
        obtain ⟨named, targets⟩ := found
        have hvars := valuation_restore (w := w) targets []
        have hsame := (restore_edits (w := w) targets []).1
        cases hv : restore targets [] w with
        | mk result v =>
          rw [hv] at hvars hsame
          cases result with
          | error e => simp only [hv]; exact .inl ⟨_, v, rfl, hsame, hvars⟩
          | ok => exact .inr ⟨ctx, named, targets, v, rfl, hx, hr, hv, by simp only [hv]; rfl⟩

/-- What a receiver is told of a load. -/
def tellsLoad (w : World τ α) (c : ContextRef) (s : Snapshot) : List Told :=
  match w.context? c, (w.load c s).1 with
  | some _, .ok () => [.loaded s.baselines]
  | _, _ => []

theorem load_turns (s : Snapshot) : Turns c (w.tellsLoad c s) w (w.load c s).2 := by
  unfold tellsLoad
  rcases load_cases (w := w) (c := c) s with ⟨hc, hload⟩ | ⟨e, v, hload, -, hvars⟩ |
    ⟨ctx, named, targets, v, hc, -, hfound, hv, hload⟩
  · rw [hload, hc]
    exact .silent rfl
  · rw [hload]
    cases w.context? c <;> exact .silent hvars
  · have hvars := valuation_restore (w := w) targets []
    have hsame := (restore_edits (w := w) targets []).1 c
    rw [hv] at hvars hsame
    rw [hload, hc]
    refine Turns.after (v := v) ?_ hsame hvars
    refine Turns.of_valuation (turns_modifyContext (fun _ => _) (hsame.trans hc)
      (.replace (resolveAll_declared hfound)) (Context.reloaded s named) fun _ => rfl) rfl

/-- What a receiver is told of an operation on a context. -/
def tellsOp (w : World τ α) (c : ContextRef) : ContextOp α → List Told
  | .logStatics cls sink => w.tellsLog c cls sink
  | .logState sink => w.tellsState c sink
  | .load s => w.tellsLoad c s
  | .clearBaselines | .release => if (w.context? c).isSome then [.cleared] else []
  | _ => []

/-- Every operation that runs no task is one step of the static variables of its context. -/
theorem answerContextOp_turns (nested : Nested τ α) (op : ContextOp α) (h : op ≠ .tick) :
    Turns c (w.tellsOp c op) w (w.answerContextOp nested c op).2 := by
  cases op with
  | task op =>
    cases op with
    | contextId | clock | isExecuting | lookup | getStatic => exact .silent rfl
    | add a => exact .silent valuation_addAgent
    | remove a => exact .silent valuation_removeAgent
    | bind name a => exact .silent (valuation_bind name)
    | unbind name => exact .silent (valuation_unbind name)
    | setStatic cls name x => exact setStatic_turns cls name x
  | counts => exact .silent rfl
  | tick => exact absurd rfl h
  | save => exact .silent valuation_save
  | load s => exact load_turns s
  | release =>
    cases hc : w.context? c with
    | none => simp only [tellsOp, answerContextOp, release, hc]; exact .silent rfl
    | some ctx =>
      simp only [tellsOp, hc, Option.isSome_some, if_true]
      exact release_turns hc
  | logStatics cls sink => exact logStatics_turns cls sink
  | logState sink => exact logState_turns sink
  | clearBindings => exact .silent (valuation_modifyRegistry _)
  | clearBaselines =>
    cases hc : w.context? c with
    | none =>
      simp only [tellsOp, answerContextOp, hc]
      refine ⟨fun _ => rfl, Statics.clearBaselines, valuation_modify _ _ (fun x => ?_) c, ?_⟩
      · cases x <;> rfl
      · intro ctx hx; rw [hc] at hx; cases hx
    | some ctx =>
      simp only [tellsOp, hc, Option.isSome_some, if_true]
      exact clearBaselines_turns hc
  | setClock f => exact .silent (valuation_modifyContext fun _ => rfl)

end Behavior

end World

end AgentScheduler
