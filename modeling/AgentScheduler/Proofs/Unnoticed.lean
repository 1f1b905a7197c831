/-
Logs, snapshots and the end of a walk do not notice what is left of agents that
are gone. In coherent worlds that are the same but for leftovers an operation
other than a tick has the same answer (`answerContextOp`), and what comes after
the walk of a tick is the same too and leaves nothing of them (`finishWalk`).
-/
import AgentScheduler.Proofs.Veil

namespace AgentScheduler

namespace Statics

variable {α : Type} {sink : Sink α} (hsink : sink.Plain) {g g' : Host α} (context : ContextId)
  (frame : UInt64)

include hsink

theorem logClasses_shown (classes : List String) (sent : Nat) (s : Statics)
    (h : g'.shown = g.shown) :
    (logClasses context frame sink classes sent s g').1 =
        (logClasses context frame sink classes sent s g).1 ∧
      (logClasses context frame sink classes sent s g').2.1 =
        (logClasses context frame sink classes sent s g).2.1 ∧
      (logClasses context frame sink classes sent s g').2.2.shown =
        (logClasses context frame sink classes sent s g).2.2.shown := by
  induction classes generalizing sent s g g' with
  | nil => exact ⟨rfl, rfl, h⟩
  | cons cls classes ih =>
    rw [logClasses, logClasses]
    split
    · exact ih sent s h
    · next change changes _ =>
      obtain ⟨hresult, hshown⟩ := hsink (.statics context frame cls (change :: changes)) g g' h
      generalize sink (.statics context frame cls (change :: changes)) g = x at hresult hshown
      generalize sink (.statics context frame cls (change :: changes)) g' = y at hresult hshown
      obtain ⟨result, k⟩ := x
      obtain ⟨result', k'⟩ := y
      obtain rfl : result' = result := hresult
      cases result' with
      | error e => exact ⟨rfl, rfl, hshown⟩
      | ok => exact ih _ _ hshown

/-- A log of static variables goes by what is shown of the host. -/
theorem log_shown (s : Statics) (cls : Option String) (h : g'.shown = g.shown) :
    (s.log context frame cls sink g').1 = (s.log context frame cls sink g).1 ∧
      (s.log context frame cls sink g').2.1 = (s.log context frame cls sink g).2.1 ∧
      (s.log context frame cls sink g').2.2.shown = (s.log context frame cls sink g).2.2.shown :=
  logClasses_shown hsink context frame _ 0 s h

end Statics

namespace World

variable {τ α : Type} {gone : ContextRef → AgentRef → Bool} {w v u : World τ α}
  {c d : ContextRef} {a : AgentRef} {ctx : Context} {r : Registry} {agent : Agent τ}

namespace Veiled

/-! ## Logs -/

section Logs

variable {sink : Sink α} (hsink : sink.Plain)

include hsink

theorem logStatics (h : Veiled gone w v) (d : ContextRef) (cls : Option String) :
    VeiledResults gone (w.logStatics d cls sink) (v.logStatics d cls sink) := by
  unfold World.logStatics
  rcases h.context d with ⟨hc, hc'⟩ | ⟨ctx, r, hc, hc', -⟩
  · simp only [hc, hc']
    exact ⟨rfl, h⟩
  · simp only [hc, hc', Context.seated_types, Context.seated_statics, Context.seated_id,
      Context.seated_clock]
    cases cls.filter fun cls => !ctx.types.contains cls with
    | some cls => exact ⟨rfl, h⟩
    | none =>
      obtain ⟨hresult, hstatics, hshown⟩ := ctx.statics.log_shown hsink ctx.id ctx.clock.frames cls
        h.shown
      generalize ctx.statics.log ctx.id ctx.clock.frames cls sink w.host = x
        at hresult hstatics hshown
      generalize ctx.statics.log ctx.id ctx.clock.frames cls sink v.host = y
        at hresult hstatics hshown
      obtain ⟨result, statics, k⟩ := x
      obtain ⟨result', statics', k'⟩ := y
      obtain rfl : result' = result := hresult
      obtain rfl : statics' = statics := hstatics
      refine ⟨rfl, Veiled.host ?_ hshown⟩
      exact h.setRest d (fun _ _ => rfl) fun _ => rfl

variable [Behavior τ α]

omit hsink in
theorem describeTask (h : Veiled gone w v) (a : AgentRef) :
    v.describeTask a = w.describeTask a := by
  rw [World.describeTask, World.describeTask, h.live? a]

theorem logAgents (h : Veiled gone w v) (ctx : Context) (r : Registry) (l : List AgentRef)
    (sent : Nat) :
    VeiledResults gone (World.logAgents ctx sink l sent w)
      (World.logAgents (ctx.seated r) sink l sent v) := by
  induction l generalizing sent w v with
  | nil => exact ⟨rfl, h⟩
  | cons a l ih =>
    rw [World.logAgents, World.logAgents, h.live? a]
    cases w.live? a with
    | none => exact ih h sent
    | some agent =>
      simp only [Context.seated_id, Context.seated_clock, h.describeTask a]
      obtain ⟨hresult, hshown⟩ := hsink (.state ctx.id ctx.clock.frames agent.place.id agent.cls
        agent.name (w.describeTask a)) w.host v.host h.shown
      generalize sink (.state ctx.id ctx.clock.frames agent.place.id agent.cls agent.name
        (w.describeTask a)) w.host = x at hresult hshown
      generalize sink (.state ctx.id ctx.clock.frames agent.place.id agent.cls agent.name
        (w.describeTask a)) v.host = y at hresult hshown
      obtain ⟨result, k⟩ := x
      obtain ⟨result', k'⟩ := y
      obtain rfl : result' = result := hresult
      cases result' with
      | error e => exact ⟨rfl, h.host hshown⟩
      | ok => exact ih (h.host hshown) _

theorem logState (h : Veiled gone w v) (hw : Grounded gone w) (d : ContextRef) :
    VeiledResults gone (w.logState d sink) (v.logState d sink) := by
  unfold World.logState
  rcases h.context d with ⟨hc, hc'⟩ | ⟨ctx, r, hc, hc', hs⟩
  · simp only [hc, hc']
    exact ⟨rfl, h⟩
  · simp only [hc, hc', Context.seated_registry, h.handles hw hs]
    obtain ⟨hresult, hafter⟩ := logAgents hsink h ctx r (w.handles ctx.registry) 0
    generalize World.logAgents ctx sink (w.handles ctx.registry) 0 w = x at hresult hafter
    generalize World.logAgents (ctx.seated r) sink (w.handles ctx.registry) 0 v = y
      at hresult hafter
    obtain ⟨result, u⟩ := x
    obtain ⟨result', u'⟩ := y
    obtain rfl : result' = result := hresult
    cases result' with
    | error e => exact ⟨rfl, hafter⟩
    | ok n =>
      obtain ⟨hresult, hend⟩ := logStatics hsink hafter d none
      simp only
      generalize u.logStatics d none sink = x at hresult hend
      generalize u'.logStatics d none sink = y at hresult hend
      obtain ⟨result, u⟩ := x
      obtain ⟨result', u'⟩ := y
      obtain rfl : result' = result := hresult
      cases result' with
      | error e => exact ⟨rfl, hend⟩
      | ok m => exact ⟨rfl, hend⟩

end Logs

/-! ## Snapshots -/

section Snapshots

variable [Behavior τ α]

theorem saveTask (h : Veiled gone w v) (a : AgentRef) : v.saveTask a = w.saveTask a := by
  rw [World.saveTask, World.saveTask, h.live? a]

theorem loadTask (h : Veiled gone w v) (a : AgentRef) (state : Json) :
    VeiledResults gone (w.loadTask a state) (v.loadTask a state) := by
  unfold World.loadTask
  rw [h.live? a]
  cases w.live? a with
  | none => exact ⟨rfl, h⟩
  | some agent =>
    simp only
    split
    · exact ⟨rfl, h⟩
    · exact ⟨rfl, h.modifyAgent a _⟩

theorem save (h : Veiled gone w v) (hw : Grounded gone w) (d : ContextRef) :
    VeiledResults gone (w.save d) (v.save d) := by
  have hagents (l : List AgentRef) : v.saveAgents l = w.saveAgents l := by
    simp only [saveAgents, h.live?, h.saveTask]
  unfold World.save
  rcases h.context d with ⟨hc, hc'⟩ | ⟨ctx, r, hc, hc', hs⟩
  · simp only [hc, hc']
    exact ⟨rfl, h⟩
  · have hnamed : v.savedBindings r = w.savedBindings ctx.registry := by
      simp only [savedBindings, h.bindings hw hs, h.agent?]
    have hidle : (ctx.seated r).ensureIdle = ctx.ensureIdle := rfl
    simp only [hc, hc', hidle, Context.seated_registry, h.handles hw hs, hagents, hnamed]
    cases ctx.ensureIdle with
    | error e => exact ⟨rfl, h⟩
    | ok =>
      simp only
      cases w.saveAgents (w.handles ctx.registry) with
      | error e => exact ⟨rfl, h⟩
      | ok agents => exact ⟨rfl, h.report _⟩

theorem rollBack (h : Veiled gone w v) (l : List (AgentRef × Json)) :
    Veiled gone (World.rollBack l w) (World.rollBack l v) := by
  induction l generalizing w v with
  | nil => exact h
  | cons e l ih =>
    obtain ⟨a, before⟩ := e
    obtain ⟨hresult, hafter⟩ := h.loadTask a before
    rw [World.rollBack, World.rollBack]
    generalize w.loadTask a before = x at hresult hafter
    generalize v.loadTask a before = y at hresult hafter
    obtain ⟨result, u⟩ := x
    obtain ⟨result', u'⟩ := y
    obtain rfl : result' = result := hresult
    cases result' with
    | ok => exact ih hafter
    | error e =>
      simp only [hafter.agent? a]
      exact ih (hafter.report _)

theorem restore (h : Veiled gone w v) (l before : List (AgentRef × Json)) :
    VeiledResults gone (World.restore l before w) (World.restore l before v) := by
  induction l generalizing before w v with
  | nil => exact ⟨rfl, h⟩
  | cons e l ih =>
    obtain ⟨a, state⟩ := e
    rw [World.restore, World.restore, h.saveTask a]
    cases w.saveTask a with
    | error e => exact ⟨rfl, h.rollBack _⟩
    | ok former =>
      simp only
      obtain ⟨hresult, hafter⟩ := h.loadTask a state
      generalize w.loadTask a state = x at hresult hafter
      generalize v.loadTask a state = y at hresult hafter
      obtain ⟨result, u⟩ := x
      obtain ⟨result', u'⟩ := y
      obtain rfl : result' = result := hresult
      cases result' with
      | ok => exact ih hafter _
      | error e => exact ⟨rfl, hafter.rollBack _⟩

theorem load (h : Veiled gone w v) (hw : Grounded gone w) (hv : Grounded gone v) (d : ContextRef)
    (s : Snapshot) : VeiledResults gone (w.load d s) (v.load d s) := by
  unfold World.load
  rcases h.context d with ⟨hc, hc'⟩ | ⟨ctx, r, hc, hc', hs⟩
  · simp only [hc, hc']
    exact ⟨rfl, h⟩
  · obtain ⟨hsound, hsound'⟩ := sounds hw hv hc hc'
    have hresolve : v.resolve (ctx.seated r) = w.resolve ctx := by
      funext id cls
      simp only [resolve, Context.seated_registry, Context.seated_id, h.alive, h.agent?,
        hs.agent?_alive (dead hw d) hsound hsound' id]
    have hbinding : v.resolveBinding (ctx.seated r) = w.resolveBinding ctx := by
      funext name b
      rw [resolveBinding, resolveBinding, hresolve, Context.seated_types]
    have hall : v.resolveAll (ctx.seated r) s = w.resolveAll ctx s := by
      rw [resolveAll, resolveAll, hresolve, hbinding, Context.seated_id, Context.seated_types]
    have hidle : (ctx.seated r).ensureIdle = ctx.ensureIdle := rfl
    simp only [hc, hc', hidle, hall, Context.seated_id]
    cases ctx.ensureIdle with
    | error e => exact ⟨rfl, h⟩
    | ok =>
      simp only
      cases w.resolveAll ctx s with
      | error m => exact ⟨rfl, h⟩
      | ok found =>
        obtain ⟨named, targets⟩ := found
        simp only
        obtain ⟨hresult, hafter⟩ := h.restore targets []
        generalize World.restore targets [] w = x at hresult hafter
        generalize World.restore targets [] v = y at hresult hafter
        obtain ⟨result, u⟩ := x
        obtain ⟨result', u'⟩ := y
        obtain rfl : result' = result := hresult
        cases result' with
        | error e => exact ⟨rfl, hafter⟩
        | ok =>
          refine ⟨rfl, Veiled.report (hafter.modifyContext d fun _ _ _ _ hs => ?_) _⟩
          exact ⟨_, rfl, hs.rename fun _ _ _ => .rfl⟩

/-! ## Operations -/

omit [Behavior τ α] in
theorem answerTaskOp (h : Veiled gone w v) (hw : Grounded gone w) (hv : Grounded gone v)
    (d : ContextRef) (op : TaskOp) :
    VeiledResults gone (w.answerTaskOp d op) (v.answerTaskOp d op) := by
  cases op with
  | contextId =>
    have hid := h.context_map d (·.id) fun _ _ => rfl
    exact ⟨congrArg (fun x : Option ContextId => x.getD .invalid) hid, h⟩
  | clock =>
    have hclock := h.context_map d (·.clock) fun _ _ => rfl
    exact ⟨congrArg (fun x : Option Clock => x.getD {}) hclock, h⟩
  | isExecuting =>
    have hx := h.context_map d (·.executing) fun _ _ => rfl
    have hany (x : Option Context) : x.any (·.executing) = (x.map (·.executing)).any id := by
      cases x <;> rfl
    refine ⟨?_, h⟩
    show (v.context? d).any (·.executing) = (w.context? d).any (·.executing)
    rw [hany, hx, ← hany]
  | add a => exact ⟨rfl, h.addAgent hw hv d a⟩
  | remove a => exact ⟨rfl, h.removeAgent hw hv d a⟩
  | bind name a => exact h.bind hw hv d name a
  | unbind name => exact h.unbind hw d name
  | lookup name => exact ⟨h.lookup hw d name, h⟩
  | getStatic cls name => exact ⟨h.getStatic d cls name, h⟩
  | setStatic cls name x => exact h.setStatic d cls name x

/-- An operation other than a tick has the same answer, but for the raw number of entries, and the
very same where nothing is left of agents that are gone. -/
theorem answerContextOp (h : Veiled gone w v) (hw : Grounded gone w) (hv : Grounded gone v)
    (nested : Nested τ α) (d : ContextRef) {op : ContextOp α} (hop : op ≠ .tick) (hp : op.Plain) :
    op.Blurred (v.answerContextOp nested d op).1 (w.answerContextOp nested d op).1 ∧
      ((∀ a, gone d a = false) →
        (v.answerContextOp nested d op).1 = (w.answerContextOp nested d op).1) ∧
      Veiled gone (w.answerContextOp nested d op).2 (v.answerContextOp nested d op).2 := by
  cases op with
  | task op =>
    obtain ⟨hanswer, hafter⟩ := h.answerTaskOp hw hv d op
    exact ⟨hanswer, fun _ => hanswer, hafter⟩
  | counts =>
    refine ⟨?_, fun hd => ?_, h⟩
    · simp only [ContextOp.Blurred, World.answerContextOp]
      rcases h.context d with ⟨hc, hc'⟩ | ⟨ctx, r, hc, hc', hs⟩
      · rw [hc, hc']
        rfl
      · rw [hc, hc']
        simp only [Option.map_some, Option.getD_some, counts, Context.seated_registry,
          h.bindings hw hs, hs.pendingAdd, hs.pendingRemove]
    · have hcounts : v.counts = w.counts := by
        funext r
        simp only [counts, World.bindings, h.alive]
      rw [World.answerContextOp, World.answerContextOp, h.exact hw.1.2 hv.1.2 hd, hcounts]
  | tick => exact absurd rfl hop
  | save =>
    obtain ⟨hanswer, hafter⟩ := h.save hw d
    exact ⟨hanswer, fun _ => hanswer, hafter⟩
  | load s =>
    obtain ⟨hanswer, hafter⟩ := h.load hw hv d s
    exact ⟨hanswer, fun _ => hanswer, hafter⟩
  | release => exact ⟨rfl, fun _ => rfl, h.release hw d⟩
  | logStatics cls sink =>
    obtain ⟨hanswer, hafter⟩ := logStatics hp h d cls
    exact ⟨hanswer, fun _ => hanswer, hafter⟩
  | logState sink =>
    obtain ⟨hanswer, hafter⟩ := logState hp h hw d
    exact ⟨hanswer, fun _ => hanswer, hafter⟩
  | clearBindings => exact ⟨rfl, fun _ => rfl, h.clearBindings d⟩
  | clearBaselines =>
    exact ⟨rfl, fun _ => rfl, h.setRest d (fun _ _ => rfl) fun _ => rfl⟩
  | setClock f => exact ⟨rfl, fun _ => rfl, h.setRest d (fun _ _ => rfl) fun _ => rfl⟩

end Snapshots

/-! ## After a walk -/

section Walks

theorem drainAddition (h : Veiled gone w v) (hw : Grounded gone w) (hv : Grounded gone v)
    (d : ContextRef) (a : AgentRef) :
    VeiledResults gone (w.drainAddition d a) (v.drainAddition d a) := by
  have hinsert := h.insertNow hw hv d a
  unfold World.drainAddition
  rw [h.live? a]
  rcases h.context d with ⟨hc, hc'⟩ | ⟨ctx, r, hc, hc', hs⟩
  · simp only [hc, hc']
    exact ⟨rfl, h⟩
  · simp only [hc, hc']
    cases hl : w.live? a with
    | none => exact ⟨rfl, h⟩
    | some agent =>
      have hnames : r.namesOf a = ctx.registry.namesOf a :=
        hs.namesOf_alive (dead hw d) (alive_of_live? hl)
      simp only [h.entry hw hv hc hc' hs hl, Context.seated_registry, Context.seated_id, hnames]
      have hrefused (e : Event) (n : Nat) : Veiled gone
          (if n = 0 then (w.insertNow d a).modifyRegistry d (·.unbindAgent a)
            else ((w.insertNow d a).modifyRegistry d (·.unbindAgent a)).report e)
          (if n = 0 then (v.insertNow d a).modifyRegistry d (·.unbindAgent a)
            else ((v.insertNow d a).modifyRegistry d (·.unbindAgent a)).report e) := by
        have hunbound : Veiled gone ((w.insertNow d a).modifyRegistry d (·.unbindAgent a))
            ((v.insertNow d a).modifyRegistry d (·.unbindAgent a)) :=
          hinsert.modifyContext d fun _ _ _ _ hs => ⟨_, rfl, hs.unbindAgent⟩
        split
        · exact hunbound
        · exact hunbound.report _
      cases ctx.entry agent.place with
      | fresh id => exact ⟨rfl, hinsert⟩
      | alreadyHere => exact ⟨rfl, hinsert⟩
      | elsewhere owner => exact ⟨rfl, hrefused _ _⟩
      | exhausted => exact ⟨rfl, hrefused _ _⟩

theorem drainRemoval (h : Veiled gone w v) (hw : Grounded gone w) (hv : Grounded gone v)
    (d : ContextRef) (a : AgentRef) :
    VeiledResults gone (w.drainRemoval d a) (v.drainRemoval d a) := by
  have hremove := h.removeNow hw hv d a
  unfold World.drainRemoval
  rw [h.live? a]
  rcases h.context d with ⟨hc, hc'⟩ | ⟨ctx, r, hc, hc', -⟩
  · simp only [hc, hc']
    exact ⟨rfl, h⟩
  · simp only [hc, hc']
    cases hl : w.live? a with
    | none => exact ⟨rfl, h⟩
    | some agent => exact ⟨h.holds hw hv hc hc' hl, hremove⟩

/-- Requests of a context between ticks that are applied one after the other. -/
theorem drain {apply : AgentRef → World τ α → Bool × World τ α}
    (happly : ∀ {w v : World τ α} a, Veiled gone w v → Grounded gone w → Grounded gone v →
      VeiledResults gone (apply a w) (apply a v))
    (hedits : ∀ (w : World τ α) a, w.Idle d → Edits d w (apply a w).2)
    (h : Veiled gone w v) (hw : Grounded gone w) (hv : Grounded gone v) (hi : w.Idle d)
    (hi' : v.Idle d) (l : List AgentRef) :
    VeiledResults gone (w.drain apply l) (v.drain apply l) := by
  induction l generalizing w v with
  | nil => exact ⟨rfl, h⟩
  | cons a l ih =>
    obtain ⟨heffect, hfirst⟩ := happly a h hw hv
    have he := hedits w a hi
    have he' := hedits v a hi'
    obtain ⟨hcount, hrest⟩ := ih hfirst (grounded_durable.edits he hw)
      (grounded_durable.edits he' hv) (he.idle hi) (he'.idle hi')
    refine ⟨?_, hrest⟩
    simp only [World.drain, heffect, hcount]

theorem settle (h : Veiled gone w v) (d : ContextRef) (inUse : Bool) :
    Veiled gone (w.settle d inUse) (v.settle d inUse) := by
  have hidle : Veiled gone (w.modifyContext d fun ctx => { ctx with executing := false, inUse })
      (v.modifyContext d fun ctx => { ctx with executing := false, inUse }) :=
    h.setRest d (fun _ _ => rfl) fun _ => rfl
  exact hidle.modifyContext d fun _ _ _ _ hs => ⟨_, rfl, hs.queue rfl rfl⟩

theorem grounded_settle (hw : Grounded gone w) (inUse : Bool) (hc : w.context? d = some ctx) :
    Grounded gone (w.settle d inUse) :=
  ⟨coherent_settle hw.1 inUse hc, hw.2⟩

/-- The last steps of a tick leave nothing of agents that are gone in the context. -/
theorem close (h : Veiled gone w v) (hw : Grounded gone w) (hv : Grounded gone v)
    (d : ContextRef) :
    Veiled gone ((w.prune d).modifyContext d fun ctx => { ctx with clock := ctx.clock.advance })
        ((v.prune d).modifyContext d fun ctx => { ctx with clock := ctx.clock.advance }) ∧
      ((v.prune d).modifyContext d fun ctx =>
          { ctx with clock := ctx.clock.advance }).context? d =
        ((w.prune d).modifyContext d fun ctx =>
          { ctx with clock := ctx.clock.advance }).context? d := by
  obtain ⟨hpruned, hsame⟩ := h.prune hw hv d
  refine ⟨hpruned.setRest d (fun _ _ => rfl) fun _ => rfl, ?_⟩
  rw [context?_modifyContext, context?_modifyContext, hsame]

/-- What comes after a walk is the same, and nothing of agents that are gone is left in the
context. -/
theorem finishWalk (h : Veiled gone w v) (hw : Grounded gone w) (hv : Grounded gone v)
    (d : ContextRef) (inUse : Bool) :
    VeiledResults gone (w.finishWalk d inUse) (v.finishWalk d inUse) ∧
      (v.finishWalk d inUse).2.context? d = (w.finishWalk d inUse).2.context? d := by
  rcases h.context d with ⟨hc, hc'⟩ | ⟨ctx, r, hc, hc', hs⟩
  · have hidle : Veiled gone (w.modifyContext d fun ctx => { ctx with executing := false, inUse })
        (v.modifyContext d fun ctx => { ctx with executing := false, inUse }) :=
      h.setRest d (fun _ _ => rfl) fun _ => rfl
    have hnone := sameContexts_modifyContext hc fun ctx => { ctx with executing := false, inUse }
    have hnone' := sameContexts_modifyContext hc' fun ctx => { ctx with executing := false, inUse }
    obtain ⟨hafter, hsame⟩ := hidle.close (grounded_durable.fade hnone (.refl w) hw)
      (grounded_durable.fade hnone' (.refl v) hv) d
    simp only [World.finishWalk, drainRequests, (hnone d).trans hc, (hnone' d).trans hc']
    exact ⟨⟨rfl, hafter⟩, hsame⟩
  · rw [finishWalk_eq hc, finishWalk_eq hc', Context.seated_registry, hs.pendingAdd,
      hs.pendingRemove]
    have hi : (w.settle d inUse).Idle d := idle_settle inUse hc
    have hi' : (v.settle d inUse).Idle d := idle_settle inUse hc'
    have hw₁ := grounded_settle hw inUse hc
    have hv₁ := grounded_settle hv inUse hc'
    have hadd := drain_edits (World.drainAddition d) (fun _ _ => drainAddition_edits)
      ctx.registry.pendingAdd hi
    have hadd' := drain_edits (World.drainAddition d) (fun _ _ => drainAddition_edits)
      ctx.registry.pendingAdd hi'
    have hremove := drain_edits (World.drainRemoval d) (fun _ _ => drainRemoval_edits)
      ctx.registry.pendingRemove (hadd.idle hi)
    have hremove' := drain_edits (World.drainRemoval d) (fun _ _ => drainRemoval_edits)
      ctx.registry.pendingRemove (hadd'.idle hi')
    have hw₂ := grounded_durable.edits hadd hw₁
    have hv₂ := grounded_durable.edits hadd' hv₁
    obtain ⟨hadded, hveiled⟩ := drain (fun a h hw hv => h.drainAddition hw hv d a)
      (fun _ _ => drainAddition_edits) (h.settle d inUse) hw₁ hv₁ hi hi' ctx.registry.pendingAdd
    obtain ⟨hremoved, hend⟩ := drain (fun a h hw hv => h.drainRemoval hw hv d a)
      (fun _ _ => drainRemoval_edits) hveiled hw₂ hv₂ (hadd.idle hi) (hadd'.idle hi')
      ctx.registry.pendingRemove
    obtain ⟨hafter, hsame⟩ := hend.close (grounded_durable.edits hremove hw₂)
      (grounded_durable.edits hremove' hv₂) d
    exact ⟨⟨Prod.ext hadded hremoved, hafter⟩, hsame⟩

end Walks

end Veiled

end World

end AgentScheduler
