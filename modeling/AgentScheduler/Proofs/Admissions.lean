/-
What one change can do to the registrations of contexts. Almost all changes make
none (`Recedes`): registrations go, and the id given out last stays. An addition
makes one at most, under the next id (`Admits`). This is all, for every change
that a run is made of (`passes_admits`).
-/
import AgentScheduler.Proofs.Soundness
import AgentScheduler.Proofs.Stages
import AgentScheduler.Proofs.StaticSteps

namespace AgentScheduler

namespace Registry

variable {r r' r'' : Registry} {p : Int32} {i : AgentId} {a : AgentRef}

/-- Registrations may go, and none comes. -/
structure Recedes (r r' : Registry) : Prop where
  issued : r'.lastId = r.lastId
  entries : ∀ e ∈ r'.entries, e ∈ r.entries
  sound : r.Sound → r'.Sound

namespace Recedes

theorem of_seats (h : r'.seats = r.seats) : r.Recedes r' where
  issued := by
    have hissued : r'.seats.lastId = r.seats.lastId := congrArg Registry.lastId h
    exact hissued
  entries e he := by
    have hentries : r'.seats.entries = r.seats.entries := congrArg Registry.entries h
    exact hentries ▸ he
  sound hs := by
    have hs' : r.seats.Sound := ⟨hs.indexed, hs.filled, hs.issued, hs.valid⟩
    rw [← h] at hs'
    exact ⟨hs'.indexed, hs'.filled, hs'.issued, hs'.valid⟩

theorem refl (r : Registry) : r.Recedes r := of_seats rfl

theorem trans (h : r.Recedes r') (h' : r'.Recedes r'') : r.Recedes r'' :=
  ⟨h'.issued.trans h.issued, fun e he => h.entries e (h'.entries e he),
    fun hs => h'.sound (h.sound hs)⟩

theorem unregister (hi : r.index.get? i = some p) : r.Recedes (r.unregister p i) :=
  ⟨rfl, fun _ he => (mem_entries_unregister.1 he).1, fun hs => hs.unregister hi⟩

theorem prune (alive : AgentRef → Bool) : r.Recedes (r.prune alive) :=
  ⟨lastId_prune, fun _ he => (mem_entries_prune.1 he).1, fun hs => hs.prune⟩

theorem clear : r.Recedes r.clear := ⟨rfl, fun _ he => (by cases he), fun hs => hs.clear⟩

end Recedes

end Registry

namespace World

variable {τ α : Type} {w v u : World τ α} {c : ContextRef} {a : AgentRef}

/-! ## Changes without registrations -/

/-- No context comes, and no registration. -/
structure Recedes (w v : World τ α) : Prop where
  size : w.contexts.size ≤ v.contexts.size
  context : ∀ c ctx', v.context? c = some ctx' →
    ∃ ctx, w.context? c = some ctx ∧ ctx.registry.Recedes ctx'.registry

namespace Recedes

theorem of_same (hsize : v.contexts.size = w.contexts.size) (hc : SameContexts w v) :
    Recedes w v :=
  ⟨Nat.le_of_eq hsize.symm, fun c ctx hx => ⟨ctx, hc c ▸ hx, .refl _⟩⟩

theorem of_contexts (h : v.contexts = w.contexts) : Recedes w v :=
  of_same (by rw [h]) fun c => by rw [context?, context?, h]

theorem refl (w : World τ α) : Recedes w w := of_contexts rfl

theorem trans (h : Recedes w v) (h' : Recedes v u) : Recedes w u where
  size := Nat.le_trans h.size h'.size
  context c ctx'' hx := by
    obtain ⟨ctx', hx', hr'⟩ := h'.context c ctx'' hx
    obtain ⟨ctx, hx, hr⟩ := h.context c ctx' hx'
    exact ⟨ctx, hx, hr.trans hr'⟩

theorem modifyContext (f : Context → Context)
    (hf : ∀ ctx, w.context? c = some ctx → ctx.registry.Recedes (f ctx).registry) :
    Recedes w (w.modifyContext c f) where
  size := by simp [World.modifyContext]
  context d ctx' hx := by
    rw [context?_modifyContext] at hx
    split at hx
    · next hd =>
      obtain ⟨ctx, hc, rfl⟩ := Option.map_eq_some_iff.1 hx
      exact ⟨ctx, hc, hf ctx (hd ▸ hc)⟩
    · exact ⟨ctx', hx, .refl _⟩

theorem setRest (f : Context → Context) (hf : ∀ ctx, (f ctx).registry = ctx.registry) :
    Recedes w (w.modifyContext c f) :=
  modifyContext f fun ctx _ => by rw [hf]; exact .refl _

theorem reseat (f : Registry → Registry) (hf : ∀ r, (f r).seats = r.seats) :
    Recedes w (w.modifyRegistry c f) :=
  modifyContext _ fun _ _ => .of_seats (hf _)

theorem report (h : Recedes w v) (e : Event) : Recedes w (v.report e) := h.trans (of_contexts rfl)

end Recedes

theorem contexts_foldl_report (f : String → Event) (names : List String) :
    (names.foldl (fun w name => w.report (f name)) w).contexts = w.contexts := by
  induction names generalizing w with
  | nil => rfl
  | cons name names ih => rw [List.foldl_cons, ih]; rfl

theorem removeNow_recedes : Recedes w (w.removeNow c a) := by
  unfold removeNow
  split
  · next ctx agent hc hl =>
    split
    · split
      · exact .refl w
      · next priority hi =>
        have hgone : Recedes w (w.modifyRegistry c fun r =>
            (r.unregister priority agent.place.id).unbindAgent a) := by
          refine .modifyContext _ fun ctx' hc' => ?_
          obtain rfl := Option.some.inj (hc.symm.trans hc')
          exact .trans (.unregister hi) (.of_seats rfl)
        refine Recedes.report (hgone.trans (.of_contexts ?_)) _
        exact contexts_foldl_report (.bindingDropped ctx.id ·) (ctx.registry.namesOf a)
    · exact .refl w
  · exact .refl w

theorem removeAgent_recedes : Recedes w (w.removeAgent c a) := by
  unfold removeAgent
  split
  · split
    · refine Recedes.report ?_ _
      exact .reseat _ fun _ => rfl
    · exact removeNow_recedes
  · exact .refl w

theorem prune_recedes : Recedes w (w.prune c) := by
  unfold prune
  split
  · exact .refl w
  · have h : Recedes w (w.modifyRegistry c (·.prune w.alive)) :=
      .modifyContext _ fun _ _ => .prune w.alive
    simp only
    split
    · exact h
    · exact h.report _

theorem close_recedes (e : Event) : Recedes w (((w.prune c).modifyContext c fun ctx =>
    { ctx with clock := ctx.clock.advance }).report e) := by
  refine Recedes.report ((prune_recedes (c := c)).trans ?_) e
  exact .setRest _ fun _ => rfl

theorem endWalk_recedes (inUse : Bool) :
    Recedes w (w.modifyContext c fun ctx => { ctx with executing := false, inUse }) :=
  .setRest _ fun _ => rfl

theorem settle_recedes (inUse : Bool) : Recedes w (w.settle c inUse) := by
  refine (endWalk_recedes (c := c) inUse).trans ?_
  exact .reseat _ fun _ => rfl

theorem clearRegistry_recedes : Recedes w (w.clearRegistry c) := by
  unfold clearRegistry
  split
  · exact .refl w
  · exact .trans (.of_contexts (clearPlaces_rest _).1) (.modifyContext _ fun _ _ => .clear)

theorem release_recedes : Recedes w (w.release c) := by
  unfold release
  split
  · exact .refl w
  · refine Recedes.report ((clearRegistry_recedes (c := c)).trans ?_) _
    exact .setRest _ fun _ => rfl

theorem dropContext_recedes : Recedes w (w.dropContext c) := by
  refine (clearRegistry_recedes (c := c)).trans ⟨by simp [dropContext], fun d ctx hx => ?_⟩
  have hx' : (w.clearRegistry c).context? d = some ctx := by
    simp only [context?, dropContext, Array.getElem?_modify] at hx ⊢
    split at hx
    · cases h : (w.clearRegistry c).contexts[d.index]? <;> simp [h] at hx
    · exact hx
  exact ⟨ctx, hx', .refl _⟩

theorem bind_recedes (name : String) : Recedes w (w.bind c name a).2 := by
  unfold bind
  split
  · split
    · exact .refl w
    · split
      · exact .refl w
      · refine Recedes.report ?_ _
        exact .reseat _ fun _ => rfl
  · exact .refl w

theorem unbind_recedes (name : String) : Recedes w (w.unbind c name).2 := by
  unfold unbind
  split
  · exact .refl w
  · have h : Recedes w (w.modifyRegistry c (·.dropBinding name)) := .reseat _ fun _ => rfl
    simp only
    split
    · exact h.report _
    · exact h

theorem setStatic_recedes (cls name : String) (x : Value) :
    Recedes w (w.setStatic c cls name x).2 := by
  unfold setStatic
  split
  · exact .refl w
  · split
    · exact .refl w
    · exact .setRest _ fun _ => rfl

theorem logStatics_recedes (cls : Option String) (sink : Sink α) :
    Recedes w (w.logStatics c cls sink).2 := by
  unfold logStatics
  split
  · exact .refl w
  · next ctx hc =>
    split
    · exact .refl w
    · generalize ctx.statics.log ctx.id ctx.clock.frames cls sink w.host = logged
      exact .trans (v := w.modifyContext c fun ctx => { ctx with statics := logged.2.1 })
        (.setRest _ fun _ => rfl) (.of_contexts rfl)

section Behavior

variable [Behavior τ α]

theorem logState_recedes (sink : Sink α) : Recedes w (w.logState c sink).2 := by
  unfold logState
  split
  · exact .refl w
  · next ctx hc =>
    have h : Recedes w (logAgents ctx sink (w.handles ctx.registry) 0 w).2 :=
      .of_contexts (logAgents_contexts ctx sink _ 0)
    split
    · next hw => rw [hw] at h; exact h
    · next n v hw =>
      rw [hw] at h
      have h' := logStatics_recedes (w := v) (c := c) none sink
      split
      · next hv => rw [hv] at h'; exact h.trans h'
      · next hv => rw [hv] at h'; exact h.trans h'

theorem save_recedes : Recedes w (w.save c).2 := by
  unfold save
  split
  · exact .refl w
  · split
    · exact .refl w
    · split
      · exact .refl w
      · exact .of_contexts rfl

theorem loadTask_recedes (state : Json) : Recedes w (w.loadTask a state).2 := by
  unfold loadTask
  split
  · exact .refl w
  · split
    · exact .refl w
    · exact .of_contexts rfl

theorem load_recedes (s : Snapshot) : Recedes w (w.load c s).2 := by
  have size {v : World τ α} (h : v.valuation = w.valuation) :
      v.contexts.size = w.contexts.size := by
    simpa only [valuation, Array.size_map] using congrArg Array.size h
  rcases load_cases (w := w) (c := c) s with ⟨-, h⟩ | ⟨e, v, h, hc, hv⟩ |
    ⟨ctx, named, targets, v, -, -, -, hv, h⟩
  · rw [h]
    exact .refl w
  · rw [h]
    exact .of_same (size hv) hc
  · have hsame := (restore_edits (w := w) targets []).1
    have hvars := valuation_restore (w := w) targets []
    rw [hv] at hsame hvars
    rw [h]
    refine Recedes.report (.trans (.of_same (size hvars) hsame) ?_) _
    exact .modifyContext (Context.reloaded s named) fun _ _ => .of_seats rfl

/-- Only an addition makes a registration. -/
theorem answerContextOp_recedes (nested : Nested τ α) (op : ContextOp α) (h : op ≠ .tick)
    (hadd : ∀ a, op ≠ .task (.add a)) : Recedes w (w.answerContextOp nested c op).2 := by
  cases op with
  | task op =>
    cases op with
    | contextId | clock | isExecuting | lookup | getStatic => exact .refl w
    | add a => exact absurd rfl (hadd a)
    | remove a => exact removeAgent_recedes
    | bind name a => exact bind_recedes name
    | unbind name => exact unbind_recedes name
    | setStatic cls name x => exact setStatic_recedes cls name x
  | counts => exact .refl w
  | tick => exact absurd rfl h
  | save => exact save_recedes
  | load s => exact load_recedes s
  | release => exact release_recedes
  | logStatics cls sink => exact logStatics_recedes cls sink
  | logState sink => exact logState_recedes sink
  | clearBindings => exact .reseat _ fun _ => rfl
  | clearBaselines | setClock => exact .setRest _ fun _ => rfl

end Behavior

/-! ## One change -/

/-- All that one change can do to registrations: none comes, or a new context without any, or a
living agent enters a context under its next id. -/
inductive Admits (w v : World τ α) : Prop
  | recedes (h : Recedes w v)
  | opens (id : ContextId) (types : Hierarchy) (stepMillis : UInt32)
      (h : v = (w.addContext (.new id types stepMillis)).2)
  | enters {c : ContextRef} {ctx : Context} {a : AgentRef} {agent : Agent τ} {id : AgentId}
      (hsize : w.contexts.size ≤ v.contexts.size) (hc : w.context? c = some ctx)
      (hl : w.live? a = some agent) (he : ctx.entry agent.place = .fresh id)
      (hv : Becomes c (ctx.withRegistry (·.register a agent.priority id)) w v)
      (ha : ∀ b, v.agent? b =
        if b = a then some { agent with place := ⟨ctx.id, id⟩ } else w.agent? b)

namespace Admits

theorem of_contexts (h : v.contexts = w.contexts) : Admits w v := .recedes (.of_contexts h)

theorem size (h : Admits w v) : w.contexts.size ≤ v.contexts.size := by
  cases h with
  | recedes h => exact h.size
  | opens id types stepMillis h => simp [h, addContext]
  | enters hsize => exact hsize

theorem sound (h : Admits w v) (hw : w.Sound) : v.Sound := by
  cases h with
  | recedes h =>
    intro c ctx' hx
    obtain ⟨ctx, hc, hr⟩ := h.context c ctx' hx
    exact hr.sound (hw c ctx hc)
  | opens id types stepMillis h => exact h ▸ hw.newContext id types stepMillis
  | enters _ hc _ he hv =>
    exact hw.becomes hv ((hw _ _ hc).register (Context.nextId?_of_fresh he))

end Admits

theorem insertNow_admits : Admits w (w.insertNow c a) := by
  unfold insertNow
  split
  · next ctx agent hc hl =>
    split
    · exact .of_contexts rfl
    · exact .of_contexts rfl
    · exact .of_contexts rfl
    · next id he =>
      refine .enters ?_ hc hl he (becomes_modifyContext hc _) fun b => ?_
      · simp [World.report, setPlace, modifyAgent, modifyRegistry, modifyContext]
      · rw [agent?_report, setPlace, agent?_modifyAgent]
        split
        · next hb => rw [hb, agent?_modifyRegistry, (live?_eq_some.1 hl).1, Option.map_some]
        · rfl
  · exact .of_contexts rfl

theorem addAgent_admits : Admits w (w.addAgent c a) := by
  unfold addAgent
  split
  · split
    · refine .recedes (Recedes.report ?_ _)
      exact .reseat _ fun _ => rfl
    · exact insertNow_admits
  · exact .of_contexts rfl

theorem drainAddition_admits : Admits w (w.drainAddition c a).2 := by
  have hsize : w.contexts.size ≤ (w.drainAddition c a).2.contexts.size := by
    have hvars := valuation_drainAddition (w := w) (c := c) (a := a)
    have h : (w.drainAddition c a).2.contexts.size = w.contexts.size := by
      simpa only [valuation, Array.size_map] using congrArg Array.size hvars
    exact Nat.le_of_eq h.symm
  cases hc : w.context? c with
  | none =>
    simp only [drainAddition, hc]
    exact .of_contexts rfl
  | some ctx =>
    have h := drainAddition_cases (a := a) hc
    generalize w.drainAddition c a = r at h hsize
    cases h with
    | gone | already => exact .of_contexts rfl
    | fresh hl he hv ha => exact .enters hsize hc hl he hv ha
    | refused hl he hv ha =>
      refine .recedes ⟨hsize, fun d ctx' hx => ?_⟩
      rcases hv.cases hx with ⟨rfl, rfl⟩ | ⟨-, hx⟩
      · exact ⟨ctx, hc, .of_seats rfl⟩
      · exact ⟨ctx', hx, .refl _⟩

section Behavior

variable [Behavior τ α]

theorem answerContextOp_admits (nested : Nested τ α) (op : ContextOp α) (h : op ≠ .tick) :
    Admits w (w.answerContextOp nested c op).2 := by
  by_cases hadd : ∃ a, op = .task (.add a)
  · obtain ⟨a, rfl⟩ := hadd
    exact addAgent_admits
  · exact .recedes (answerContextOp_recedes nested op h fun a he => hadd ⟨a, he⟩)

theorem answer_admits (nested : Nested τ α) {r : Request τ α} (h : r.phase? c = none) :
    Admits w (w.answer nested c r).2 := by
  cases r with
  | here op =>
    refine answerContextOp_admits nested op fun he => ?_
    rw [he] at h; cases h
  | there other op =>
    simp only [answer]
    split
    · exact .of_contexts rfl
    · split
      · exact .of_contexts rfl
      · refine answerContextOp_admits nested op fun he => ?_
        rw [he] at h; cases h
  | dropContext other =>
    simp only [answer]
    split
    · exact .of_contexts rfl
    · split
      · exact .of_contexts rfl
      · exact .recedes dropContext_recedes
  | exec b => cases h
  | loadTask b state => exact .recedes (loadTask_recedes state)
  | create | disown | view | saveTask | describeTask | app | setApp | report =>
    exact .of_contexts rfl

theorem passes_admits : Passes fun w v : World τ α => Admits w v where
  refl _ := .of_contexts rfl
  report _ _ := .of_contexts rfl
  answer h := answer_admits _ h
  startTask _ := .of_contexts rfl
  endTask _ := .of_contexts rfl
  flags f hf := .recedes (.setRest f fun ctx => by rw [hf ctx])
  settle inUse _ := .recedes (settle_recedes inUse)
  addition _ _ _ := drainAddition_admits
  removal c a w := by
    unfold drainRemoval
    split
    · exact .recedes removeNow_recedes
    · exact .of_contexts rfl
  close e := .recedes (close_recedes e)
  gone {c w} inUse e hc := by
    have hsame := sameContexts_modifyContext hc fun ctx => { ctx with executing := false, inUse }
    have hc' := (hsame c).trans hc
    simp only [finishWalk, drainRequests, hc']
    exact .recedes ((endWalk_recedes inUse).trans (close_recedes e))
  perform {w d} htick hexec := by
    cases d with
    | newContext id types stepMillis => exact .opens id types stepMillis rfl
    | dropContext c => exact .recedes dropContext_recedes
    | setCreated c created => exact .recedes (.setRest _ fun _ => rfl)
    | on c op => exact answerContextOp_admits _ op fun he => htick c (he ▸ rfl)
    | exec c a => exact absurd rfl (hexec c a)
    | loadTask a state => exact .recedes (loadTask_recedes state)
    | create | disown | host => exact .of_contexts rfl

end Behavior

end World

end AgentScheduler
