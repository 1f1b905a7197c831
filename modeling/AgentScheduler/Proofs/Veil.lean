/-
What is left of agents that are gone cannot be noticed. Two worlds are the same
but for it (`Veiled`) if they have the same agents, show the same of their host,
and each context has the same in both apart from entries and names of agents that
are gone. In coherent worlds every operation of a context then has the same
outcome in both, but for the raw number of entries, and leaves them so.
-/
import AgentScheduler.Proofs.Remnants
import AgentScheduler.Proofs.Rest
import AgentScheduler.Proofs.Coherence

namespace AgentScheduler

/-- The context with another registry in place of its own. -/
def Context.seated (ctx : Context) (r : Registry) : Context := { ctx with registry := r }

section Seated

variable (ctx : Context) (r : Registry)

@[simp] theorem Context.seated_id : (ctx.seated r).id = ctx.id := rfl

@[simp] theorem Context.seated_types : (ctx.seated r).types = ctx.types := rfl

@[simp] theorem Context.seated_registry : (ctx.seated r).registry = r := rfl

@[simp] theorem Context.seated_statics : (ctx.seated r).statics = ctx.statics := rfl

@[simp] theorem Context.seated_clock : (ctx.seated r).clock = ctx.clock := rfl

@[simp] theorem Context.seated_executing : (ctx.seated r).executing = ctx.executing := rfl

@[simp] theorem Context.seated_inUse : (ctx.seated r).inUse = ctx.inUse := rfl

end Seated

/-! ## What is shown -/

/-- Reports that entries of agents that are gone were dropped. -/
def Event.isPruning : Event → Bool
  | .stalePruned .. => true
  | _ => false

section Shown

variable {α : Type}

/-- The application's state, and all reports but those of dropped entries. -/
def Host.shown (h : Host α) : α × List Event :=
  (h.app, h.events.toList.filter fun e => !e.isPruning)

theorem Host.shown_report (h : Host α) (e : Event) :
    (h.report e).shown = (h.app, h.shown.2 ++ [e].filter fun e => !e.isPruning) := by
  rw [shown, shown, Host.report, Array.toList_push, List.filter_append]

theorem Host.shown_report_pruning (h : Host α) {e : Event} (he : e.isPruning = true) :
    (h.report e).shown = h.shown := by
  rw [Host.shown_report]
  simp [he, Host.shown]

/-- Goes by what is shown of the host, and shows the same of it afterwards. -/
def Sink.Plain (sink : Sink α) : Prop := ∀ r g g', g'.shown = g.shown →
  (sink r g').1 = (sink r g).1 ∧ (sink r g').2.shown = (sink r g).2.shown

/-- The receiver that reports every record is one. -/
theorem Sink.plain_reporting : (Sink.reporting : Sink α).Plain := by
  have hreport {g g' : Host α} (e : Event) (h : g'.shown = g.shown) :
      (g'.report e).shown = (g.report e).shown := by
    rw [Host.shown_report, Host.shown_report, h, show g'.app = g.app from congrArg Prod.fst h]
  intro r g g' h
  cases r with
  | state => exact ⟨rfl, hreport _ h⟩
  | statics context frame cls changes =>
    refine ⟨rfl, ?_⟩
    show (changes.foldl _ g').shown = (changes.foldl _ g).shown
    induction changes generalizing g g' with
    | nil => exact h
    | cons change changes ih => exact ih _ _ (hreport _ h)

/-- Hands records to plain receivers only. -/
def ContextOp.Plain : ContextOp α → Prop
  | .logStatics _ sink | .logState sink => sink.Plain
  | _ => True

/-- Equal answers; the raw number of entries may differ. -/
def ContextOp.Blurred : (op : ContextOp α) → op.Answer → op.Answer → Prop
  | .counts => fun x y => ({ x with agents := 0 } : Counts) = { y with agents := 0 }
  | _ => fun x y => x = y

end Shown

namespace World

variable {τ α : Type} {gone : ContextRef → AgentRef → Bool} {w v u : World τ α}
  {c d : ContextRef} {a : AgentRef} {ctx : Context} {r : Registry} {agent : Agent τ}

/-! ## Agents that are gone -/

/-- The listed agents lived and are gone. -/
def Departed (gone : ContextRef → AgentRef → Bool) (w : World τ α) : Prop :=
  ∀ d a, gone d a = true → w.alive a = false ∧ ∃ agent, w.agent? a = some agent

/-- An agent that was known and has not come to life. -/
theorem Departed.mono (h : Departed gone w)
    (hv : ∀ a agent, w.agent? a = some agent → (v.alive a = true → w.alive a = true) ∧
      ∃ agent, v.agent? a = some agent) : Departed gone v := by
  intro d a ha
  obtain ⟨hdead, agent, hknown⟩ := h d a ha
  obtain ⟨hlive, hstill⟩ := hv a agent hknown
  exact ⟨Bool.eq_false_iff.2 fun hl => (by rw [hlive hl] at hdead; cases hdead), hstill⟩

theorem Departed.of_self (h : Departed gone w)
    (hv : ∀ a, (v.agent? a).map Agent.self = (w.agent? a).map Agent.self) : Departed gone v := by
  refine h.mono fun a agent ha => ⟨fun hl => (alive_of_self (hv a)).symm.trans hl, ?_⟩
  have hself := hv a
  rw [ha, Option.map_some, Option.map_eq_some_iff] at hself
  exact ⟨_, hself.choose_spec.1⟩

theorem departed_durable : Durable (Departed gone : World τ α → Prop) where
  edit he h := h.of_self he.self
  fade _ hf h := h.mono fun a agent ha => by
    refine ⟨(hf a).2, ?_⟩
    have hview := (hf a).1
    rw [ha, Option.map_some, Option.map_eq_some_iff] at hview
    exact ⟨_, hview.choose_spec.1⟩
  create {w} g h := by
    refine h.mono fun a agent ha => ?_
    have hne : a.index ≠ w.agents.size := fun he => by
      rw [agent?_eq_none_of_size (Nat.le_of_eq he.symm)] at ha
      cases ha
    have hsame : (w.create g).2.agent? a = w.agent? a := by rw [agent?_create, if_neg hne]
    rw [hsame, alive, live?_congr hsame]
    exact ⟨id, agent, ha⟩
  close _ ha _ h := h.of_self fun a => by rw [ha a]
  flags _ _ h := h
  startWalk _ _ h := h
  finishWalk inUse h := h.of_self (finishWalk_self inUse)

/-- A coherent world in which the listed agents are gone. -/
def Grounded (gone : ContextRef → AgentRef → Bool) (w : World τ α) : Prop :=
  (w.DistinctIds ∧ w.Coherent) ∧ Departed gone w

theorem grounded_durable : Durable (Grounded gone : World τ α → Prop) :=
  coherent_durable.and departed_durable

/-- A name is taken if it stands for another agent that lives. -/
theorem bindFault?_eq (w : World τ α) (ctx : Context) (name : String) (a : AgentRef)
    (agent : Agent τ) : w.bindFault? ctx name a agent =
      if !ctx.types.isValidInstanceName name agent.cls then
        some (.unregisteredName name agent.cls)
      else if agent.place.context.isValid && agent.place.context != ctx.id then
        some (.notRegistered agent.name)
      else if !ctx.holds agent.place && !ctx.registry.pendingAdd.contains a then
        some (.notRegistered agent.name)
      else match (ctx.registry.named.get? name).filter w.alive with
        | none => none
        | some other => if other = a then none else some (.nameAlreadyBound name) := by
  unfold bindFault?
  cases ctx.registry.named.get? name with
  | none => rfl
  | some other =>
    cases ha : w.alive other with
    | false => simp [Option.filter, ha]
    | true =>
      have hfilter : (some other).filter w.alive = some other := by simp [Option.filter, ha]
      rw [hfilter]
      by_cases hother : other = a <;> simp [ha, hother]

/-! ## The same but for agents that are gone -/

/-- The same agents and contexts, apart from what contexts have left of the listed agents, and
the same is shown. -/
structure Veiled (gone : ContextRef → AgentRef → Bool) (w v : World τ α) : Prop where
  agents : v.agents = w.agents
  size : v.contexts.size = w.contexts.size
  context : ∀ d, (w.context? d = none ∧ v.context? d = none) ∨ ∃ ctx r,
    w.context? d = some ctx ∧ v.context? d = some (ctx.seated r) ∧
      Registry.SameBut (gone d) ctx.registry r
  shown : v.host.shown = w.host.shown

/-- The same result, in worlds that are the same but for agents that are gone. -/
def VeiledResults {β : Type} (gone : ContextRef → AgentRef → Bool) (x y : β × World τ α) : Prop :=
  y.1 = x.1 ∧ Veiled gone x.2 y.2

namespace Veiled

theorem refl (gone : ContextRef → AgentRef → Bool) (w : World τ α) : Veiled gone w w := by
  refine ⟨rfl, rfl, fun d => ?_, rfl⟩
  cases w.context? d with
  | none => exact .inl ⟨rfl, rfl⟩
  | some ctx => exact .inr ⟨ctx, ctx.registry, rfl, rfl, .refl _ _⟩

/-! ### Looking -/

theorem agent? (h : Veiled gone w v) (a : AgentRef) : v.agent? a = w.agent? a := by
  rw [World.agent?, World.agent?, h.agents]

theorem live? (h : Veiled gone w v) (a : AgentRef) : v.live? a = w.live? a :=
  live?_congr (h.agent? a)

theorem alive (h : Veiled gone w v) : v.alive = w.alive := by
  funext a
  rw [World.alive, World.alive, h.live? a]

theorem context_map {β : Type} (h : Veiled gone w v) (d : ContextRef) (f : Context → β)
    (hf : ∀ ctx r, f (ctx.seated r) = f ctx) :
    (v.context? d).map f = (w.context? d).map f := by
  rcases h.context d with ⟨hw, hv⟩ | ⟨ctx, r, hw, hv, -⟩
  · rw [hw, hv]
  · rw [hw, hv, Option.map_some, Option.map_some, hf]

/-- Where a context has nothing left of agents that are gone, it is the same in both. -/
theorem exact (h : Veiled gone w v) (hw : w.Coherent) (hv : v.Coherent)
    (hd : ∀ a, gone d a = false) : v.context? d = w.context? d := by
  rcases h.context d with ⟨hc, hc'⟩ | ⟨ctx, r, hc, hc', hs⟩
  · rw [hc, hc']
  · have hr : r = ctx.registry := (hw.sound d ctx hc).eq_of_same (hv.sound d _ hc')
      ((funext hd : gone d = fun _ => false) ▸ hs)
    rw [hc, hc', hr]
    rfl

/-! ### Changing -/

theorem report (h : Veiled gone w v) (e : Event) : Veiled gone (w.report e) (v.report e) := by
  refine ⟨h.agents, h.size, h.context, ?_⟩
  show (v.host.report e).shown = (w.host.report e).shown
  rw [Host.shown_report, Host.shown_report, h.shown,
    show v.host.app = w.host.app from congrArg Prod.fst h.shown]

/-- That entries were dropped may be reported in one of the worlds only. -/
theorem report_left (h : Veiled gone w v) {e : Event} (he : e.isPruning = true) :
    Veiled gone (w.report e) v := by
  refine ⟨h.agents, h.size, h.context, h.shown.trans ?_⟩
  exact (Host.shown_report_pruning w.host he).symm

theorem report_right (h : Veiled gone w v) {e : Event} (he : e.isPruning = true) :
    Veiled gone w (v.report e) :=
  ⟨h.agents, h.size, h.context, (Host.shown_report_pruning v.host he).trans h.shown⟩

theorem host (h : Veiled gone w v) {g g' : Host α} (hg : g'.shown = g.shown) :
    Veiled gone { w with host := g } { v with host := g' } :=
  ⟨h.agents, h.size, h.context, hg⟩

theorem modifyAgent (h : Veiled gone w v) (a : AgentRef) (f : Agent τ → Agent τ) :
    Veiled gone (w.modifyAgent a f) (v.modifyAgent a f) :=
  ⟨congrArg (·.modify a.index f) h.agents, h.size, h.context, h.shown⟩

theorem setPlace (h : Veiled gone w v) (a : AgentRef) (place : Registration) :
    Veiled gone (w.setPlace a place) (v.setPlace a place) :=
  h.modifyAgent a _

/-- Changes of a context that keep its registry the same but for agents that are gone. -/
theorem modifyContext (h : Veiled gone w v) (d : ContextRef) {f g : Context → Context}
    (hf : ∀ ctx r, w.context? d = some ctx → v.context? d = some (ctx.seated r) →
      Registry.SameBut (gone d) ctx.registry r → ∃ r', g (ctx.seated r) = (f ctx).seated r' ∧
        Registry.SameBut (gone d) (f ctx).registry r') :
    Veiled gone (w.modifyContext d f) (v.modifyContext d g) := by
  refine ⟨h.agents, ?_, fun d' => ?_, h.shown⟩
  · simp only [World.modifyContext, Array.size_modify, h.size]
  · rw [context?_modifyContext, context?_modifyContext]
    split
    · next he =>
      subst he
      rcases h.context d' with ⟨hw, hv⟩ | ⟨ctx, r, hw, hv, hs⟩
      · rw [hw, hv]
        exact .inl ⟨rfl, rfl⟩
      · obtain ⟨r', hg, hs'⟩ := hf ctx r hw hv hs
        rw [hw, hv, Option.map_some, Option.map_some, hg]
        exact .inr ⟨_, r', rfl, rfl, hs'⟩
    · exact h.context d'

/-- Changes that have nothing to do with the registry. -/
theorem setRest (h : Veiled gone w v) (d : ContextRef) {f : Context → Context}
    (hf : ∀ ctx r, f (ctx.seated r) = (f ctx).seated r)
    (hr : ∀ ctx, (f ctx).registry = ctx.registry) :
    Veiled gone (w.modifyContext d f) (v.modifyContext d f) :=
  h.modifyContext d fun ctx r _ _ hs => ⟨r, hf ctx r, (hr ctx).symm ▸ hs⟩

theorem modifyRegistry (h : Veiled gone w v) (hc : w.context? d = some ctx)
    (hc' : v.context? d = some (ctx.seated r)) {f g : Registry → Registry}
    (hs : Registry.SameBut (gone d) (f ctx.registry) (g r)) :
    Veiled gone (w.modifyRegistry d f) (v.modifyRegistry d g) :=
  h.modifyContext d fun x r' hx hx' _ => by
    rw [hc] at hx
    cases hx
    rw [hc'] at hx'
    obtain rfl : r = r' := congrArg Context.registry (Option.some.inj hx')
    exact ⟨g r, rfl, hs⟩

/-! ### Where an agent is -/

section Places

variable (h : Veiled gone w v) (hw : Grounded gone w) (hv : Grounded gone v)
  (hc : w.context? d = some ctx) (hc' : v.context? d = some (ctx.seated r))

include hw in
theorem dead (d : ContextRef) : ∀ a, gone d a = true → w.alive a = false :=
  fun a ha => (hw.2 d a ha).1

include hw hv hc hc' in
theorem sounds : ctx.registry.Sound ∧ r.Sound :=
  ⟨hw.1.2.sound d ctx hc, hv.1.2.sound d _ hc'⟩

include h hw hv hc hc'

theorem holds (hl : w.live? a = some agent) :
    (ctx.seated r).holds agent.place = ctx.holds agent.place := by
  have hl' : v.live? a = some agent := (h.live? a).trans hl
  rw [Bool.eq_iff_iff, hw.1.2.holds_iff_place hc hl, hv.1.2.holds_iff_place hc' hl',
    Context.seated_id]

theorem entry (hs : Registry.SameBut (gone d) ctx.registry r) (hl : w.live? a = some agent) :
    (ctx.seated r).entry agent.place = ctx.entry agent.place := by
  rw [Context.entry, Context.entry, holds h hw hv hc hc' hl, Context.seated_registry, hs.nextId?,
    Context.seated_id]

/-- A living agent has the same entry in both. -/
theorem index (hl : w.live? a = some agent) (hp : agent.place.context = ctx.id) :
    r.index.get? agent.place.id = ctx.registry.index.get? agent.place.id := by
  have hl' : v.live? a = some agent := (h.live? a).trans hl
  have hplace : agent.place = ⟨ctx.id, agent.place.id⟩ := by rw [← hp]
  have he := (hw.1.2.entered d ctx a agent hc hl _ _).2 ⟨hplace, rfl⟩
  have he' := (hv.1.2.entered d _ a agent hc' hl' _ _).2 ⟨hplace, rfl⟩
  obtain ⟨hsound, hsound'⟩ := sounds hw hv hc hc'
  rw [hsound.index_of_mem he]
  exact hsound'.index_of_mem he'

end Places

/-! ### Registration -/

section Operations

variable (h : Veiled gone w v) (hw : Grounded gone w) (hv : Grounded gone v)

include h hw hv

theorem insertNow (d : ContextRef) (a : AgentRef) :
    Veiled gone (w.insertNow d a) (v.insertNow d a) := by
  unfold World.insertNow
  rw [h.live? a]
  rcases h.context d with ⟨hc, hc'⟩ | ⟨ctx, r, hc, hc', hs⟩
  · simp only [hc, hc']
    exact h
  · simp only [hc, hc']
    cases hl : w.live? a with
    | none => exact h
    | some agent =>
      simp only [entry h hw hv hc hc' hs hl]
      cases he : ctx.entry agent.place with
      | alreadyHere => exact h
      | elsewhere owner => exact h.report _
      | exhausted => exact h.report _
      | fresh id =>
        obtain ⟨hsound, hsound'⟩ := sounds hw hv hc hc'
        have hregister := hs.register (p := agent.priority) (a := a) hsound hsound'
          (Context.nextId?_of_fresh he)
        exact ((h.modifyRegistry hc hc' hregister).setPlace a _).report _

omit hw hv in
theorem foldl_report (f : String → Event) (names : List String) :
    Veiled gone (names.foldl (fun w name => w.report (f name)) w)
      (names.foldl (fun w name => w.report (f name)) v) := by
  induction names generalizing w v with
  | nil => exact h
  | cons name names ih => exact ih (h.report _)

theorem removeNow (d : ContextRef) (a : AgentRef) :
    Veiled gone (w.removeNow d a) (v.removeNow d a) := by
  unfold World.removeNow
  rw [h.live? a]
  rcases h.context d with ⟨hc, hc'⟩ | ⟨ctx, r, hc, hc', hs⟩
  · simp only [hc, hc']
    exact h
  · simp only [hc, hc']
    cases hl : w.live? a with
    | none => exact h
    | some agent =>
      simp only
      rw [Context.seated_id, Context.seated_registry]
      by_cases hp : agent.place.context = ctx.id
      · have hnames : r.namesOf a = ctx.registry.namesOf a :=
          hs.namesOf_alive (dead hw d) (alive_of_live? hl)
        simp only [if_pos hp, index h hw hv hc hc' hl hp, hnames]
        cases ctx.registry.index.get? agent.place.id with
        | none => exact h
        | some priority =>
          have hgone : Registry.SameBut (gone d)
              ((ctx.registry.unregister priority agent.place.id).unbindAgent a)
              ((r.unregister priority agent.place.id).unbindAgent a) := hs.unregister.unbindAgent
          exact (((h.modifyRegistry hc hc' hgone).foldl_report _ _).setPlace a _).report _
      · simp only [if_neg hp]
        exact h

theorem addAgent (d : ContextRef) (a : AgentRef) :
    Veiled gone (w.addAgent d a) (v.addAgent d a) := by
  have hinsert := insertNow h hw hv d a
  unfold World.addAgent
  rw [h.live? a]
  rcases h.context d with ⟨hc, hc'⟩ | ⟨ctx, r, hc, hc', hs⟩
  · simp only [hc, hc']
    exact h
  · simp only [hc, hc']
    cases w.live? a with
    | none => exact h
    | some agent =>
      simp only
      rw [Context.seated_executing, Context.seated_id]
      split
      · refine Veiled.report (h.modifyRegistry hc hc' ?_) _
        exact hs.queue (congrArg (· ++ [a]) hs.pendingAdd) hs.pendingRemove
      · exact hinsert

theorem removeAgent (d : ContextRef) (a : AgentRef) :
    Veiled gone (w.removeAgent d a) (v.removeAgent d a) := by
  have hremove := removeNow h hw hv d a
  unfold World.removeAgent
  rw [h.live? a]
  rcases h.context d with ⟨hc, hc'⟩ | ⟨ctx, r, hc, hc', hs⟩
  · simp only [hc, hc']
    exact h
  · simp only [hc, hc']
    cases w.live? a with
    | none => exact h
    | some agent =>
      simp only
      rw [Context.seated_executing, Context.seated_id]
      split
      · refine Veiled.report (h.modifyRegistry hc hc' ?_) _
        exact hs.queue hs.pendingAdd (congrArg (· ++ [a]) hs.pendingRemove)
      · exact hremove

/-- Where entries of agents that are gone are dropped, nothing is left of them. -/
theorem prune (d : ContextRef) : Veiled gone (w.prune d) (v.prune d) ∧
    (v.prune d).context? d = (w.prune d).context? d := by
  rcases h.context d with ⟨hc, hc'⟩ | ⟨ctx, r, hc, hc', hs⟩
  · simp only [World.prune, hc, hc']
    exact ⟨h, trivial⟩
  · obtain ⟨hsound, hsound'⟩ := sounds hw hv hc hc'
    have hsame : r.prune v.alive = ctx.registry.prune w.alive := by
      rw [h.alive]
      exact hs.prune_eq hsound hsound' (dead hw d)
    have hpruned : Veiled gone (w.modifyRegistry d (·.prune w.alive))
        (v.modifyRegistry d (·.prune v.alive)) := h.modifyRegistry hc hc' (by
      rw [hsame]
      exact .refl _ _)
    constructor
    · rcases prune_cases hc with hx | ⟨n, hx⟩ <;> rcases prune_cases hc' with hx' | ⟨m, hx'⟩ <;>
        rw [hx, hx']
      · exact hpruned
      · exact hpruned.report_right rfl
      · exact hpruned.report_left rfl
      · exact (hpruned.report_left rfl).report_right rfl
    · rw [(becomes_prune hc).self, (becomes_prune hc').self, Context.withRegistry,
        Context.withRegistry, Context.seated_registry, hsame]
      rfl

omit hv in
/-- All agents of a context leave it. -/
theorem clearRegistry (d : ContextRef) :
    Veiled gone (w.clearRegistry d) (v.clearRegistry d) := by
  unfold World.clearRegistry
  rcases h.context d with ⟨hc, hc'⟩ | ⟨ctx, r, hc, hc', hs⟩
  · simp only [hc, hc']
    exact h
  · simp only [hc, hc', Context.seated_registry]
    have hagents : (v.clearPlaces r).agents = (w.clearPlaces ctx.registry).agents := by
      refine agents_ext fun b => ?_
      rw [agent?_clearPlaces, agent?_clearPlaces, h.agent? b]
      cases hb : w.agent? b with
      | none => rfl
      | some agent =>
        refine congrArg some ?_
        have hmem : (agent.alive = true ∧ b ∈ r.walkOrder) ↔
            (agent.alive = true ∧ b ∈ ctx.registry.walkOrder) := by
          refine and_congr_right fun hlive => ?_
          have hspared : gone d b = false := Registry.SameBut.spared (dead hw d)
            (alive_of_live? (live?_eq_some.2 ⟨hb, hlive⟩))
          rw [Registry.mem_walkOrder, Registry.mem_walkOrder]
          exact exists_congr fun p => exists_congr fun i => hs.entries p i b hspared
        simp only [hmem]
    obtain ⟨hcontexts, hhost⟩ := clearPlaces_rest (w := w) ctx.registry
    obtain ⟨hcontexts', hhost'⟩ := clearPlaces_rest (w := v) r
    have hcleared : Veiled gone (w.clearPlaces ctx.registry) (v.clearPlaces r) := by
      refine ⟨hagents, by rw [hcontexts, hcontexts', h.size], fun d' => ?_, ?_⟩
      · rw [context?_clearPlaces, context?_clearPlaces]
        exact h.context d'
      · rw [hhost, hhost', h.shown]
    exact hcleared.modifyRegistry ((context?_clearPlaces _).trans hc)
      ((context?_clearPlaces _).trans hc') hs.clear

omit hv in
theorem release (d : ContextRef) : Veiled gone (w.release d) (v.release d) := by
  have hcleared := clearRegistry h hw d
  unfold World.release
  rcases h.context d with ⟨hc, hc'⟩ | ⟨ctx, r, hc, hc', -⟩
  · simp only [hc, hc']
    exact h
  · simp only [hc, hc', Context.seated_id]
    refine Veiled.report ?_ _
    exact hcleared.setRest d (fun _ _ => rfl) fun _ => rfl

omit hv in
theorem dropContext (d : ContextRef) : Veiled gone (w.dropContext d) (v.dropContext d) := by
  have hcleared := clearRegistry h hw d
  refine ⟨hcleared.agents, ?_, fun d' => ?_, hcleared.shown⟩
  · simp only [World.dropContext, Array.size_modify, hcleared.size]
  · rw [context?_dropContext_eq, context?_dropContext_eq]
    split
    · exact .inl ⟨rfl, rfl⟩
    · exact hcleared.context d'

/-! ### Names -/

theorem bind (d : ContextRef) (name : String) (a : AgentRef) :
    VeiledResults gone (w.bind d name a) (v.bind d name a) := by
  unfold World.bind
  rw [h.live? a]
  rcases h.context d with ⟨hc, hc'⟩ | ⟨ctx, r, hc, hc', hs⟩
  · simp only [hc, hc']
    exact ⟨rfl, h⟩
  · simp only [hc, hc']
    cases hl : w.live? a with
    | none => exact ⟨rfl, h⟩
    | some agent =>
      have hnamed := hs.named_alive (dead hw d) name
      have hfault : v.bindFault? (ctx.seated r) name a agent = w.bindFault? ctx name a agent := by
        rw [bindFault?_eq, bindFault?_eq, holds h hw hv hc hc' hl, h.alive, Context.seated_types,
          Context.seated_id, Context.seated_registry, hs.pendingAdd, hnamed]
      have hbound : r.named.get? name = some a ↔ ctx.registry.named.get? name = some a :=
        hs.named name a (Registry.SameBut.spared (dead hw d) (alive_of_live? hl))
      simp only [hfault]
      rw [Context.seated_registry, Context.seated_id]
      cases w.bindFault? ctx name a agent with
      | some fault => exact ⟨rfl, h⟩
      | none =>
        simp only [hbound]
        split
        · exact ⟨rfl, h⟩
        · exact ⟨rfl, (h.modifyRegistry hc hc' (hs.setBinding name)).report _⟩

omit hv in
theorem unbind (d : ContextRef) (name : String) :
    VeiledResults gone (w.unbind d name) (v.unbind d name) := by
  unfold World.unbind
  rcases h.context d with ⟨hc, hc'⟩ | ⟨ctx, r, hc, hc', hs⟩
  · simp only [hc, hc']
    exact ⟨rfl, h⟩
  · simp only [hc, hc']
    have hdropped : Veiled gone (w.modifyRegistry d (·.dropBinding name))
        (v.modifyRegistry d (·.dropBinding name)) := h.modifyRegistry hc hc' (hs.dropBinding name)
    have hany (x : Option AgentRef) : x.any w.alive = (x.filter w.alive).isSome := by
      cases x with
      | none => rfl
      | some a => cases ha : w.alive a <;> simp [Option.filter, ha]
    have hnamed : (r.named.get? name).any w.alive = (ctx.registry.named.get? name).any w.alive := by
      rw [hany, hany, hs.named_alive (dead hw d) name]
    rw [Context.seated_registry, Context.seated_id, h.alive, hnamed]
    split
    · exact ⟨rfl, hdropped.report _⟩
    · exact ⟨rfl, hdropped⟩

omit hv in
theorem lookup (d : ContextRef) (name : String) : v.lookup d name = w.lookup d name := by
  unfold World.lookup
  rw [h.alive]
  rcases h.context d with ⟨hc, hc'⟩ | ⟨ctx, r, hc, hc', hs⟩
  · rw [hc, hc']
  · rw [hc, hc']
    exact hs.named_alive (dead hw d) name

omit hw hv in
theorem clearBindings (d : ContextRef) : Veiled gone (w.clearBindings d) (v.clearBindings d) :=
  h.modifyContext d fun _ _ _ _ hs => ⟨_, rfl, hs.rename fun _ _ _ => .rfl⟩

/-! ### Values and states -/

omit hw hv in
theorem getStatic (d : ContextRef) (cls name : String) :
    v.getStatic d cls name = w.getStatic d cls name := by
  unfold World.getStatic
  rcases h.context d with ⟨hc, hc'⟩ | ⟨ctx, r, hc, hc', -⟩
  · rw [hc, hc']
  · rw [hc, hc']
    rfl

omit hw hv in
theorem setStatic (d : ContextRef) (cls name : String) (x : Value) :
    VeiledResults gone (w.setStatic d cls name x) (v.setStatic d cls name x) := by
  unfold World.setStatic
  rcases h.context d with ⟨hc, hc'⟩ | ⟨ctx, r, hc, hc', -⟩
  · simp only [hc, hc']
    exact ⟨rfl, h⟩
  · simp only [hc, hc', Context.seated_statics, Context.seated_types]
    cases ctx.statics.set ctx.types cls name x with
    | error e => exact ⟨rfl, h⟩
    | ok statics => exact ⟨rfl, h.setRest d (fun _ _ => rfl) fun _ => rfl⟩

omit hv in
/-- The living agents of a context, in the order in which a tick visits them. -/
theorem handles (hs : Registry.SameBut (gone d) ctx.registry r) :
    v.handles r = w.handles ctx.registry := by
  rw [World.handles, World.handles, h.alive]
  exact hs.walkOrder_alive (dead hw d)

omit hv in
theorem bindings (hs : Registry.SameBut (gone d) ctx.registry r) :
    v.bindings r = w.bindings ctx.registry := by
  rw [World.bindings, World.bindings, h.alive]
  exact hs.bindings_alive (dead hw d)

end Operations

end Veiled

end World

end AgentScheduler
