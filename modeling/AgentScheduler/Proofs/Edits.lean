/-
What an operation on a context can do to a world. `Edit` lists the elementary
changes, each with the conditions under which it is made; every operation that
runs no task is a chain of them (`answerContextOp_edits`). Invariants are then
shown for each change once, instead of for each operation.
-/
import AgentScheduler.Proofs.RegistryFacts
import AgentScheduler.Proofs.WorldFacts
import AgentScheduler.Tick
import Mathlib.Logic.Relation

/-- A context apart from its agents, names, values and time. -/
def AgentScheduler.Context.shell (ctx : AgentScheduler.Context) : AgentScheduler.Context :=
  { ctx with registry := {}, statics := {}, clock := {} }

namespace AgentScheduler.World

variable {τ α : Type} {w v u : World τ α} {c c' : ContextRef} {a b : AgentRef}

/-! ## Elementary changes -/

/-- The same agents, up to the states of their tasks. -/
def SameAgents (w v : World τ α) : Prop :=
  ∀ a, (v.agent? a).map Agent.body = (w.agent? a).map Agent.body

/-- The same contexts. -/
def SameContexts (w v : World τ α) : Prop := ∀ c, v.context? c = w.context? c

/-- One context is now `ctx'`, and every other one is as before. -/
def Becomes (c : ContextRef) (ctx' : Context) (w v : World τ α) : Prop :=
  ∀ c', v.context? c' = if c' = c then some ctx' else w.context? c'

/-- A name of the context may stand for the agent: the name is valid for the agent's class,
and the agent is registered in the context or waits for it. -/
def Bindable (w : World τ α) (ctx : Context) (name : String) (a : AgentRef) : Prop :=
  ∃ agent, w.live? a = some agent ∧ ctx.types.isValidInstanceName name agent.cls = true ∧
    (ctx.holds agent.place = true ∨ a ∈ ctx.registry.pendingAdd ∨
      ∃ p i, (p, i, a) ∈ ctx.registry.entries)

/-- An elementary change by an operation on the context `c`. -/
inductive Edit (c : ContextRef) (w v : World τ α) : Prop
  /-- No context changes. -/
  | rest (hc : SameContexts w v) (ha : SameAgents w v)
  /-- Values, time and names change; a new name stands for an agent it may stand for. -/
  | set {ctx : Context} (statics : Statics) (clock : Clock) (named : SortedMap String AgentRef)
      (hc : w.context? c = some ctx)
      (hn : ∀ name a, named.get? name = some a →
        ctx.registry.named.get? name = some a ∨ w.Bindable ctx name a)
      (hv : Becomes c { ctx with statics, clock, registry := { ctx.registry with named } } w v)
      (ha : SameAgents w v)
  /-- During a tick, a living agent is to be registered or unregistered later. -/
  | wait {ctx : Context} (adds removes : List AgentRef) (hc : w.context? c = some ctx)
      (hx : ctx.executing = true) (hl : ∀ a ∈ adds ++ removes, w.alive a = true)
      (hv : Becomes c { ctx with registry := { ctx.registry with
        pendingAdd := ctx.registry.pendingAdd ++ adds
        pendingRemove := ctx.registry.pendingRemove ++ removes } } w v)
      (ha : SameAgents w v)
  /-- Between ticks, a living agent that is registered nowhere is registered. -/
  | enroll {ctx : Context} {agent : Agent τ} (a : AgentRef) (id : AgentId)
      (hc : w.context? c = some ctx) (hx : ctx.executing = false)
      (hl : w.live? a = some agent) (he : ctx.entry agent.place = .fresh id)
      (hv : Becomes c (ctx.withRegistry (·.register a agent.priority id)) w v)
      (ha : ∀ b, v.agent? b =
        if b = a then some { agent with place := ⟨ctx.id, id⟩ } else w.agent? b)
  /-- Between ticks, a living agent of the context is unregistered, and its names go. -/
  | dismiss {ctx : Context} {agent : Agent τ} {priority : Int32} (a : AgentRef)
      (hc : w.context? c = some ctx) (hx : ctx.executing = false)
      (hl : w.live? a = some agent) (hp : agent.place.context = ctx.id)
      (hi : ctx.registry.index.get? agent.place.id = some priority)
      (hv : Becomes c
        (ctx.withRegistry fun r => (r.unregister priority agent.place.id).unbindAgent a) w v)
      (ha : ∀ b, v.agent? b = if b = a then some { agent with place := {} } else w.agent? b)
  /-- Registrations and names of agents that are gone are dropped. -/
  | prune {ctx : Context} (hc : w.context? c = some ctx)
      (hv : Becomes c (ctx.withRegistry (·.prune w.alive)) w v) (ha : SameAgents w v)
  /-- All agents of the context are unregistered. -/
  | clear {ctx : Context} (hc : w.context? c = some ctx)
      (hv : Becomes c (ctx.withRegistry (·.clear)) w v)
      (ha : ∀ b, v.agent? b = (w.agent? b).map fun agent =>
        if agent.alive = true ∧ b ∈ ctx.registry.walkOrder then { agent with place := {} }
        else agent)

/-- A chain of elementary changes. -/
abbrev Edits (c : ContextRef) : World τ α → World τ α → Prop := Relation.ReflTransGen (Edit c)

theorem SameAgents.refl (w : World τ α) : SameAgents w w := fun _ => rfl

theorem SameAgents.trans (h : SameAgents w v) (h' : SameAgents v u) : SameAgents w u :=
  fun a => (h' a).trans (h a)

theorem SameContexts.refl (w : World τ α) : SameContexts w w := fun _ => rfl

theorem SameContexts.trans (h : SameContexts w v) (h' : SameContexts v u) : SameContexts w u :=
  fun c => (h' c).trans (h c)

theorem Becomes.self {ctx' : Context} (h : Becomes c ctx' w v) : v.context? c = some ctx' := by
  rw [h c, if_pos rfl]

theorem Becomes.other {ctx' : Context} (h : Becomes c ctx' w v) (hne : c' ≠ c) :
    v.context? c' = w.context? c' := by
  rw [h c', if_neg hne]

theorem Becomes.cases {ctx' x : Context} (h : Becomes c ctx' w v) (hx : v.context? c' = some x) :
    c' = c ∧ x = ctx' ∨ c' ≠ c ∧ w.context? c' = some x := by
  by_cases hne : c' = c
  · rw [hne, h.self] at hx
    exact .inl ⟨hne, (Option.some.inj hx).symm⟩
  · exact .inr ⟨hne, h.other hne ▸ hx⟩

theorem becomes_modifyContext {ctx : Context} (hc : w.context? c = some ctx)
    (f : Context → Context) : Becomes c (f ctx) w (w.modifyContext c f) := by
  intro c'
  rw [context?_modifyContext]
  split
  · next h => rw [h, hc, Option.map_some]
  · rfl

theorem becomes_modifyRegistry {ctx : Context} (hc : w.context? c = some ctx)
    (f : Registry → Registry) : Becomes c (ctx.withRegistry f) w (w.modifyRegistry c f) :=
  becomes_modifyContext hc _

/-- A context that is gone cannot be changed. -/
theorem sameContexts_modifyContext (hc : w.context? c = none) (f : Context → Context) :
    SameContexts w (w.modifyContext c f) := by
  intro c'
  rw [context?_modifyContext]
  split
  · next h => rw [h, hc, Option.map_none]
  · rfl

/-- A change of the host alone. -/
theorem Edit.host (h : Host α) : Edit c w { w with host := h } :=
  .rest (fun _ => rfl) (fun _ => rfl)

theorem Edit.report (e : Event) : Edit c w (w.report e) := .host _

theorem Edits.report (h : Edits c w v) (e : Event) : Edits c w (v.report e) := h.tail (.report e)

/-- A change of values and time alone. -/
theorem Edit.setRest {ctx : Context} (hc : w.context? c = some ctx) (f : Context → Context)
    (hf : f ctx = { ctx with statics := (f ctx).statics, clock := (f ctx).clock }) :
    Edit c w (w.modifyContext c f) := by
  refine .set (f ctx).statics (f ctx).clock ctx.registry.named hc (fun _ _ h => .inl h) ?_
    (.refl w)
  have := becomes_modifyContext hc f
  rw [hf] at this
  exact this

/-- A change of names alone. -/
theorem Edit.setNames {ctx : Context} (hc : w.context? c = some ctx)
    (f : SortedMap String AgentRef → SortedMap String AgentRef)
    (hn : ∀ name a, (f ctx.registry.named).get? name = some a →
      ctx.registry.named.get? name = some a ∨ w.Bindable ctx name a) :
    Edit c w (w.modifyRegistry c fun r => { r with named := f r.named }) :=
  .set ctx.statics ctx.clock (f ctx.registry.named) hc hn (becomes_modifyContext hc _) (.refl w)

/-! ## What no edit changes -/

theorem Becomes.shell {ctx ctx' : Context} (hc : w.context? c = some ctx)
    (hv : Becomes c ctx' w v) (hs : ctx'.shell = ctx.shell) (c' : ContextRef) :
    (v.context? c').map Context.shell = (w.context? c').map Context.shell := by
  by_cases hne : c' = c
  · subst hne
    rw [hv.self, hc, Option.map_some, Option.map_some, hs]
  · rw [hv.other hne]

/-- Edits leave the identity of contexts alone, and whether a tick is under way. -/
theorem Edit.shell (h : Edit c w v) (c' : ContextRef) :
    (v.context? c').map Context.shell = (w.context? c').map Context.shell := by
  cases h with
  | rest hc _ => rw [hc c']
  | set _ _ _ hc _ hv _ | wait _ _ hc _ _ hv _ | enroll _ _ hc _ _ _ hv _
  | dismiss _ hc _ _ _ _ hv _ | prune hc hv _ | clear hc hv _ => exact hv.shell hc rfl c'

theorem Edit.other (h : Edit c w v) (hne : c' ≠ c) : v.context? c' = w.context? c' := by
  cases h with
  | rest hc _ => exact hc c'
  | set _ _ _ _ _ hv _ | wait _ _ _ _ _ hv _ | enroll _ _ _ _ _ _ hv _
  | dismiss _ _ _ _ _ _ hv _ | prune _ hv _ | clear _ hv _ => exact hv.other hne

theorem Edits.shell (h : Edits c w v) (c' : ContextRef) :
    (v.context? c').map Context.shell = (w.context? c').map Context.shell := by
  induction h with
  | refl => rfl
  | tail _ h ih => exact (h.shell c').trans ih

theorem Edits.other (h : Edits c w v) (hne : c' ≠ c) : v.context? c' = w.context? c' := by
  induction h with
  | refl => rfl
  | tail _ h ih => exact (h.other hne).trans ih

/-! ## Registration -/

theorem insertNow_edits (hx : ∀ ctx, w.context? c = some ctx → ctx.executing = false) :
    Edits c w (w.insertNow c a) := by
  unfold insertNow
  split
  · next ctx agent hc hl =>
    split
    · exact .refl
    · exact .single (.report _)
    · exact .single (.report _)
    · next id he =>
      refine Edits.report (.single ?_) _
      refine .enroll a id hc (hx ctx hc) hl he (becomes_modifyContext hc _) fun b => ?_
      rw [setPlace, agent?_modifyAgent]
      split
      · next h => rw [h, agent?_modifyRegistry, (live?_eq_some.1 hl).1, Option.map_some]
      · rfl
  · exact .refl

/-- Reports change nothing but the host. -/
theorem views_foldl_report (f : String → Event) (names : List String) :
    SameContexts w (names.foldl (fun w name => w.report (f name)) w) ∧
      ∀ b, (names.foldl (fun w name => w.report (f name)) w).agent? b = w.agent? b := by
  induction names generalizing w with
  | nil => exact ⟨fun _ => rfl, fun _ => rfl⟩
  | cons name names ih => exact ih (w := w.report (f name))

theorem removeNow_edits (hx : ∀ ctx, w.context? c = some ctx → ctx.executing = false) :
    Edits c w (w.removeNow c a) := by
  unfold removeNow
  split
  · next ctx agent hc hl =>
    split
    · next hp =>
      split
      · exact .refl
      · next priority hi =>
        refine Edits.report (.single ?_) _
        obtain ⟨hsame, hag⟩ := views_foldl_report (w := w.modifyRegistry c fun r =>
          (r.unregister priority agent.place.id).unbindAgent a)
          (.bindingDropped ctx.id ·) (ctx.registry.namesOf a)
        refine .dismiss a hc (hx ctx hc) hl hp hi (fun c' => ?_) fun b => ?_
        · rw [context?_setPlace, hsame c']
          exact becomes_modifyContext hc _ c'
        · rw [setPlace, agent?_modifyAgent, hag b, agent?_modifyRegistry]
          split
          · next h => rw [h, (live?_eq_some.1 hl).1, Option.map_some]
          · rfl
    · exact .refl
  · exact .refl

theorem addAgent_edits : Edits c w (w.addAgent c a) := by
  unfold addAgent
  split
  · next ctx agent hc hl =>
    split
    · next hx =>
      refine Edits.report (.single ?_) _
      refine .wait [a] [] hc hx (fun b hb => ?_) ?_ (.refl w)
      · rw [List.append_nil, List.mem_singleton] at hb
        exact hb ▸ alive_of_live? hl
      · simp only [List.append_nil]
        exact becomes_modifyRegistry hc _
    · next hx =>
      exact insertNow_edits fun ctx' hc' => by
        rw [hc] at hc'; cases hc'; exact Bool.eq_false_iff.2 hx
  · exact .refl

theorem removeAgent_edits : Edits c w (w.removeAgent c a) := by
  unfold removeAgent
  split
  · next ctx agent hc hl =>
    split
    · next hx =>
      refine Edits.report (.single ?_) _
      refine .wait [] [a] hc hx (fun b hb => ?_) ?_ (.refl w)
      · rw [List.nil_append, List.mem_singleton] at hb
        exact hb ▸ alive_of_live? hl
      · simp only [List.append_nil]
        exact becomes_modifyRegistry hc _
    · next hx =>
      exact removeNow_edits fun ctx' hc' => by
        rw [hc] at hc'; cases hc'; exact Bool.eq_false_iff.2 hx
  · exact .refl

/-- Dropped entries are reported, if there are any. -/
theorem prune_cases {ctx : Context} (hc : w.context? c = some ctx) :
    w.prune c = w.modifyRegistry c (·.prune w.alive) ∨
      ∃ n, w.prune c = (w.modifyRegistry c (·.prune w.alive)).report (.stalePruned ctx.id n) := by
  simp only [prune, hc]
  split
  · exact .inl rfl
  · exact .inr ⟨_, rfl⟩

theorem becomes_prune {ctx : Context} (hc : w.context? c = some ctx) :
    Becomes c (ctx.withRegistry (·.prune w.alive)) w (w.prune c) := by
  have h := becomes_modifyRegistry hc (·.prune w.alive)
  rcases prune_cases hc with he | ⟨n, he⟩
  · exact he ▸ h
  · exact he ▸ h

theorem agent?_prune : (w.prune c).agent? a = w.agent? a := by
  unfold prune
  split
  · rfl
  · simp only
    split <;> rfl

theorem prune_edits : Edits c w (w.prune c) := by
  cases hc : w.context? c with
  | none =>
    simp only [prune, hc]
    exact .refl
  | some ctx => exact .single (.prune hc (becomes_prune hc) fun a => by rw [agent?_prune])

theorem clearRegistry_edits : Edits c w (w.clearRegistry c) := by
  unfold clearRegistry
  split
  · exact .refl
  · next ctx hc =>
    refine .single (.clear hc (fun c' => ?_) fun b => ?_)
    · have hc' : (w.clearPlaces ctx.registry).context? c = some ctx := by
        rw [context?_clearPlaces, hc]
      have := becomes_modifyContext hc' (·.withRegistry (·.clear)) c'
      rw [context?_clearPlaces] at this
      exact this
    · rw [agent?_modifyRegistry, agent?_clearPlaces]

/-! ## Names and values -/

theorem bind_edits (name : String) : Edits c w (w.bind c name a).2 := by
  unfold bind
  split
  · next ctx agent hc hl =>
    split
    · exact .refl
    · next hfault =>
      split
      · exact .refl
      · refine Edits.report (.single ?_) _
        refine .setNames hc (·.insert name a) fun n b hb => ?_
        rw [SortedMap.get?_insert] at hb
        split at hb
        · next hn =>
          cases hb
          subst hn
          unfold bindFault? at hfault
          split at hfault
          · cases hfault
          next hvalid =>
          split at hfault
          · cases hfault
          split at hfault
          · cases hfault
          next hheld =>
          refine .inr ⟨agent, hl, by simpa using hvalid, ?_⟩
          by_cases hh : ctx.holds agent.place = true
          · exact .inl hh
          · exact .inr (.inl (by simpa [hh] using hheld))
        · exact .inl hb
  · exact .refl

theorem unbind_edits (name : String) : Edits c w (w.unbind c name).2 := by
  unfold unbind
  split
  · exact .refl
  · next ctx hc =>
    have h : Edits c w (w.modifyRegistry c (·.dropBinding name)) := by
      refine .single (.setNames hc (·.erase name) fun n b hb => ?_)
      rw [SortedMap.get?_erase] at hb
      split at hb
      · cases hb
      · exact .inl hb
    simp only
    split
    · exact h.report _
    · exact h

theorem clearBindings_edits : Edits c w (w.clearBindings c) := by
  cases hc : w.context? c with
  | none => exact .single (.rest (sameContexts_modifyContext hc _) (.refl w))
  | some ctx => exact .single (.setNames hc (fun _ => .empty) fun n b hb => by cases hb)

/-- A change of values and time alone, on a context that may be gone. -/
theorem setRest_edits (f : Context → Context)
    (hf : ∀ ctx, f ctx = { ctx with statics := (f ctx).statics, clock := (f ctx).clock }) :
    Edits c w (w.modifyContext c f) := by
  cases hc : w.context? c with
  | none => exact .single (.rest (sameContexts_modifyContext hc _) (.refl w))
  | some ctx => exact .single (.setRest hc f (hf ctx))

theorem setStatic_edits (cls name : String) (x : Value) :
    Edits c w (w.setStatic c cls name x).2 := by
  unfold setStatic
  split
  · exact .refl
  · split
    · exact .refl
    · exact setRest_edits _ fun _ => rfl

theorem logStatics_edits (cls : Option String) (sink : Sink α) :
    Edits c w (w.logStatics c cls sink).2 := by
  unfold logStatics
  split
  · exact .refl
  · split
    · exact .refl
    · exact .tail (setRest_edits _ fun _ => rfl) (.host _)

theorem release_edits : Edits c w (w.release c) := by
  unfold release
  split
  · exact .refl
  · exact Edits.report (clearRegistry_edits.trans (setRest_edits _ fun _ => rfl)) _

/-! ## Operations -/

theorem answerTaskOp_edits (op : TaskOp) : Edits c w (w.answerTaskOp c op).2 := by
  cases op with
  | contextId | clock | isExecuting | lookup | getStatic => exact .refl
  | add a => exact addAgent_edits
  | remove a => exact removeAgent_edits
  | bind name a => exact bind_edits name
  | unbind name => exact unbind_edits name
  | setStatic cls name x => exact setStatic_edits cls name x

/-! ## Snapshots -/

theorem bind_ok {ε β γ : Type} {x : Except ε β} {f : β → Except ε γ} {y : γ} :
    (x >>= f) = .ok y ↔ ∃ a, x = .ok a ∧ f a = .ok y := by
  cases x with
  | error e => exact ⟨fun h => (by cases h), fun ⟨_, h, _⟩ => (by cases h)⟩
  | ok a => exact ⟨fun h => ⟨a, rfl, h⟩, fun ⟨_, h, h'⟩ => (by cases h; exact h')⟩

/-- The outcomes of a list of computations that all succeed are outcomes of its members. -/
theorem mem_of_mapM_ok {ε β γ : Type} {f : β → Except ε γ} {l : List β} {ys : List γ}
    (h : l.mapM f = .ok ys) : ∀ y ∈ ys, ∃ x ∈ l, f x = .ok y := by
  induction l generalizing ys with
  | nil =>
    rw [List.mapM_nil] at h
    cases h
    exact fun y hy => by cases hy
  | cons x l ih =>
    rw [List.mapM_cons] at h
    obtain ⟨y, hx, h⟩ := bind_ok.1 h
    obtain ⟨zs, hl, h⟩ := bind_ok.1 h
    cases h
    intro z hz
    rcases List.mem_cons.1 hz with rfl | hz
    · exact ⟨x, List.mem_cons_self, hx⟩
    · obtain ⟨x', hx', he⟩ := ih hl z hz
      exact ⟨x', List.mem_cons_of_mem _ hx', he⟩

/-- The id stands for this living agent of this context, and it is of the class. -/
def Resolves (w : World τ α) (ctx : Context) (id : AgentId) (cls : String) (a : AgentRef) : Prop :=
  ctx.registry.agent? id = some a ∧ ∃ agent, w.live? a = some agent ∧ agent.cls = cls

theorem resolve_eq_ok_iff {ctx : Context} {id : AgentId} {cls : String} :
    w.resolve ctx id cls = .ok a ↔ w.Resolves ctx id cls a := by
  constructor
  · intro h
    unfold resolve at h
    split at h
    · cases h
    next b hb =>
    split at h
    · cases h
    next agent hagent =>
    split at h
    · next hcls =>
      cases h
      obtain ⟨hid, halive⟩ := Option.filter_eq_some_iff.1 hb
      obtain ⟨agent', hl⟩ := alive_iff.1 halive
      obtain rfl := Option.some.inj ((live?_eq_some.1 hl).1.symm.trans hagent)
      exact ⟨hid, agent', hl, hcls⟩
    · cases h
  · rintro ⟨hid, agent, hl, rfl⟩
    have halive : w.alive a = true := alive_of_live? hl
    simp only [resolve, hid, Option.filter, halive, (live?_eq_some.1 hl).1, if_true]
    rfl

/-- An agent that is resolved is a living one of the class that the buckets hold under the
id. -/
theorem resolve_ok {ctx : Context} {id : AgentId} {cls : String}
    (h : w.resolve ctx id cls = .ok a) :
    ∃ agent p, w.live? a = some agent ∧ agent.cls = cls ∧ (p, id, a) ∈ ctx.registry.entries := by
  obtain ⟨hid, agent, hl, hcls⟩ := resolve_eq_ok_iff.1 h
  obtain ⟨p, -, hp⟩ := Option.bind_eq_some_iff.1 hid
  exact ⟨agent, p, hl, hcls, Registry.mem_entries.2 hp⟩

theorem resolveBinding_bindable {ctx : Context} {name : String} {b : NamedBinding}
    (h : w.resolveBinding ctx name b = .ok a) : w.Bindable ctx name a := by
  unfold resolveBinding at h
  obtain ⟨a', hr, h⟩ := bind_ok.1 h
  split at h
  · next hv =>
    cases h
    obtain ⟨agent, p, hl, hcls, he⟩ := resolve_ok hr
    exact ⟨agent, hl, hcls ▸ hv, .inr (.inr ⟨p, _, he⟩)⟩
  · cases h

/-- The names of a snapshot that is found are bound to agents they may stand for. -/
theorem resolveAll_named {ctx : Context} {s : Snapshot} {named : SortedMap String AgentRef}
    {targets : List (AgentRef × Json)} (h : w.resolveAll ctx s = .ok (named, targets))
    {name : String} (hn : named.get? name = some a) : w.Bindable ctx name a := by
  unfold resolveAll at h
  dsimp only at h
  split at h
  · cases h
  split at h
  · cases h
  obtain ⟨bound, hb, h⟩ := bind_ok.1 h
  obtain ⟨_, -, h⟩ := bind_ok.1 h
  cases h
  obtain ⟨⟨name', b⟩, -, he⟩ := mem_of_mapM_ok hb _ (SortedMap.mem_of_get?_ofList hn)
  obtain ⟨a', hr, he⟩ := bind_ok.1 he
  cases he
  exact resolveBinding_bindable hr

theorem SameAgents.exists_live (h : SameAgents w v) {agent : Agent τ}
    (hl : w.live? a = some agent) :
    ∃ agent', v.live? a = some agent' ∧ agent'.body = agent.body := by
  rw [live?_eq_some] at hl
  have ha := h a
  rw [hl.1, Option.map_some, Option.map_eq_some_iff] at ha
  obtain ⟨agent', ha', hb⟩ := ha
  refine ⟨agent', live?_eq_some.2 ⟨ha', ?_⟩, hb⟩
  have : agent'.body.alive = agent.body.alive := by rw [hb]
  exact this.trans hl.2

theorem Bindable.of_same {ctx : Context} {name : String} (h : SameAgents w v)
    (hb : w.Bindable ctx name a) : v.Bindable ctx name a := by
  obtain ⟨agent, hl, hv, hr⟩ := hb
  obtain ⟨agent', hl', hbody⟩ := h.exists_live hl
  have hcls : agent'.cls = agent.cls := (Agent.mk.injEq .. ▸ hbody).2.1
  have hplace : agent'.place = agent.place := (Agent.mk.injEq .. ▸ hbody).2.2.2.1
  exact ⟨agent', hl', hcls ▸ hv, hplace ▸ hr⟩

/-! ## Task states -/

section Tasks

variable [Behavior τ α]

/-- Giving a state to a task changes nothing but the task. -/
theorem loadTask_edits (state : Json) : SameContexts w (w.loadTask a state).2 ∧
    SameAgents w (w.loadTask a state).2 := by
  unfold loadTask
  split
  · exact ⟨.refl w, .refl w⟩
  · split
    · exact ⟨.refl w, .refl w⟩
    · refine ⟨fun _ => rfl, fun b => ?_⟩
      simp only
      rw [agent?_modifyAgent]
      split
      · rw [Option.map_map]; rfl
      · rfl

theorem rollBack_edits (l : List (AgentRef × Json)) : SameContexts w (rollBack l w) ∧
    SameAgents w (rollBack l w) := by
  induction l generalizing w with
  | nil => exact ⟨.refl w, .refl w⟩
  | cons e l ih =>
    obtain ⟨a, before⟩ := e
    have h := loadTask_edits (w := w) (a := a) before
    unfold rollBack
    split
    · next w' hw =>
      rw [hw] at h
      exact ⟨h.1.trans ih.1, h.2.trans ih.2⟩
    · next e w' hw =>
      rw [hw] at h
      have ih' := ih (w := w'.report
        (.rollbackFailed (((w'.agent? a).map (·.place.id)).getD .invalid) e))
      exact ⟨h.1.trans ih'.1, h.2.trans ih'.2⟩

theorem restore_edits (l done : List (AgentRef × Json)) : SameContexts w (restore l done w).2 ∧
    SameAgents w (restore l done w).2 := by
  induction l generalizing w done with
  | nil => exact ⟨.refl w, .refl w⟩
  | cons e l ih =>
    obtain ⟨a, state⟩ := e
    have h := loadTask_edits (w := w) (a := a) state
    unfold restore
    split
    · exact rollBack_edits done
    · next before hs =>
      split
      · next w' hw =>
        rw [hw] at h
        have ih' := ih (w := w') ((a, before) :: done)
        exact ⟨h.1.trans ih'.1, h.2.trans ih'.2⟩
      · next e w' hw =>
        rw [hw] at h
        have ih' := rollBack_edits (w := w') done
        exact ⟨h.1.trans ih'.1, h.2.trans ih'.2⟩

theorem load_edits (s : Snapshot) : Edits c w (w.load c s).2 := by
  unfold load
  split
  · exact .refl
  next ctx hc =>
  split
  · exact .refl
  split
  · exact .refl
  next named targets hr =>
  obtain ⟨hctx, hag⟩ := restore_edits (w := w) targets []
  split
  · next e w' hw =>
    rw [hw] at hctx hag
    exact .single (.rest hctx hag)
  · next w' hw =>
    rw [hw] at hctx hag
    have hc' : w'.context? c = some ctx := (hctx c).trans hc
    refine Edits.report (.head (.rest hctx hag) (.single ?_)) _
    refine .set _ _ named hc' (fun name a hn => .inr ?_) (becomes_modifyContext hc' _) (.refl w')
    exact (resolveAll_named hr hn).of_same hag

theorem logAgents_edits (ctx : Context) (sink : Sink α) (l : List AgentRef) (n : Nat) :
    Edits c w (logAgents ctx sink l n w).2 := by
  induction l generalizing w n with
  | nil => exact .refl
  | cons a l ih =>
    unfold logAgents
    split
    · exact ih n
    · simp only
      split
      · exact .single (.host _)
      · next host _ => exact .head (.host host) (ih (n + 1))

theorem logState_edits (sink : Sink α) : Edits c w (w.logState c sink).2 := by
  unfold logState
  split
  · exact .refl
  next ctx hc =>
  have h := logAgents_edits (c := c) (w := w) ctx sink (w.handles ctx.registry) 0
  split
  · next w' hw => rw [hw] at h; exact h
  · next n w' hw =>
    rw [hw] at h
    have h' := logStatics_edits (w := w') (c := c) none sink
    split
    · next w'' hw' => rw [hw'] at h'; exact h.trans h'
    · next w'' hw' => rw [hw'] at h'; exact h.trans h'

theorem save_edits : Edits c w (w.save c).2 := by
  unfold save
  split
  · exact .refl
  split
  · exact .refl
  split
  · exact .refl
  · exact .single (.report _)

/-- Every operation that runs no task is a chain of elementary changes of its context. -/
theorem answerContextOp_edits (nested : Nested τ α) (op : ContextOp α) (h : op ≠ .tick) :
    Edits c w (w.answerContextOp nested c op).2 := by
  cases op with
  | task op => exact answerTaskOp_edits op
  | counts => exact .refl
  | tick => exact absurd rfl h
  | save => exact save_edits
  | load s => exact load_edits s
  | release => exact release_edits
  | logStatics cls sink => exact logStatics_edits cls sink
  | logState sink => exact logState_edits sink
  | clearBindings => exact clearBindings_edits
  | clearBaselines => exact setRest_edits _ fun _ => rfl
  | setClock f => exact setRest_edits _ fun _ => rfl

end Tasks

end AgentScheduler.World
