/-
What stays as it is for good. `Later` says what one world can be of an earlier
one: an agent keeps its class and its priority and does not come back to life,
and a context keeps its identity and gives no id out again (`Registry.Grows`).
Of any two points of a run the second is later (`later_points`), so whoever lost
an id of a context cannot get it back.
-/
import AgentScheduler.Proofs.Coherence
import AgentScheduler.Proofs.Receiver
import AgentScheduler.Proofs.Rest

namespace AgentScheduler

namespace Registry

variable {r r' r'' : Registry} {p : Int32} {i : AgentId} {a : AgentRef}

/-- Every registration is an old one or has a newer id. -/
structure Grows (r r' : Registry) : Prop where
  issued : r.lastId.toNat ≤ r'.lastId.toNat
  entries : ∀ p i a, (p, i, a) ∈ r'.entries →
    (p, i, a) ∈ r.entries ∨ r.lastId.toNat < i.number.toNat

namespace Grows

/-- The same registrations, or some of them. -/
theorem of_subset (hid : r'.lastId = r.lastId)
    (h : ∀ p i a, (p, i, a) ∈ r'.entries → (p, i, a) ∈ r.entries) : r.Grows r' :=
  ⟨Nat.le_of_eq (by rw [hid]), fun p i a he => .inl (h p i a he)⟩

theorem refl (r : Registry) : r.Grows r := .of_subset rfl fun _ _ _ he => he

theorem trans (h : r.Grows r') (h' : r'.Grows r'') : r.Grows r'' where
  issued := Nat.le_trans h.issued h'.issued
  entries p i a he := by
    rcases h'.entries p i a he with he | hi
    · exact h.entries p i a he
    · exact .inr (Nat.lt_of_le_of_lt h.issued hi)

theorem register (h : r.Sound) (hn : r.nextId? = some i) : r.Grows (r.register a p i) := by
  have hi := (nextId?_eq_some hn).1
  refine ⟨?_, fun q j b he => ?_⟩
  · show r.lastId.toNat ≤ i.number.toNat
    omega
  · rcases (mem_entries_register h hn).1 he with he | he
    · cases he
      exact .inr (by omega)
    · exact .inl he

end Grows

end Registry

namespace World

variable {τ α : Type} {w v u : World τ α} {c c' : ContextRef} {a : AgentRef} {ctx ctx' : Context}

/-- What the one world can have become in the other: agents are what they were and do not come
back to life, and the context is the same and gives no id out again. -/
structure Later (c : ContextRef) (w v : World τ α) : Prop where
  agents : ∀ a agent, w.agent? a = some agent → ∃ agent', v.agent? a = some agent' ∧
    agent'.cls = agent.cls ∧ agent'.priority = agent.priority ∧
      (agent'.alive = true → agent.alive = true)
  context : ∀ ctx', v.context? c = some ctx' → ∃ ctx, w.context? c = some ctx ∧
    ctx'.id = ctx.id ∧ ctx'.types = ctx.types ∧ ctx.registry.Grows ctx'.registry

namespace Later

theorem refl (c : ContextRef) (w : World τ α) : Later c w w :=
  ⟨fun _ agent ha => ⟨agent, ha, rfl, rfl, id⟩, fun ctx hc => ⟨ctx, hc, rfl, rfl, .refl _⟩⟩

theorem trans (h : Later c w v) (h' : Later c v u) : Later c w u where
  agents a agent ha := by
    obtain ⟨agent', ha', hcls, hprio, hlive⟩ := h.agents a agent ha
    obtain ⟨agent'', ha'', hcls', hprio', hlive'⟩ := h'.agents a agent' ha'
    exact ⟨agent'', ha'', hcls'.trans hcls, hprio'.trans hprio, hlive ∘ hlive'⟩
  context ctx'' hc := by
    obtain ⟨ctx', hc', hid', htypes', hgrows'⟩ := h'.context ctx'' hc
    obtain ⟨ctx, hc, hid, htypes, hgrows⟩ := h.context ctx' hc'
    exact ⟨ctx, hc, hid'.trans hid, htypes'.trans htypes, hgrows.trans hgrows'⟩

/-- A change of agents that shows at most in the end of their lives. -/
theorem of_fades (hf : Fades w v) (hc : ∀ ctx', v.context? c = some ctx' →
    ∃ ctx, w.context? c = some ctx ∧ ctx'.id = ctx.id ∧ ctx'.types = ctx.types ∧
      ctx.registry.Grows ctx'.registry) : Later c w v where
  agents a agent ha := by
    obtain ⟨agent', ha'⟩ := hf.known ha
    have hview := (hf a).1
    rw [ha, ha', Option.map_some, Option.map_some] at hview
    replace hview : agent'.view = agent.view := Option.some.inj hview
    refine ⟨agent', ha', congrArg AgentView.cls hview, congrArg AgentView.priority hview,
      fun hl => ?_⟩
    obtain ⟨x, hx⟩ := alive_iff.1 ((hf a).2 (alive_of_live? (live?_eq_some.2 ⟨ha', hl⟩)))
    obtain ⟨hax, hlx⟩ := live?_eq_some.1 hx
    obtain rfl := Option.some.inj (ha.symm.trans hax)
    exact hlx
  context := hc

/-- Contexts that are gone or hardly changed. -/
theorem of_contexts (ha : ∀ a, v.agent? a = w.agent? a)
    (hc : ∀ ctx', v.context? c = some ctx' → ∃ ctx, w.context? c = some ctx ∧
      ctx'.id = ctx.id ∧ ctx'.types = ctx.types ∧ ctx'.registry.seats = ctx.registry.seats) :
    Later c w v where
  agents a agent hw := ⟨agent, (ha a).trans hw, rfl, rfl, id⟩
  context ctx' hx := by
    obtain ⟨ctx, hw, hid, htypes, hseats⟩ := hc ctx' hx
    have hlast : ctx'.registry.seats.lastId = ctx.registry.seats.lastId := congrArg _ hseats
    have hentries : ctx'.registry.seats.entries = ctx.registry.seats.entries := congrArg _ hseats
    exact ⟨ctx, hw, hid, htypes, .of_subset hlast fun p i a he => hentries ▸ he⟩

theorem of_same (hc : SameContexts w v) (hf : Fades w v) : Later c w v :=
  .of_fades hf fun ctx hx => ⟨ctx, hc c ▸ hx, rfl, rfl, .refl _⟩

theorem modifyContext {f : Context → Context} (hf : ∀ ctx, (f ctx).id = ctx.id ∧
    (f ctx).types = ctx.types ∧ (f ctx).registry.seats = ctx.registry.seats) :
    Later c w (w.modifyContext c' f) := by
  refine .of_contexts (fun _ => rfl) fun ctx' hx => ?_
  rw [context?_modifyContext] at hx
  split at hx
  · obtain ⟨ctx, hc, rfl⟩ := Option.map_eq_some_iff.1 hx
    exact ⟨ctx, hc, hf ctx⟩
  · exact ⟨ctx', hx, rfl, rfl, rfl⟩

end Later

theorem Later.alive_before (h : Later c w v) {agent : Agent τ} (ha : w.agent? a = some agent)
    (hv : v.alive a = true) : w.alive a = true := by
  obtain ⟨agent', ha', -, -, hlive⟩ := h.agents a agent ha
  obtain ⟨x, hx⟩ := alive_iff.1 hv
  obtain ⟨hag, hal⟩ := live?_eq_some.1 hx
  obtain rfl := Option.some.inj (ha'.symm.trans hag)
  exact alive_iff.2 ⟨agent, live?_eq_some.2 ⟨ha, hlive hal⟩⟩

theorem Later.known (h : Later c w v) (ha : w.alive a = true) : ∃ agent, v.agent? a = some agent := by
  obtain ⟨agent, hl⟩ := alive_iff.1 ha
  obtain ⟨agent', ha', -⟩ := h.agents a agent (live?_eq_some.1 hl).1
  exact ⟨agent', ha'⟩

/-! ## Edits -/

/-- The registry of an edited context grows. -/
theorem Edit.grows (h : Edit c w v) (hw : w.Coherent) (hx : v.context? c = some ctx') :
    ∃ ctx, w.context? c = some ctx ∧ ctx.registry.Grows ctx'.registry := by
  have only {ctx x : Context} (hc : w.context? c = some ctx) (hv : Becomes c x w v)
      (hg : ctx.registry.Grows x.registry) :
      ∃ ctx, w.context? c = some ctx ∧ ctx.registry.Grows ctx'.registry := by
    rw [hv.self] at hx
    cases hx
    exact ⟨ctx, hc, hg⟩
  cases h with
  | rest hc => exact ⟨ctx', hc c ▸ hx, .refl _⟩
  | set _ _ _ hc _ hv => exact only hc hv (.of_subset rfl fun _ _ _ he => he)
  | wait _ _ hc _ _ hv => exact only hc hv (.of_subset rfl fun _ _ _ he => he)
  | enroll a id hc _ _ he hv =>
    exact only hc hv (.register (hw.sound c _ hc) (Context.nextId?_of_fresh he))
  | dismiss a hc _ _ _ _ hv =>
    exact only hc hv (.of_subset rfl fun _ _ _ he => (Registry.mem_entries_unregister.1 he).1)
  | prune hc hv =>
    exact only hc hv (.of_subset Registry.lastId_prune fun _ _ _ he =>
      (Registry.mem_entries_prune.1 he).1)
  | clear hc hv => exact only hc hv (.of_subset rfl fun _ _ _ he => by cases he)

theorem Edit.later (h : Edit c' w v) (hw : w.Coherent) : Later c w v where
  agents a agent ha := by
    have hself := h.self a
    rw [ha, Option.map_some, Option.map_eq_some_iff] at hself
    obtain ⟨agent', ha', hself⟩ := hself
    have hcls : agent'.self.cls = agent.self.cls := congrArg _ hself
    have hprio : agent'.self.priority = agent.self.priority := congrArg _ hself
    have hlive : agent'.self.alive = agent.self.alive := congrArg _ hself
    exact ⟨agent', ha', hcls, hprio, fun hl => hlive ▸ hl⟩
  context ctx' hx := by
    have hs := h.shell c
    rw [hx, Option.map_some, eq_comm, Option.map_eq_some_iff] at hs
    obtain ⟨ctx, hc, hs⟩ := hs
    have hid : ctx.shell.id = ctx'.shell.id := congrArg _ hs
    have htypes : ctx.shell.types = ctx'.shell.types := congrArg _ hs
    refine ⟨ctx, hc, hid.symm, htypes.symm, ?_⟩
    by_cases hne : c = c'
    · subst hne
      obtain ⟨x, hx', hg⟩ := h.grows hw hx
      rw [hc] at hx'
      cases hx'
      exact hg
    · rw [h.other hne, hc] at hx
      cases hx
      exact .refl _

theorem Edits.later (h : Edits c' w v) (hw : w.DistinctIds ∧ w.Coherent) : Later c w v := by
  induction h with
  | refl => exact .refl c w
  | tail h he ih => exact ih.trans (he.later (Coherent.edits h hw).2)

/-! ## Runs -/

/-- What is later stays so. -/
theorem later_durable (c : ContextRef) (w : World τ α) :
    Durable fun v => (v.DistinctIds ∧ v.Coherent) ∧ Later c w v where
  edit he h := ⟨coherent_durable.edit he h.1, h.2.trans (he.later h.1.2)⟩
  fade hc hf h := ⟨coherent_durable.fade hc hf h.1, h.2.trans (.of_same hc hf)⟩
  create g h := by
    refine ⟨coherent_durable.create g h.1, h.2.trans ⟨fun a agent ha => ?_, fun ctx hc => ?_⟩⟩
    · refine ⟨agent, ?_, rfl, rfl, id⟩
      rw [agent?_create, if_neg, ha]
      intro hi
      rw [agent?_eq_none_of_size (Nat.le_of_eq hi.symm)] at ha
      cases ha
    · exact ⟨ctx, hc, rfl, rfl, .refl _⟩
  close hc ha hempty h := by
    refine ⟨coherent_durable.close hc ha hempty h.1, h.2.trans (.of_contexts ha fun ctx hx => ?_)⟩
    rw [hc] at hx
    split at hx
    · cases hx
    · exact ⟨ctx, hx, rfl, rfl, rfl⟩
  flags f hf h := by
    refine ⟨coherent_durable.flags f hf h.1, h.2.trans (.modifyContext fun ctx => ?_)⟩
    rw [hf ctx]
    exact ⟨rfl, rfl, rfl⟩
  startWalk hc hx h :=
    ⟨coherent_durable.startWalk hc hx h.1, h.2.trans (.modifyContext fun _ => ⟨rfl, rfl, rfl⟩)⟩
  finishWalk {c' v} inUse h := by
    refine ⟨coherent_durable.finishWalk inUse h.1, h.2.trans ?_⟩
    cases hc : v.context? c' with
    | none => exact (finishWalk_none hc).later h.1
    | some ctx =>
      have hsettle : Later c v (v.settle c' inUse) :=
        Later.trans (v := v.modifyContext c' fun ctx => { ctx with executing := false, inUse })
          (.modifyContext fun _ => ⟨rfl, rfl, rfl⟩) (.modifyContext fun _ => ⟨rfl, rfl, rfl⟩)
      exact hsettle.trans ((finishWalk_edits hc).later (coherent_settle h.1 inUse hc))

section Runs

variable [Behavior τ α]

omit [Behavior τ α] in
theorem Heard.size_le {T : List (Hearing τ α)} (h : Heard c w T v) :
    ∀ e ∈ T, w.contexts.size ≤ e.world.contexts.size := by
  induction h with
  | nil => exact fun e he => by cases he
  | quiet h _ ih => exact fun e he => Nat.le_trans h.size (ih e he)
  | point h _ ih =>
    exact List.forall_mem_cons.2 ⟨Nat.le_refl _, fun e he => Nat.le_trans h.size (ih e he)⟩

/-- The place of a context is not given to another one. -/
theorem size_le_points (ds : List (Deed τ α)) (w : World τ α) :
    ∀ v ∈ points ds w, w.contexts.size ≤ v.contexts.size := by
  intro v hv
  rw [← hearings_points ⟨0⟩ ds w, List.mem_map] at hv
  obtain ⟨e, he, rfl⟩ := hv
  exact (hearings_heard ds w).size_le e he

/-- Every point of a run is later than its beginning, and its end than every point. -/
theorem later_points (ds : List (Deed τ α)) (hd : ∀ v ∈ points ds w, v.DistinctIds)
    (hw : w.Coherent) (hc : c.index < w.contexts.size) :
    ∀ v ∈ points ds w, v.Coherent ∧ Later c w v ∧ Later c v (run ds w) := by
  have hfirst : w ∈ points ds w := mem_points_self ds w
  have hsize : ∀ v ∈ points ds w, c.index < v.contexts.size := fun v hv =>
    Nat.lt_of_lt_of_le hc (size_le_points ds w v hv)
  have hnew (x : World τ α) {u : World τ α} (id : ContextId) (types : Hierarchy)
      (stepMillis : UInt32) (hi : c.index < u.contexts.size)
      (hd : (u.addContext (.new id types stepMillis)).2.DistinctIds)
      (h : (u.DistinctIds ∧ u.Coherent) ∧ Later c x u) :
      ((u.addContext (.new id types stepMillis)).2.DistinctIds ∧
        (u.addContext (.new id types stepMillis)).2.Coherent) ∧
        Later c x (u.addContext (.new id types stepMillis)).2 := by
    refine ⟨⟨hd, h.1.2.newContext id types stepMillis hd⟩,
      h.2.trans (.of_contexts (fun _ => rfl) fun ctx hx => ?_)⟩
    rw [context?_addContext, if_neg (Nat.ne_of_lt hi)] at hx
    exact ⟨ctx, hx, rfl, rfl, rfl⟩
  intro v hv
  obtain ⟨⟨-, hcoh⟩, hlater⟩ := (later_durable c w).points_where
    (N := fun u => c.index < u.contexts.size) (hnew w) ds hd hsize
    ⟨⟨hd w hfirst, hw⟩, .refl c w⟩ v hv
  exact ⟨hcoh, hlater, ((later_durable c v).onward (N := fun u => c.index < u.contexts.size)
    (hnew v) ds hd hsize v hv ⟨⟨hd v hv, hcoh⟩, .refl c v⟩).2⟩

end Runs

end World

end AgentScheduler
