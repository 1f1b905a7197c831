/-
Names of a context stand for agents of that context. While a tick is under way
a name may also stand for an agent that waits to be registered; if it is then
refused, its names go (`drainAddition_settles`). `names_bound` says what holds
of names at every point of every run.
-/
import AgentScheduler.Proofs.Coherence

namespace AgentScheduler

/-- A name is valid for a class if it belongs to one of its lineage. -/
theorem Hierarchy.isValidInstanceName_iff {h : Hierarchy} {name cls : String} :
    h.isValidInstanceName name cls = true ↔
      ∃ owner ∈ h.lineage cls, h.instanceClass? name = some owner := by
  simp only [isValidInstanceName, isA, Option.any_eq_true, List.contains_iff_mem]
  exact ⟨fun ⟨o, h⟩ => ⟨o, h.2, h.1⟩, fun ⟨o, h⟩ => ⟨o, h.2, h.1⟩⟩

namespace World

variable {τ α : Type} {w v : World τ α} {c c' : ContextRef} {a : AgentRef} {ctx ctx' : Context}
  {agent : Agent τ} {waits : ContextRef → AgentRef → Prop} {l : List AgentRef}

/-- Every name of a living agent is valid for its class, and the agent names the context, or is
to be registered there, or waits for it in another sense. -/
structure Bound (waits : ContextRef → AgentRef → Prop) (w : World τ α) : Prop where
  held : ∀ c ctx name a agent, w.context? c = some ctx → ctx.registry.named.get? name = some a →
    w.live? a = some agent → ctx.types.isValidInstanceName name agent.cls = true ∧
      (agent.place.context = ctx.id ∨ a ∈ ctx.registry.pendingAdd ∨ waits c a)
  /-- Names refer to agents that live or lived. -/
  known : ∀ c ctx name a, w.context? c = some ctx → ctx.registry.named.get? name = some a →
    ∃ agent, w.agent? a = some agent

namespace Bound

/-- One context changes, and agents move in or out of it only. -/
theorem update (h : Bound waits w) (hd : w.DistinctIds) (hc : w.context? c = some ctx)
    (hv : Becomes c ctx' w v)
    (hagents : ∀ b agent', v.live? b = some agent' → ∃ agent, w.live? b = some agent ∧
      agent'.cls = agent.cls ∧ (agent'.place = agent.place ∨
        agent.place.context = ctx.id ∨ agent.place.context = .invalid))
    (hkeep : ∀ b agent, w.agent? b = some agent → ∃ agent', v.agent? b = some agent')
    (hhere : ∀ name b agent', ctx'.registry.named.get? name = some b → v.live? b = some agent' →
      ctx'.types.isValidInstanceName name agent'.cls = true ∧
        (agent'.place.context = ctx'.id ∨ b ∈ ctx'.registry.pendingAdd ∨ waits c b))
    (hknown : ∀ name b, ctx'.registry.named.get? name = some b →
      ∃ agent, w.agent? b = some agent) : Bound waits v := by
  refine ⟨fun c' x name b agent' hx hn hl => ?_, fun c' x name b hx hn => ?_⟩
  · rcases hv.cases hx with ⟨rfl, rfl⟩ | ⟨hne, hx⟩
    · exact hhere name b agent' hn hl
    · obtain ⟨agent, hlw, hcls, hplace⟩ := hagents b agent' hl
      obtain ⟨hvalid, hheld⟩ := h.held c' x name b agent hx hn hlw
      refine ⟨hcls ▸ hvalid, hheld.imp_left fun hp => ?_⟩
      rcases hplace with hplace | hold | hold
      · rw [hplace, hp]
      · exact absurd (hd.unique c c' ctx x hc hx (hold.symm.trans hp)) hne
      · exact absurd (hp.symm.trans hold) (hd.valid c' x hx)
  · rcases hv.cases hx with ⟨rfl, rfl⟩ | ⟨-, hx⟩
    · obtain ⟨agent, ha⟩ := hknown name b hn
      exact hkeep b agent ha
    · obtain ⟨agent, ha⟩ := h.known c' x name b hx hn
      exact hkeep b agent ha

/-- One context changes, gets no names, and no agent moves. -/
theorem stay (h : Bound waits w) (hd : w.DistinctIds) (hc : w.context? c = some ctx)
    (hv : Becomes c ctx' w v) (hf : Fades w v) (hid : ctx'.id = ctx.id)
    (htypes : ctx'.types = ctx.types)
    (hnamed : ∀ name b, ctx'.registry.named.get? name = some b →
      ctx.registry.named.get? name = some b)
    (hpending : ∀ b ∈ ctx.registry.pendingAdd, b ∈ ctx'.registry.pendingAdd ∨ waits c b) :
    Bound waits v := by
  refine h.update hd hc hv (fun b agent' hl => ?_) (fun b x hb => hf.known hb)
    (fun name b agent' hn hl => ?_) fun name b hn => h.known c ctx name b hc (hnamed name b hn)
  · obtain ⟨agent, hlw, hplace, -, hcls⟩ := hf.live hl
    exact ⟨agent, hlw, hcls, .inl hplace⟩
  · obtain ⟨agent, hlw, hplace, -, hcls⟩ := hf.live hl
    obtain ⟨hvalid, hheld⟩ := h.held c ctx name b agent hc (hnamed name b hn) hlw
    rw [htypes, hid, hcls, hplace]
    refine ⟨hvalid, hheld.imp_right fun hw => ?_⟩
    exact hw.elim (hpending b) .inr

/-- No context changes, and no agent moves. -/
theorem fade (h : Bound waits w) (hc : SameContexts w v) (hf : Fades w v) : Bound waits v where
  held c ctx name a agent' hx hn hl := by
    obtain ⟨agent, hlw, hplace, -, hcls⟩ := hf.live hl
    rw [hplace, hcls]
    exact h.held c ctx name a agent (hc c ▸ hx) hn hlw
  known c ctx name a hx hn := by
    obtain ⟨agent, ha⟩ := h.known c ctx name a (hc c ▸ hx) hn
    exact hf.known ha

/-- A change of some agent that a context makes while it registers or unregisters it. -/
theorem move (h : Bound waits w) (hd : w.DistinctIds) (hc : w.context? c = some ctx)
    (hv : Becomes c ctx' w v) (hid : ctx'.id = ctx.id) (htypes : ctx'.types = ctx.types)
    (hpending : ctx'.registry.pendingAdd = ctx.registry.pendingAdd) {place : Registration}
    (hl : w.live? a = some agent)
    (hold : agent.place.context = ctx.id ∨ agent.place.context = .invalid)
    (ha : ∀ b, v.agent? b = if b = a then some { agent with place } else w.agent? b)
    (hnamed : ∀ name b, ctx'.registry.named.get? name = some b →
      ctx.registry.named.get? name = some b ∧ (b = a → place.context = ctx.id)) :
    Bound waits v := by
  refine h.update hd hc hv (fun b agent' hlb => ?_) (fun b x hb => known_move ha hb)
    (fun name b agent' hn hlb => ?_) fun name b hn => h.known c ctx name b hc (hnamed name b hn).1
  · rcases live?_move_cases hl ha hlb with ⟨rfl, rfl⟩ | ⟨-, hlb⟩
    · exact ⟨agent, hl, rfl, .inr hold⟩
    · exact ⟨agent', hlb, rfl, .inl rfl⟩
  · obtain ⟨hn, hplace⟩ := hnamed name b hn
    rw [htypes, hid, hpending]
    rcases live?_move_cases hl ha hlb with ⟨rfl, rfl⟩ | ⟨-, hlb⟩
    · exact ⟨(h.held c ctx name b agent hc hn hl).1, .inl (hplace rfl)⟩
    · exact h.held c ctx name b agent' hc hn hlb

/-- Edits keep names bound. -/
theorem edit (h : Bound waits w) (hw : w.DistinctIds ∧ w.Coherent) (he : Edit c w v) :
    Bound waits v := by
  obtain ⟨hd, hcoh⟩ := hw
  cases he with
  | rest hc ha => exact h.fade hc ha.fades
  | @set ctx statics clock named hc hn hv ha =>
    refine h.update hd hc hv (fun b agent' hl => ?_) (fun b x hb => ha.fades.known hb)
      (fun name b agent' hnb hl => ?_) fun name b hnb => ?_
    · obtain ⟨agent, hlw, hplace, -, hcls⟩ := ha.fades.live hl
      exact ⟨agent, hlw, hcls, .inl hplace⟩
    · obtain ⟨agent, hlw, hplace, -, hcls⟩ := ha.fades.live hl
      rw [hplace, hcls]
      rcases hn name b hnb with hold | ⟨agent', hlb, hvalid, hheld⟩
      · exact h.held c ctx name b agent hc hold hlw
      · rw [hlw] at hlb; cases hlb
        refine ⟨hvalid, ?_⟩
        rw [hcoh.holds_iff_place hc hlw] at hheld
        rcases hheld with hp | hp | ⟨p, i, he⟩
        · exact .inl hp
        · exact .inr (.inl hp)
        · exact .inl (by rw [((hcoh.entered c ctx b agent hc hlw p i).1 he).1])
    · rcases hn name b hnb with hold | ⟨agent, hl, -⟩
      · exact h.known c ctx name b hc hold
      · exact ⟨agent, (live?_eq_some.1 hl).1⟩
  | wait adds removes hc _ _ hv ha =>
    exact h.stay hd hc hv ha.fades rfl rfl (fun _ _ hn => hn) fun b hb =>
      .inl (List.mem_append_left _ hb)
  | enroll a id hc _ hl he hv ha =>
    refine h.move hd hc hv rfl rfl rfl hl (.inr (hcoh.fresh_invalid hc hl he).1) ha ?_
    exact fun name b hn => ⟨hn, fun _ => rfl⟩
  | dismiss a hc _ hl hp _ hv ha =>
    refine h.move hd hc hv rfl rfl rfl hl (.inl hp) ha fun name b hn => ?_
    obtain ⟨hn, hba⟩ := Registry.named_unbindAgent.1 hn
    exact ⟨hn, fun he => absurd he hba⟩
  | @prune ctx hc hv ha =>
    refine h.stay hd hc hv ha.fades rfl rfl (fun name b hn => ?_) fun b hb => .inl ?_
    · exact (Registry.named_prune.1 hn).1
    · show b ∈ (ctx.registry.prune w.alive).pendingAdd
      rwa [Registry.pendingAdd_prune]
  | @clear ctx hc hv ha =>
    refine h.update hd hc hv (fun b agent' hlb => ?_) (fun b x hb => ⟨_, by rw [ha, hb]; rfl⟩)
      (fun name b agent' hn => by cases hn) fun name b hn => by cases hn
    obtain ⟨agent, hl, rfl⟩ := clear_live ha hlb
    refine ⟨agent, hl, by split <;> rfl, ?_⟩
    split
    · next hb =>
      obtain ⟨p, i, he⟩ := Registry.mem_walkOrder.1 hb
      rw [((hcoh.entered c ctx b agent hc hl p i).1 he).1]
      exact .inr (.inl rfl)
    · exact .inl rfl

theorem edits (h : Edits c w v) (hw : w.DistinctIds ∧ w.Coherent) (hb : Bound waits w) :
    Bound waits v := by
  induction h with
  | refl => exact hb
  | tail h he ih => exact ih.edit (Coherent.edits h hw) he

/-! ## After a walk -/

/-- Once a requested addition is applied, the names of its agent stand for an agent of the
context. -/
theorem drainAddition_settles (hc : w.context? c = some ctx)
    (hv : (w.drainAddition c a).2.context? c = some ctx') {name : String}
    (hn : ctx'.registry.named.get? name = some a)
    (hl : (w.drainAddition c a).2.live? a = some agent) : agent.place.context = ctx'.id := by
  have h := drainAddition_cases (a := a) hc
  generalize w.drainAddition c a = r at h hv hl
  cases h with
  | gone hl' => rw [hl'] at hl; cases hl
  | already hl' he =>
    rw [hl'] at hl; cases hl
    rw [hc] at hv; cases hv
    have hh := Context.entry_alreadyHere he
    rw [Context.holds, Bool.and_eq_true, beq_iff_eq] at hh
    exact hh.1
  | fresh hl' _ hb ha =>
    rw [hb.self] at hv; cases hv
    rw [live?_eq_some, ha, if_pos rfl] at hl
    cases Option.some.inj hl.1
    rfl
  | refused hl' _ hb _ =>
    rw [hb.self] at hv; cases hv
    exact absurd rfl (Registry.named_unbindAgent.1 hn).2

theorem drainAddition (h : Bound (fun c' b => c' = c ∧ b ∈ a :: l) w)
    (hw : w.DistinctIds ∧ w.Coherent) (hi : w.Idle c) :
    Bound (fun c' b => c' = c ∧ b ∈ l) (w.drainAddition c a).2 := by
  have hedits := drainAddition_edits (a := a) hi
  have hv := h.edits hedits hw
  refine ⟨fun c' ctx' name b agent hx hn hl => ?_, hv.known⟩
  obtain ⟨hvalid, hheld⟩ := hv.held c' ctx' name b agent hx hn hl
  refine ⟨hvalid, ?_⟩
  rcases hheld with hp | hp | ⟨rfl, hb⟩
  · exact .inl hp
  · exact .inr (.inl hp)
  rcases List.mem_cons.1 hb with rfl | hb
  · have hs := hedits.shell c'
    rw [hx, Option.map_some, eq_comm, Option.map_eq_some_iff] at hs
    obtain ⟨ctx, hc, -⟩ := hs
    exact .inl (drainAddition_settles hc hx hn hl)
  · exact .inr (.inr ⟨rfl, hb⟩)

/-- Requested additions are applied one after the other, and nobody waits in the end. -/
theorem drainAdditions (h : Bound (fun c' b => c' = c ∧ b ∈ l) w)
    (hw : w.DistinctIds ∧ w.Coherent) (hi : w.Idle c) :
    Bound (fun _ _ => False) (w.drain (World.drainAddition c) l).2 := by
  induction l generalizing w with
  | nil =>
    refine ⟨fun c' x name b agent hx hn hl => ?_, h.known⟩
    obtain ⟨hvalid, hheld⟩ := h.held c' x name b agent hx hn hl
    refine ⟨hvalid, hheld.imp_right (Or.imp_right ?_)⟩
    rintro ⟨-, hb⟩
    cases hb
  | cons a l ih =>
    have hedits := drainAddition_edits (a := a) hi
    exact ih (h.drainAddition hw hi) (Coherent.edits hedits hw) (hedits.idle hi)

theorem settle (h : Bound (fun _ _ => False) w) (hd : w.DistinctIds) (inUse : Bool)
    (hc : w.context? c = some ctx) :
    Bound (fun c' b => c' = c ∧ b ∈ ctx.registry.pendingAdd) (w.settle c inUse) := by
  have h' : Bound (fun c' b => c' = c ∧ b ∈ ctx.registry.pendingAdd) w :=
    ⟨fun c' x name b agent hx hn hl => (h.held c' x name b agent hx hn hl).imp_right
      (Or.imp_right (Or.imp_right False.elim)), h.known⟩
  exact h'.stay hd hc (becomes_settle inUse hc) (.refl w) rfl rfl (fun _ _ hn => hn)
    fun b hb => .inr ⟨rfl, hb⟩

theorem finishWalk (h : Bound (fun _ _ => False) w) (hw : w.DistinctIds ∧ w.Coherent)
    (inUse : Bool) : Bound (fun _ _ => False) (w.finishWalk c inUse).2 := by
  cases hc : w.context? c with
  | none => exact h.edits (finishWalk_none hc) hw
  | some ctx =>
    have hw₀ := coherent_settle hw inUse hc
    have hi₀ := idle_settle inUse hc
    have hadd := drain_edits (World.drainAddition c) (fun _ _ => drainAddition_edits)
      ctx.registry.pendingAdd hi₀
    have hrest := drain_edits (World.drainRemoval c) (fun _ _ => drainRemoval_edits)
      ctx.registry.pendingRemove (hadd.idle hi₀)
    have hb := (h.settle hw.1 inUse hc).drainAdditions hw₀ hi₀
    rw [finishWalk_eq hc]
    exact hb.edits ((hrest.trans prune_edits).trans (setRest_edits _ fun _ => rfl))
      (Coherent.edits hadd hw₀)

/-! ## Changes that are no edits -/

theorem create (h : Bound waits w) (g : NewAgent τ) : Bound waits (w.create g).2 where
  held c ctx name a agent hc hn hl := by
    refine h.held c ctx name a agent hc hn ?_
    rw [live?_eq_some, agent?_create] at hl
    split at hl
    · next hi =>
      obtain ⟨agent', ha⟩ := h.known c ctx name a hc hn
      rw [agent?_eq_none_of_size (Nat.le_of_eq hi.symm)] at ha
      cases ha
    · exact live?_eq_some.2 hl
  known c ctx name a hc hn := by
    rw [agent?_create]
    split
    · exact ⟨_, rfl⟩
    · exact h.known c ctx name a hc hn

theorem close (h : Bound waits w)
    (hc : ∀ c', v.context? c' = if c' = c then none else w.context? c')
    (ha : ∀ a, v.agent? a = w.agent? a) : Bound waits v := by
  have back : ∀ c' ctx, v.context? c' = some ctx → w.context? c' = some ctx := by
    intro c' ctx hx
    rw [hc] at hx
    split at hx
    · cases hx
    · exact hx
  refine ⟨fun c' x name b agent hx hn hl => ?_, fun c' x name b hx hn => ?_⟩
  · exact h.held c' x name b agent (back c' x hx) hn (live?_congr (ha b) ▸ hl)
  · rw [ha]
    exact h.known c' x name b (back c' x hx) hn

theorem modifyContext (h : Bound waits w) (hd : w.DistinctIds) (f : Context → Context)
    (hf : ∀ ctx, (f ctx).id = ctx.id ∧ (f ctx).types = ctx.types ∧
      (f ctx).registry = ctx.registry) :
    Bound waits (w.modifyContext c f) := by
  cases hc : w.context? c with
  | none => exact h.fade (sameContexts_modifyContext hc f) (.refl w)
  | some ctx =>
    obtain ⟨hid, htypes, hreg⟩ := hf ctx
    exact h.stay hd hc (becomes_modifyContext hc f) (.refl w) hid htypes
      (fun _ _ hn => hreg ▸ hn) fun b hb => .inl (hreg.symm ▸ hb)

theorem newContext (h : Bound waits w) (id : ContextId) (types : Hierarchy) (stepMillis : UInt32) :
    Bound waits (w.addContext (.new id types stepMillis)).2 where
  held c ctx name a agent hx hn hl := by
    rw [context?_addContext] at hx
    split at hx
    · cases hx; cases hn
    · exact h.held c ctx name a agent hx hn hl
  known c ctx name a hx hn := by
    rw [context?_addContext] at hx
    split at hx
    · cases hx; cases hn
    · exact h.known c ctx name a hx hn

end Bound

/-! ## Runs -/

theorem bound_durable : Durable fun w : World τ α =>
    (w.DistinctIds ∧ w.Coherent) ∧ Bound (fun _ _ => False) w where
  edit he h := ⟨coherent_durable.edit he h.1, h.2.edit h.1 he⟩
  fade hc hf h := ⟨coherent_durable.fade hc hf h.1, h.2.fade hc hf⟩
  create g h := ⟨coherent_durable.create g h.1, h.2.create g⟩
  close hc ha hempty h := ⟨coherent_durable.close hc ha hempty h.1, h.2.close hc ha⟩
  flags f hf h := by
    refine ⟨coherent_durable.flags f hf h.1, h.2.modifyContext h.1.1 f fun ctx => ?_⟩
    rw [hf ctx]
    exact ⟨rfl, rfl, rfl⟩
  startWalk hc hx h := ⟨coherent_durable.startWalk hc hx h.1,
    h.2.modifyContext h.1.1 _ fun _ => ⟨rfl, rfl, rfl⟩⟩
  finishWalk inUse h := ⟨coherent_durable.finishWalk inUse h.1, h.2.finishWalk h.1 inUse⟩

section Runs

variable [Behavior τ α]

theorem bound_points (h : Host α) (ds : List (Deed τ α))
    (hd : ∀ v ∈ points ds ({ host := h } : World τ α), v.DistinctIds) :
    ∀ v ∈ points ds ({ host := h } : World τ α), Bound (fun _ _ => False) v := by
  have hfirst := mem_points_self ds ({ host := h } : World τ α)
  have hempty : Bound (fun _ _ => False) ({ host := h } : World τ α) :=
    ⟨fun c ctx name a agent hc => (by cases hc), fun c ctx name a hc => (by cases hc)⟩
  intro v hv
  refine (bound_durable.points (fun id types stepMillis hd hw => ?_) ds hd
    ⟨⟨hd _ hfirst, coherent_empty h⟩, hempty⟩ v hv).2
  exact ⟨⟨hd, hw.1.2.newContext id types stepMillis hd⟩, hw.2.newContext id types stepMillis⟩

/-- What names of living agents stand for. -/
structure NamesBound (w : World τ α) : Prop where
  /-- Between ticks: an agent of the context, by a name of its class or of an ancestor. -/
  between : ∀ c ctx, w.context? c = some ctx → ctx.executing = false → ∀ name a agent,
    ctx.registry.named.get? name = some a → w.live? a = some agent →
      w.containsAgent c a = true ∧ (∃ p i, (p, i, a) ∈ ctx.registry.entries) ∧
        ∃ owner ∈ ctx.types.lineage agent.cls, ctx.types.instanceClass? name = some owner
  /-- During a tick: such an agent, or one that waits to be registered. -/
  within : ∀ c ctx, w.context? c = some ctx → ctx.executing = true → ∀ name a agent,
    ctx.registry.named.get? name = some a → w.live? a = some agent →
      (w.containsAgent c a = true ∨ a ∈ ctx.registry.pendingAdd) ∧
        ∃ owner ∈ ctx.types.lineage agent.cls, ctx.types.instanceClass? name = some owner
  /-- Between ticks a name finds agents of the context, and of no other one. -/
  found : ∀ c ctx, w.context? c = some ctx → ctx.executing = false → ∀ name a,
    w.lookup c name = some a →
      w.containsAgent c a = true ∧ ∀ c', c' ≠ c → w.containsAgent c' a = false

/-- At every point of every run, names are bound. -/
theorem names_bound (h : Host α) (ds : List (Deed τ α))
    (hd : ∀ v ∈ points ds ({ host := h } : World τ α), v.DistinctIds) :
    ∀ v ∈ points ds ({ host := h } : World τ α), v.NamesBound := by
  intro v hv
  have hids : v.DistinctIds := hd v hv
  have hcoh : v.Coherent := coherent_points h ds hd v hv
  have hbound := bound_points h ds hd v hv
  have hbetween : ∀ c ctx, v.context? c = some ctx → ctx.executing = false → ∀ name a agent,
      ctx.registry.named.get? name = some a → v.live? a = some agent →
        ctx.types.isValidInstanceName name agent.cls = true ∧ agent.place.context = ctx.id := by
    intro c ctx hc hx name a agent hn hl
    obtain ⟨hvalid, hheld⟩ := hbound.held c ctx name a agent hc hn hl
    rw [(hcoh.quiet c ctx hc hx).1] at hheld
    rcases hheld with hp | hp | hp
    · exact ⟨hvalid, hp⟩
    · cases hp
    · cases hp
  refine ⟨fun c ctx hc hx name a agent hn hl => ?_, fun c ctx hc _ name a agent hn hl => ?_,
    fun c ctx hc hx name a hf => ?_⟩
  · obtain ⟨hvalid, hp⟩ := hbetween c ctx hc hx name a agent hn hl
    have hh := (hcoh.holds_iff_place hc hl).2 hp
    exact ⟨(containsAgent_iff hc hl).2 hh, (hcoh.holds_iff hc hl).1 hh,
      Hierarchy.isValidInstanceName_iff.1 hvalid⟩
  · obtain ⟨hvalid, hheld⟩ := hbound.held c ctx name a agent hc hn hl
    refine ⟨?_, Hierarchy.isValidInstanceName_iff.1 hvalid⟩
    rcases hheld with hp | hp | hp
    · exact .inl ((containsAgent_iff hc hl).2 ((hcoh.holds_iff_place hc hl).2 hp))
    · exact .inr hp
    · cases hp
  · simp only [lookup, hc, Option.bind_some, Option.filter_eq_some_iff] at hf
    obtain ⟨hn, halive⟩ := hf
    obtain ⟨agent, hl⟩ := alive_iff.1 halive
    have hp := (hbetween c ctx hc hx name a agent hn hl).2
    refine ⟨(containsAgent_iff hc hl).2 ((hcoh.holds_iff_place hc hl).2 hp), fun c' hne => ?_⟩
    cases hc' : v.context? c' with
    | none => simp only [containsAgent, hc']
    | some ctx' =>
      refine Bool.eq_false_iff.2 fun hh => hne ?_
      rw [containsAgent_iff hc' hl, hcoh.holds_iff_place hc' hl] at hh
      exact hids.unique c c' ctx ctx' hc hc' (hp.symm.trans hh)

end Runs

section Sample

/-- Two classes with a name each. -/
def sampleTypes : Hierarchy where
  classes := .ofList [("Agent", ⟨none, .empty⟩), ("Worker", ⟨some "Agent", .empty⟩)]
  instanceNames := .ofList [("Boss", "Agent"), ("Hand", "Worker")]

/-- A tick of the first of two contexts asks for two agents and binds names to both; the second
context takes one of them before the walk is over. -/
def namingDeeds : List (Deed Routine Unit) :=
  let first : ContextRef := ⟨0⟩
  let second : ContextRef := ⟨1⟩
  [.newContext ⟨1⟩ sampleTypes 10, .newContext ⟨2⟩ sampleTypes 10,
    .create ⟨"naming", "Agent", 0, ⟨[.here (.add ⟨1⟩), .here (.bind "Boss" ⟨1⟩),
      .here (.add ⟨2⟩), .here (.bind "Hand" ⟨2⟩), .there second (.task (.add ⟨1⟩))]⟩⟩,
    .create ⟨"refused", "Worker", 0, ⟨[]⟩⟩, .create ⟨"accepted", "Worker", 0, ⟨[]⟩⟩,
    .on first (.task (.add ⟨0⟩)), .on first .tick, .on first (.task (.unbind "Hand"))]

theorem names_bound_sample :
    (∀ v ∈ points namingDeeds ({ host := { app := () } } : World Routine Unit), v.DistinctIds) ∧
      ∀ v ∈ points namingDeeds ({ host := { app := () } } : World Routine Unit),
        v.NamesBound := by
  have hids : ∀ v ∈ points namingDeeds ({ host := { app := () } } : World Routine Unit),
      v.contextIds.Nodup ∧ .invalid ∉ v.contextIds := by decide +kernel
  have hd : ∀ v ∈ points namingDeeds ({ host := { app := () } } : World Routine Unit),
      v.DistinctIds := fun v hv => .of_contextIds (hids v hv)
  exact ⟨hd, names_bound { app := () } namingDeeds hd⟩

end Sample

end World

end AgentScheduler
