/-
Registrations are stored twice: in an agent's own place, and in the index and
the buckets of a context. `Coherent` says that the two agree, so that a living
agent is registered at most once, in the context that it names. Each edit keeps
it (`Coherent.edit`), and so does everything an application can do
(`coherent_points`), as long as contexts have distinct ids.
-/
import AgentScheduler.Proofs.Consistency
import AgentScheduler.Proofs.Invariance
import AgentScheduler.Proofs.Routine
import AgentScheduler.Proofs.WalkEnd

namespace AgentScheduler

/-- The registrations of a registry, without names and requests. -/
def Registry.seats (r : Registry) : Registry :=
  { r with named := .empty, pendingAdd := [], pendingRemove := [] }

/-- The identity and the registrations of a context. -/
def Context.seat (ctx : Context) : ContextId × Registry := (ctx.id, ctx.registry.seats)

/-- No request waits. -/
def Registry.Quiet (r : Registry) : Prop := r.pendingAdd = [] ∧ r.pendingRemove = []

namespace World

variable {τ α : Type} {w v : World τ α} {c c' : ContextRef} {a : AgentRef} {ctx ctx' : Context}
  {agent : Agent τ}

/-- Agents and contexts agree on what is registered where, and only a tick leaves requests
waiting. -/
structure Coherent (w : World τ α) : Prop where
  sound : ∀ c ctx, w.context? c = some ctx → ctx.registry.Sound
  /-- A living agent has the entries that its place says. -/
  entered : ∀ c ctx a agent, w.context? c = some ctx → w.live? a = some agent → ∀ p i,
    (p, i, a) ∈ ctx.registry.entries ↔ agent.place = ⟨ctx.id, i⟩ ∧ agent.priority = p
  /-- The context of a living agent exists. -/
  housed : ∀ a agent, w.live? a = some agent → agent.place.context ≠ .invalid →
    ∃ c ctx, w.context? c = some ctx ∧ ctx.id = agent.place.context
  /-- Entries refer to agents that live or lived. -/
  known : ∀ c ctx p i a, w.context? c = some ctx → (p, i, a) ∈ ctx.registry.entries →
    ∃ agent, w.agent? a = some agent
  quiet : ∀ c ctx, w.context? c = some ctx → ctx.executing = false → ctx.registry.Quiet

/-! ## Distinct ids -/

/-- Contexts that keep their ids, or go, stay distinct. -/
theorem DistinctIds.mono (h : w.DistinctIds) (hv : ∀ c ctx', v.context? c = some ctx' →
    ∃ ctx, w.context? c = some ctx ∧ ctx.id = ctx'.id) : v.DistinctIds where
  unique c c' ctx ctx' hc hc' he := by
    obtain ⟨x, hx, hxe⟩ := hv c ctx hc
    obtain ⟨x', hx', hxe'⟩ := hv c' ctx' hc'
    exact h.unique c c' x x' hx hx' (hxe.trans (he.trans hxe'.symm))
  valid c ctx hc := by
    obtain ⟨x, hx, hxe⟩ := hv c ctx hc
    exact hxe ▸ h.valid c x hx

theorem DistinctIds.becomes (h : w.DistinctIds) (hc : w.context? c = some ctx)
    (hv : Becomes c ctx' w v) (hid : ctx'.id = ctx.id) : v.DistinctIds := by
  refine h.mono fun c' x hx => ?_
  rcases hv.cases hx with ⟨rfl, rfl⟩ | ⟨-, hx⟩
  · exact ⟨ctx, hc, hid.symm⟩
  · exact ⟨x, hx, rfl⟩

theorem DistinctIds.edit (h : w.DistinctIds) (he : Edit c w v) : v.DistinctIds := by
  refine h.mono fun c' ctx' hc' => ?_
  have hs := he.shell c'
  rw [hc', Option.map_some, eq_comm, Option.map_eq_some_iff] at hs
  obtain ⟨x, hx, hs⟩ := hs
  have : x.shell.id = ctx'.shell.id := by rw [hs]
  exact ⟨x, hx, this⟩

/-- The ids of the contexts. -/
def contextIds (w : World τ α) : List ContextId := w.contexts.toList.filterMap (·.map Context.id)

theorem DistinctIds.of_contextIds (h : w.contextIds.Nodup ∧ .invalid ∉ w.contextIds) :
    w.DistinctIds := by
  have hat : ∀ c ctx, w.context? c = some ctx →
      ∃ hi : c.index < w.contexts.toList.length, w.contexts.toList[c.index] = some ctx := by
    intro c ctx hc
    rw [context?, Option.join_eq_some_iff, Array.getElem?_eq_some_iff] at hc
    obtain ⟨hi, hc⟩ := hc
    exact ⟨hi, by rw [Array.getElem_toList, hc]⟩
  have hpair := h.1
  rw [contextIds, List.nodup_iff_pairwise_ne, List.pairwise_filterMap,
    List.pairwise_iff_getElem] at hpair
  have hlt : ∀ c c' ctx ctx', w.context? c = some ctx → w.context? c' = some ctx' →
      c.index < c'.index → ctx.id ≠ ctx'.id := by
    intro c c' ctx ctx' hc hc' hi
    obtain ⟨h₁, e₁⟩ := hat c ctx hc
    obtain ⟨h₂, e₂⟩ := hat c' ctx' hc'
    exact hpair _ _ h₁ h₂ hi _ (by rw [e₁, Option.map_some]) _ (by rw [e₂, Option.map_some])
  refine ⟨fun c c' ctx ctx' hc hc' he => ?_, fun c ctx hc he => h.2 ?_⟩
  · rcases Nat.lt_trichotomy c.index c'.index with hi | hi | hi
    · exact absurd he (hlt c c' ctx ctx' hc hc' hi)
    · cases c; cases c'
      exact congrArg _ hi.symm
    · exact absurd he.symm (hlt c' c ctx' ctx hc' hc hi)
  · obtain ⟨hi, e⟩ := hat c ctx hc
    refine List.mem_filterMap.2 ⟨some ctx, e ▸ List.getElem_mem hi, ?_⟩
    rw [Option.map_some, he]

/-! ## Where an agent is -/

end World

namespace Context

variable {ctx : Context} {place : Registration}

theorem entry_alreadyHere (h : ctx.entry place = .alreadyHere) : ctx.holds place = true := by
  unfold entry at h
  split at h
  · next hh => exact hh
  · split at h
    · cases h
    · split at h <;> cases h

theorem entry_elsewhere {owner : ContextId} (h : ctx.entry place = .elsewhere owner) :
    place.context ≠ .invalid ∧ place.context ≠ ctx.id := by
  unfold entry at h
  split at h
  · cases h
  split at h
  · next ho =>
    rw [Bool.and_eq_true, bne_iff_ne] at ho
    exact ⟨bne_iff_ne.1 ho.1, ho.2⟩
  · split at h <;> cases h

/-- A new registration is under the next id. -/
theorem nextId?_of_fresh {id : AgentId} (h : ctx.entry place = .fresh id) :
    ctx.registry.nextId? = some id := by
  unfold entry at h
  split at h
  · cases h
  split at h
  · cases h
  split at h
  · cases h
  · next hn => cases h; exact hn

theorem nextId?_of_exhausted (h : ctx.entry place = .exhausted) : ctx.registry.nextId? = none := by
  unfold entry at h
  split at h
  · cases h
  split at h
  · cases h
  split at h
  · next hn => exact hn
  · cases h

end Context

namespace World

variable {τ α : Type} {w v : World τ α} {c c' : ContextRef} {a : AgentRef} {ctx ctx' : Context}
  {agent : Agent τ}

namespace Coherent

/-- The context says that it holds an agent exactly when one of its entries is the agent's. -/
theorem holds_iff (h : w.Coherent) (hc : w.context? c = some ctx) (hl : w.live? a = some agent) :
    ctx.holds agent.place = true ↔ ∃ p i, (p, i, a) ∈ ctx.registry.entries := by
  rw [Context.holds, Bool.and_eq_true, beq_iff_eq]
  constructor
  · rintro ⟨hp, -⟩
    exact ⟨_, _, (h.entered c ctx a agent hc hl _ _).2 ⟨by rw [← hp], rfl⟩⟩
  · rintro ⟨p, i, he⟩
    obtain ⟨hplace, -⟩ := (h.entered c ctx a agent hc hl p i).1 he
    rw [hplace]
    exact ⟨rfl, (h.sound c ctx hc).contains_iff.2 ⟨p, a, he⟩⟩

theorem holds_iff_place (h : w.Coherent) (hc : w.context? c = some ctx)
    (hl : w.live? a = some agent) :
    ctx.holds agent.place = true ↔ agent.place.context = ctx.id := by
  rw [h.holds_iff hc hl]
  constructor
  · rintro ⟨p, i, he⟩
    rw [((h.entered c ctx a agent hc hl p i).1 he).1]
  · exact fun hp => ⟨_, _, (h.entered c ctx a agent hc hl _ _).2 ⟨by rw [← hp], rfl⟩⟩

/-- An agent that is not registered anywhere is given the next id, if there is one. -/
theorem free_of_entry (h : w.Coherent) (hc : w.context? c = some ctx)
    (hl : w.live? a = some agent) (hhere : ctx.entry agent.place ≠ .alreadyHere)
    (hother : ∀ owner, ctx.entry agent.place ≠ .elsewhere owner) :
    agent.place.context = .invalid := by
  unfold Context.entry at hhere hother
  by_cases hh : ctx.holds agent.place = true
  · rw [if_pos hh] at hhere
    exact absurd rfl hhere
  rw [if_neg hh] at hother
  refine Classical.byContradiction fun hp => ?_
  have hne : agent.place.context ≠ ctx.id := fun he => hh ((h.holds_iff_place hc hl).2 he)
  rw [if_pos (by simp [ContextId.isValid, hp, hne])] at hother
  exact hother _ rfl

/-- An agent that is given a new registration had none. -/
theorem fresh_invalid (h : w.Coherent) (hc : w.context? c = some ctx)
    (hl : w.live? a = some agent) {id : AgentId} (he : ctx.entry agent.place = .fresh id) :
    agent.place.context = .invalid ∧ ctx.registry.nextId? = some id :=
  ⟨h.free_of_entry hc hl (by simp [he]) (by simp [he]), Context.nextId?_of_fresh he⟩

/-! ## Changes of one context -/

/-- One context changes, and agents move in or out of it only. The registrations that the
context has then are those of its agents. -/
theorem update (h : w.Coherent) (hd : w.DistinctIds) (hc : w.context? c = some ctx)
    (hv : Becomes c ctx' w v) (hid : ctx'.id = ctx.id) (hsound : ctx'.registry.Sound)
    (hagents : ∀ b agent', v.live? b = some agent' → ∃ agent, w.live? b = some agent ∧
      agent'.priority = agent.priority ∧ (agent'.place = agent.place ∨
        (agent.place.context = ctx.id ∨ agent.place.context = .invalid) ∧
          (agent'.place.context = ctx.id ∨ agent'.place.context = .invalid)))
    (hkeep : ∀ b agent, w.agent? b = some agent → ∃ agent', v.agent? b = some agent')
    (hhere : ∀ b agent', v.live? b = some agent' → ∀ p i,
      (p, i, b) ∈ ctx'.registry.entries ↔ agent'.place = ⟨ctx.id, i⟩ ∧ agent'.priority = p)
    (hknown : ∀ p i b, (p, i, b) ∈ ctx'.registry.entries → ∃ agent, w.agent? b = some agent)
    (hquiet : ctx'.executing = false → ctx'.registry.Quiet) : v.Coherent := by
  refine ⟨fun c' x hx => ?_, fun c' x b agent' hx hl p i => ?_, fun b agent' hl hp => ?_,
    fun c' x p i b hx hb => ?_, fun c' x hx hidle => ?_⟩
  · rcases hv.cases hx with ⟨rfl, rfl⟩ | ⟨-, hx⟩
    · exact hsound
    · exact h.sound c' x hx
  · rcases hv.cases hx with ⟨rfl, rfl⟩ | ⟨hne, hx⟩
    · rw [hid]
      exact hhere b agent' hl p i
    · obtain ⟨agent, hlw, hprio, hplace⟩ := hagents b agent' hl
      rw [h.entered c' x b agent hx hlw, hprio]
      rcases hplace with hplace | ⟨hold, hnew⟩
      · rw [hplace]
      · -- the agent is in this context neither before nor after
        have hx₁ : x.id ≠ ctx.id := fun he => hne (hd.unique c c' ctx x hc hx he.symm)
        have hx₂ : x.id ≠ .invalid := hd.valid c' x hx
        refine and_congr_left' ⟨fun he => ?_, fun he => ?_⟩
        · rw [he] at hold
          exact (hold.elim hx₁ hx₂).elim
        · rw [he] at hnew
          exact (hnew.elim hx₁ hx₂).elim
  · obtain ⟨agent, hlw, -, hplace⟩ := hagents b agent' hl
    rcases hplace with hplace | ⟨-, hnew⟩
    · rw [hplace] at hp ⊢
      obtain ⟨c', x, hx, hxid⟩ := h.housed b agent hlw hp
      by_cases hne : c' = c
      · subst hne; rw [hc] at hx; cases hx
        exact ⟨c', ctx', hv.self, hid.trans hxid⟩
      · exact ⟨c', x, (hv.other hne).trans hx, hxid⟩
    · rcases hnew with hnew | hnew
      · exact ⟨c, ctx', hv.self, hid.trans hnew.symm⟩
      · exact absurd hnew hp
  · rcases hv.cases hx with ⟨rfl, rfl⟩ | ⟨-, hx⟩
    · obtain ⟨agent, ha⟩ := hknown p i b hb
      exact hkeep b agent ha
    · obtain ⟨agent, ha⟩ := h.known c' x p i b hx hb
      exact hkeep b agent ha
  · rcases hv.cases hx with ⟨rfl, rfl⟩ | ⟨-, hx⟩
    · exact hquiet hidle
    · exact h.quiet c' x hx hidle

theorem enroll (h : w.Coherent) (hd : w.DistinctIds) {id : AgentId}
    (hc : w.context? c = some ctx) (hl : w.live? a = some agent)
    (he : ctx.entry agent.place = .fresh id)
    (hv : Becomes c (ctx.withRegistry (·.register a agent.priority id)) w v)
    (ha : ∀ b, v.agent? b =
      if b = a then some { agent with place := ⟨ctx.id, id⟩ } else w.agent? b) : v.Coherent := by
  obtain ⟨hp, hn⟩ := h.fresh_invalid hc hl he
  have hsound := h.sound c ctx hc
  have hmem (p i b) : (p, i, b) ∈ (ctx.registry.register a agent.priority id).entries ↔ _ :=
    Registry.mem_entries_register hsound hn
  refine h.update hd hc hv rfl (hsound.register hn) (fun b agent' hlb => ?_)
    (fun b x hb => known_move ha hb) (fun b agent' hlb p i => ?_) (fun p i b hb => ?_)
    (h.quiet c ctx hc)
  · rcases live?_move_cases hl ha hlb with ⟨rfl, rfl⟩ | ⟨-, hlb⟩
    · exact ⟨agent, hl, rfl, .inr ⟨.inr hp, .inl rfl⟩⟩
    · exact ⟨agent', hlb, rfl, .inl rfl⟩
  · rw [Context.withRegistry, hmem]
    rcases live?_move_cases hl ha hlb with ⟨rfl, rfl⟩ | ⟨hba, hlb⟩
    · have hnot : (p, i, b) ∉ ctx.registry.entries := fun hb => by
        have hplace := ((h.entered c ctx b agent hc hl p i).1 hb).1
        rw [hplace] at hp
        exact hd.valid c ctx hc hp
      simp [hnot, eq_comm, and_comm]
    · have hnew : (p, i, b) ≠ (agent.priority, id, a) := fun he => hba (by cases he; rfl)
      rw [or_iff_right hnew]
      exact h.entered c ctx b agent' hc hlb p i
  · rcases (hmem p i b).1 hb with hb | hb
    · cases hb
      exact ⟨agent, (live?_eq_some.1 hl).1⟩
    · exact h.known c ctx p i b hc hb

theorem dismiss (h : w.Coherent) (hd : w.DistinctIds) {priority : Int32}
    (hc : w.context? c = some ctx) (hl : w.live? a = some agent)
    (hp : agent.place.context = ctx.id)
    (hi : ctx.registry.index.get? agent.place.id = some priority)
    (hv : Becomes c
      (ctx.withRegistry fun r => (r.unregister priority agent.place.id).unbindAgent a) w v)
    (ha : ∀ b, v.agent? b = if b = a then some { agent with place := {} } else w.agent? b) :
    v.Coherent := by
  have hsound := h.sound c ctx hc
  have hentered := h.entered c ctx a agent hc hl
  have hentry : (agent.priority, agent.place.id, a) ∈ ctx.registry.entries :=
    (hentered _ _).2 ⟨by rw [← hp], rfl⟩
  obtain rfl : agent.priority = priority :=
    Option.some.inj ((hsound.index_of_mem hentry).symm.trans hi)
  have hmem (p i b) : (p, i, b) ∈ ((ctx.registry.unregister agent.priority
      agent.place.id).unbindAgent a).entries ↔ (p, i, b) ∈ ctx.registry.entries ∧ b ≠ a := by
    show (p, i, b) ∈ (ctx.registry.unregister agent.priority agent.place.id).entries ↔ _
    rw [Registry.mem_entries_unregister]
    refine and_congr_right fun hb => not_congr ⟨fun he => ?_, ?_⟩
    · cases he
      exact (hsound.unique hentry hb).2
    · rintro rfl
      obtain ⟨hplace, hprio⟩ := (hentered p i).1 hb
      rw [hplace, hprio]
  have hsound' := hsound.unregister hi
  refine h.update hd hc hv rfl ⟨hsound'.indexed, hsound'.filled, hsound'.issued, hsound'.valid⟩
    (fun b agent' hlb => ?_) (fun b x hb => known_move ha hb) (fun b agent' hlb p i => ?_)
    (fun p i b hb => ?_) (h.quiet c ctx hc)
  · rcases live?_move_cases hl ha hlb with ⟨rfl, rfl⟩ | ⟨-, hlb⟩
    · exact ⟨agent, hl, rfl, .inr ⟨.inl hp, .inr rfl⟩⟩
    · exact ⟨agent', hlb, rfl, .inl rfl⟩
  · rw [Context.withRegistry, hmem]
    rcases live?_move_cases hl ha hlb with ⟨rfl, rfl⟩ | ⟨hba, hlb⟩
    · refine ⟨fun hb => absurd rfl hb.2, fun hb => ?_⟩
      exact absurd (congrArg Registration.context hb.1).symm (hd.valid c ctx hc)
    · rw [and_iff_left hba]
      exact h.entered c ctx b agent' hc hlb p i
  · exact h.known c ctx p i b hc ((hmem p i b).1 hb).1

end Coherent

/-! ## Changes that move no agent -/

theorem Fades.live (h : Fades w v) {agent' : Agent τ} (hl : v.live? a = some agent') :
    ∃ agent, w.live? a = some agent ∧ agent'.place = agent.place ∧
      agent'.priority = agent.priority ∧ agent'.cls = agent.cls := by
  obtain ⟨agent, hw⟩ := alive_iff.1 ((h a).2 (alive_of_live? hl))
  have hview := (h a).1
  rw [(live?_eq_some.1 hl).1, (live?_eq_some.1 hw).1] at hview
  replace hview : agent'.view = agent.view := Option.some.inj hview
  exact ⟨agent, hw, congrArg AgentView.place hview, congrArg AgentView.priority hview,
    congrArg AgentView.cls hview⟩

theorem Fades.known (h : Fades w v) (ha : w.agent? a = some agent) :
    ∃ agent', v.agent? a = some agent' := by
  have hview := (h a).1
  rw [ha, Option.map_some, Option.map_eq_some_iff] at hview
  exact hview.imp fun _ h => h.1

namespace Coherent

/-- One context changes and no agent moves. -/
theorem stay (h : w.Coherent) (hd : w.DistinctIds) (hc : w.context? c = some ctx)
    (hv : Becomes c ctx' w v) (hf : Fades w v) (hid : ctx'.id = ctx.id)
    (hsound : ctx'.registry.Sound)
    (hmem : ∀ p i b, (p, i, b) ∈ ctx'.registry.entries → (p, i, b) ∈ ctx.registry.entries)
    (hleft : ∀ p i b, w.alive b = true → (p, i, b) ∈ ctx.registry.entries →
      (p, i, b) ∈ ctx'.registry.entries)
    (hquiet : ctx'.executing = false → ctx'.registry.Quiet) : v.Coherent := by
  refine h.update hd hc hv hid hsound (fun b agent' hlb => ?_) (fun b x hb => hf.known hb)
    (fun b agent' hlb p i => ?_) (fun p i b hb => h.known c ctx p i b hc (hmem p i b hb)) hquiet
  · obtain ⟨agent, hl, hplace, hprio, -⟩ := hf.live hlb
    exact ⟨agent, hl, hprio, .inl hplace⟩
  · obtain ⟨agent, hl, hplace, hprio, -⟩ := hf.live hlb
    rw [hplace, hprio, ← h.entered c ctx b agent hc hl]
    exact ⟨hmem p i b, hleft p i b (alive_of_live? hl)⟩

theorem prune (h : w.Coherent) (hd : w.DistinctIds) (hc : w.context? c = some ctx)
    (hv : Becomes c (ctx.withRegistry (·.prune w.alive)) w v) (ha : SameAgents w v) :
    v.Coherent := by
  refine h.stay hd hc hv ha.fades rfl (h.sound c ctx hc).prune
    (fun p i b hb => (Registry.mem_entries_prune.1 hb).1)
    (fun p i b hb he => Registry.mem_entries_prune.2 ⟨he, hb⟩) fun hidle => ?_
  obtain ⟨hadd, hrem⟩ := h.quiet c ctx hc hidle
  exact ⟨Registry.pendingAdd_prune.trans hadd, Registry.pendingRemove_prune.trans hrem⟩

end Coherent

theorem sound_of_seat (h : ctx'.seat = ctx.seat) (hs : ctx.registry.Sound) :
    ctx'.registry.Sound := by
  have hr : ctx'.registry.seats = ctx.registry.seats := congrArg Prod.snd h
  have hs' : ctx.registry.seats.Sound := ⟨hs.indexed, hs.filled, hs.issued, hs.valid⟩
  rw [← hr] at hs'
  exact ⟨hs'.indexed, hs'.filled, hs'.issued, hs'.valid⟩

namespace Coherent

/-- One context changes apart from its registrations. -/
theorem reseat (h : w.Coherent) (hd : w.DistinctIds) (hc : w.context? c = some ctx)
    (hv : Becomes c ctx' w v) (hf : Fades w v) (hseat : ctx'.seat = ctx.seat)
    (hquiet : ctx'.executing = false → ctx'.registry.Quiet) : v.Coherent := by
  have hentries : ctx'.registry.entries = ctx.registry.entries :=
    congrArg (fun s => s.2.entries) hseat
  exact h.stay hd hc hv hf (congrArg Prod.fst hseat) (sound_of_seat hseat (h.sound c ctx hc))
    (fun p i b hb => hentries ▸ hb) (fun p i b _ hb => hentries.symm ▸ hb) hquiet

/-- No context changes, and no agent moves. -/
theorem fade (h : w.Coherent) (hc : SameContexts w v) (hf : Fades w v) : v.Coherent where
  sound c ctx hx := h.sound c ctx (hc c ▸ hx)
  entered c ctx a agent' hx hl p i := by
    obtain ⟨agent, hlw, hplace, hprio, -⟩ := hf.live hl
    rw [hplace, hprio]
    exact h.entered c ctx a agent (hc c ▸ hx) hlw p i
  housed a agent' hl hp := by
    obtain ⟨agent, hlw, hplace, -⟩ := hf.live hl
    rw [hplace] at hp ⊢
    obtain ⟨c, ctx, hx, hid⟩ := h.housed a agent hlw hp
    exact ⟨c, ctx, (hc c).trans hx, hid⟩
  known c ctx p i a hx he := by
    obtain ⟨agent, ha⟩ := h.known c ctx p i a (hc c ▸ hx) he
    exact hf.known ha
  quiet c ctx hx := h.quiet c ctx (hc c ▸ hx)

end Coherent

/-- A living agent after a clearing: it lived before, and is unregistered if it was visited. -/
theorem clear_live (ha : ∀ b, v.agent? b = (w.agent? b).map fun agent =>
      if agent.alive = true ∧ b ∈ ctx.registry.walkOrder then { agent with place := {} }
      else agent) {agent' : Agent τ} (hl : v.live? a = some agent') :
    ∃ agent, w.live? a = some agent ∧
      agent' = if a ∈ ctx.registry.walkOrder then { agent with place := {} } else agent := by
  rw [live?_map (fun agent => by split <;> rfl) (ha a), Option.map_eq_some_iff] at hl
  obtain ⟨agent, hl, rfl⟩ := hl
  exact ⟨agent, hl, by simp [(live?_eq_some.1 hl).2]⟩

namespace Coherent

theorem clear (h : w.Coherent) (hd : w.DistinctIds) (hc : w.context? c = some ctx)
    (hv : Becomes c (ctx.withRegistry (·.clear)) w v)
    (ha : ∀ b, v.agent? b = (w.agent? b).map fun agent =>
      if agent.alive = true ∧ b ∈ ctx.registry.walkOrder then { agent with place := {} }
      else agent) : v.Coherent := by
  refine h.update hd hc hv rfl (h.sound c ctx hc).clear (fun b agent' hlb => ?_) (fun b x hb => ?_)
    (fun b agent' hlb p i => ?_) (fun p i b hb => ?_) (fun _ => ⟨rfl, rfl⟩)
  · obtain ⟨agent, hl, rfl⟩ := clear_live ha hlb
    refine ⟨agent, hl, by split <;> rfl, ?_⟩
    split
    · next hb =>
      obtain ⟨p, i, he⟩ := Registry.mem_walkOrder.1 hb
      rw [((h.entered c ctx b agent hc hl p i).1 he).1]
      exact .inr ⟨.inl rfl, .inr rfl⟩
    · exact .inl rfl
  · rw [ha, hb]
    exact ⟨_, rfl⟩
  · obtain ⟨agent, hl, rfl⟩ := clear_live ha hlb
    refine ⟨fun hb => (by cases hb), fun hb => ?_⟩
    split at hb
    · exact absurd (congrArg Registration.context hb.1).symm (hd.valid c ctx hc)
    · next hn =>
      have he := (h.entered c ctx b agent hc hl p i).2 hb
      exact absurd (Registry.mem_walkOrder.2 ⟨p, i, he⟩) hn
  · cases hb

/-- Edits keep coherence. -/
theorem edit (h : w.Coherent) (hd : w.DistinctIds) (he : Edit c w v) : v.Coherent := by
  cases he with
  | rest hc ha => exact h.fade hc ha.fades
  | @set ctx statics clock named hc _ hv ha =>
    exact h.reseat hd hc hv ha.fades rfl fun hidle => h.quiet c ctx hc hidle
  | wait adds removes hc hx _ hv ha =>
    refine h.reseat hd hc hv ha.fades rfl fun hidle => ?_
    rw [hx] at hidle; cases hidle
  | enroll a id hc _ hl he hv ha => exact h.enroll hd hc hl he hv ha
  | dismiss a hc _ hl hp hi hv ha => exact h.dismiss hd hc hl hp hi hv ha
  | prune hc hv ha => exact h.prune hd hc hv ha
  | clear hc hv ha => exact h.clear hd hc hv ha

/-- Whatever a chain of edits does, contexts stay distinct and coherent. -/
theorem edits (h : Edits c w v) (hw : w.DistinctIds ∧ w.Coherent) :
    v.DistinctIds ∧ v.Coherent := by
  induction h with
  | refl => exact hw
  | tail _ he ih => exact ⟨ih.1.edit he, ih.2.edit ih.1 he⟩

/-! ## Changes that are no edits -/

/-- A new agent is registered nowhere. -/
theorem create (h : w.Coherent) (hd : w.DistinctIds) (g : NewAgent τ) :
    (w.create g).2.Coherent := by
  have hlive : ∀ a agent, (w.create g).2.live? a = some agent →
      agent.place = {} ∧ w.agent? a = none ∨ w.live? a = some agent := by
    intro a agent hl
    rw [live?_eq_some, agent?_create] at hl
    obtain ⟨hag, hal⟩ := hl
    split at hag
    · next hi =>
      cases hag
      exact .inl ⟨rfl, agent?_eq_none_of_size (Nat.le_of_eq hi.symm)⟩
    · exact .inr (live?_eq_some.2 ⟨hag, hal⟩)
  refine ⟨h.sound, fun c ctx a agent hc hl p i => ?_, fun a agent hl hp => ?_,
    fun c ctx p i a hc he => ?_, h.quiet⟩
  · rcases hlive a agent hl with ⟨hplace, hnone⟩ | hl
    · constructor
      · intro he
        obtain ⟨agent', ha⟩ := h.known c ctx p i a hc he
        rw [hnone] at ha; cases ha
      · intro hb
        rw [hplace] at hb
        exact absurd (congrArg Registration.context hb.1).symm (hd.valid c ctx hc)
    · exact h.entered c ctx a agent hc hl p i
  · rcases hlive a agent hl with ⟨hplace, -⟩ | hl
    · rw [hplace] at hp
      exact absurd rfl hp
    · exact h.housed a agent hl hp
  · rw [agent?_create]
    split
    · exact ⟨_, rfl⟩
    · exact h.known c ctx p i a hc he

/-- A context without agents goes. -/
theorem close (h : w.Coherent) (hc : ∀ c', v.context? c' = if c' = c then none else w.context? c')
    (ha : ∀ a, v.agent? a = w.agent? a)
    (hempty : ∀ ctx, w.context? c = some ctx → ctx.registry.entries = []) : v.Coherent := by
  have back : ∀ c' ctx, v.context? c' = some ctx → w.context? c' = some ctx := by
    intro c' ctx hx
    rw [hc] at hx
    split at hx
    · cases hx
    · exact hx
  have hlive : ∀ a, v.live? a = w.live? a := fun a => live?_congr (ha a)
  refine ⟨fun c' ctx hx => h.sound c' ctx (back c' ctx hx), fun c' ctx a agent hx hl => ?_,
    fun a agent hl hp => ?_, fun c' ctx p i a hx he => ?_,
    fun c' ctx hx => h.quiet c' ctx (back c' ctx hx)⟩
  · exact h.entered c' ctx a agent (back c' ctx hx) (hlive a ▸ hl)
  · rw [hlive] at hl
    obtain ⟨c', ctx, hx, hid⟩ := h.housed a agent hl hp
    refine ⟨c', ctx, ?_, hid⟩
    rw [hc, if_neg ?_]
    · exact hx
    rintro rfl
    have he := (h.entered c' ctx a agent hx hl _ _).2 ⟨by rw [hid], rfl⟩
    rw [hempty ctx hx] at he
    cases he
  · rw [ha]
    exact h.known c' ctx p i a (back c' ctx hx) he

/-- A new context holds no agent. -/
theorem newContext (h : w.Coherent) (id : ContextId) (types : Hierarchy) (stepMillis : UInt32)
    (hd : (w.addContext (.new id types stepMillis)).2.DistinctIds) :
    (w.addContext (.new id types stepMillis)).2.Coherent := by
  have hnew : (w.addContext (.new id types stepMillis)).2.context? ⟨w.contexts.size⟩ =
      some (.new id types stepMillis) := by
    rw [context?_addContext, if_pos rfl]
  have hcases : ∀ c ctx, (w.addContext (.new id types stepMillis)).2.context? c = some ctx →
      ctx = .new id types stepMillis ∨ w.context? c = some ctx := by
    intro c ctx hx
    rw [context?_addContext] at hx
    split at hx
    · exact .inl (Option.some.inj hx).symm
    · exact .inr hx
  have hold : ∀ c ctx, w.context? c = some ctx →
      c.index ≠ w.contexts.size ∧
        (w.addContext (.new id types stepMillis)).2.context? c = some ctx := by
    intro c ctx hx
    have hne : c.index ≠ w.contexts.size := fun he => by
      rw [context?_eq_none_of_size (Nat.le_of_eq he.symm)] at hx; cases hx
    exact ⟨hne, by rw [context?_addContext, if_neg hne, hx]⟩
  refine ⟨fun c ctx hx => ?_, fun c ctx a agent hx hl p i => ?_, fun a agent hl hp => ?_,
    fun c ctx p i a hx he => ?_, fun c ctx hx hidle => ?_⟩
  · rcases hcases c ctx hx with rfl | hx
    · exact .empty
    · exact h.sound c ctx hx
  · rcases hcases c ctx hx with rfl | hx'
    · refine ⟨fun he => (by cases he), fun hb => ?_⟩
      -- an older context would have the id of the new one
      have hp : agent.place.context = id := by rw [hb.1]; rfl
      obtain ⟨c', ctx', hc', hid⟩ := h.housed a agent hl (by
        rw [hp]; exact hd.valid _ _ hnew)
      obtain ⟨hne, hc''⟩ := hold c' ctx' hc'
      have := hd.unique _ _ _ _ hnew hc'' (hp.symm.trans hid.symm)
      exact absurd (congrArg ContextRef.index this) hne
    · exact h.entered c ctx a agent hx' hl p i
  · obtain ⟨c, ctx, hx, hid⟩ := h.housed a agent hl hp
    exact ⟨c, ctx, (hold c ctx hx).2, hid⟩
  · rcases hcases c ctx hx with rfl | hx
    · cases he
    · exact h.known c ctx p i a hx he
  · rcases hcases c ctx hx with rfl | hx
    · exact ⟨rfl, rfl⟩
    · exact h.quiet c ctx hx hidle

end Coherent

/-! ## Runs -/

/-- A change of a context, if it exists, that leaves its registrations alone. -/
theorem coherent_modifyContext (h : w.DistinctIds ∧ w.Coherent) (f : Context → Context)
    (hseat : ∀ ctx, (f ctx).seat = ctx.seat)
    (hquiet : ∀ ctx, w.context? c = some ctx → (f ctx).executing = false →
      (f ctx).registry.Quiet) :
    (w.modifyContext c f).DistinctIds ∧ (w.modifyContext c f).Coherent := by
  cases hc : w.context? c with
  | none =>
    have hs := sameContexts_modifyContext hc f
    exact ⟨h.1.mono fun c' ctx hx => ⟨ctx, hs c' ▸ hx, rfl⟩, h.2.fade hs (.refl w)⟩
  | some ctx =>
    have hv := becomes_modifyContext hc f
    have hid : (f ctx).id = ctx.id := congrArg Prod.fst (hseat ctx)
    exact ⟨h.1.becomes hc hv hid, h.2.reseat h.1 hc hv (.refl w) (hseat ctx) (hquiet ctx hc)⟩

/-- The end of a walk leaves no request waiting. -/
theorem coherent_settle (h : w.DistinctIds ∧ w.Coherent) (inUse : Bool)
    (hc : w.context? c = some ctx) :
    (w.settle c inUse).DistinctIds ∧ (w.settle c inUse).Coherent := by
  have hv := becomes_settle inUse hc
  exact ⟨h.1.becomes hc hv rfl, h.2.reseat h.1 hc hv (.refl w) rfl fun _ => ⟨rfl, rfl⟩⟩

theorem coherent_durable : Durable fun w : World τ α => w.DistinctIds ∧ w.Coherent where
  edit he h := ⟨h.1.edit he, h.2.edit h.1 he⟩
  fade hc hf h := ⟨h.1.mono fun c ctx hx => ⟨ctx, hc c ▸ hx, rfl⟩, h.2.fade hc hf⟩
  create g h := ⟨⟨h.1.unique, h.1.valid⟩, h.2.create h.1 g⟩
  close hc ha hempty h := by
    refine ⟨h.1.mono fun c' ctx hx => ?_, h.2.close hc ha hempty⟩
    rw [hc] at hx
    split at hx
    · cases hx
    · exact ⟨ctx, hx, rfl⟩
  flags {c w} f hf h := by
    refine coherent_modifyContext h f (fun ctx => ?_) fun ctx hc hidle => ?_
    · rw [hf ctx]; rfl
    · rw [hf ctx] at hidle ⊢
      exact h.2.quiet c ctx hc hidle
  startWalk hc _ h := coherent_modifyContext h _ (fun _ => rfl) fun _ _ hidle => by cases hidle
  finishWalk {c w} inUse h := by
    cases hc : w.context? c with
    | none => exact Coherent.edits (finishWalk_none hc) h
    | some ctx => exact Coherent.edits (finishWalk_edits hc) (coherent_settle h inUse hc)

theorem coherent_empty (h : Host α) : ({ host := h } : World τ α).Coherent where
  sound c ctx hc := by cases hc
  entered c ctx a agent hc := by cases hc
  housed a agent hl := by cases hl
  known c ctx p i a hc := by cases hc
  quiet c ctx hc := by cases hc

section Runs

variable [Behavior τ α]

theorem Coherent.points (hw : w.Coherent) (ds : List (Deed τ α))
    (hd : ∀ v ∈ points ds w, v.DistinctIds) : ∀ v ∈ World.points ds w, v.Coherent := by
  intro v hv
  refine (coherent_durable.points (fun id types stepMillis hd hw => ?_) ds hd
    ⟨hd _ (mem_points_self ds w), hw⟩ v hv).2
  exact ⟨hd, hw.2.newContext id types stepMillis hd⟩

/-- Whatever an application does, contexts and agents agree on what is registered where. -/
theorem coherent_points (h : Host α) (ds : List (Deed τ α))
    (hd : ∀ v ∈ points ds ({ host := h } : World τ α), v.DistinctIds) :
    ∀ v ∈ points ds ({ host := h } : World τ α), v.Coherent :=
  (coherent_empty h).points ds hd

/-- The registrations of a world, told once for the contexts and once for the agents. -/
structure RegisteredOnce (w : World τ α) : Prop where
  /-- Index and buckets have the same ids and priorities. -/
  indexed : ∀ c ctx, w.context? c = some ctx → ∀ p i,
    ctx.registry.index.get? i = some p ↔ ∃ a, (p, i, a) ∈ ctx.registry.entries
  filled : ∀ c ctx, w.context? c = some ctx → ∀ p agents,
    ctx.registry.buckets.get? p = some agents → agents.isEmpty = false
  checked : ∀ c ctx, w.context? c = some ctx → ctx.registry.isConsistent = true
  /-- An entry is the registration of its agent, if that lives. -/
  placed : ∀ c ctx, w.context? c = some ctx → ∀ p i a agent, (p, i, a) ∈ ctx.registry.entries →
    w.live? a = some agent → agent.place = ⟨ctx.id, i⟩ ∧ agent.priority = p
  /-- A living agent that names a context has one entry, which is there. -/
  entered : ∀ a agent, w.live? a = some agent → agent.place.context ≠ .invalid →
    ∃ c ctx, w.context? c = some ctx ∧ ctx.id = agent.place.context ∧
      ∀ c' ctx', w.context? c' = some ctx' → ∀ p i, (p, i, a) ∈ ctx'.registry.entries ↔
        c' = c ∧ p = agent.priority ∧ i = agent.place.id
  /-- A living agent that names no context has none. -/
  free : ∀ a agent, w.live? a = some agent → agent.place.context = .invalid →
    ∀ c ctx, w.context? c = some ctx → ∀ p i, (p, i, a) ∉ ctx.registry.entries
  /-- The ids of entries are among those given out. -/
  issued : ∀ c ctx, w.context? c = some ctx → ∀ p i a, (p, i, a) ∈ ctx.registry.entries →
    0 < i.number.toNat ∧ i.number.toNat ≤ ctx.registry.lastId.toNat
  /-- Only during a tick do requests wait. -/
  quiet : ∀ c ctx, w.context? c = some ctx → ctx.executing = false →
    ctx.registry.pendingAdd = [] ∧ ctx.registry.pendingRemove = []

/-- At every point of every run, agents are registered once. -/
theorem registered_once (h : Host α) (ds : List (Deed τ α))
    (hd : ∀ v ∈ points ds ({ host := h } : World τ α), v.DistinctIds) :
    ∀ v ∈ points ds ({ host := h } : World τ α), v.RegisteredOnce := by
  intro v hv
  have hcoh : v.Coherent := coherent_points h ds hd v hv
  have hids : v.DistinctIds := hd v hv
  refine ⟨fun c ctx hc => (hcoh.sound c ctx hc).indexed,
    fun c ctx hc => (hcoh.sound c ctx hc).filled,
    fun c ctx hc => (hcoh.sound c ctx hc).isConsistent, fun c ctx hc p i a agent he hl => ?_,
    fun a agent hl hp => ?_, fun a agent hl hp c ctx hc p i he => ?_,
    fun c ctx hc => (hcoh.sound c ctx hc).issued, hcoh.quiet⟩
  · exact (hcoh.entered c ctx a agent hc hl p i).1 he
  · obtain ⟨c, ctx, hc, hid⟩ := hcoh.housed a agent hl hp
    refine ⟨c, ctx, hc, hid, fun c' ctx' hc' p i => ?_⟩
    rw [hcoh.entered c' ctx' a agent hc' hl]
    constructor
    · rintro ⟨hplace, hprio⟩
      refine ⟨hids.unique c c' ctx ctx' hc hc' ?_, hprio.symm, ?_⟩
      · rw [hid, hplace]
      · rw [hplace]
    · rintro ⟨rfl, rfl, rfl⟩
      rw [hc] at hc'
      cases hc'
      exact ⟨by rw [hid], rfl⟩
  · have hplace := ((hcoh.entered c ctx a agent hc hl p i).1 he).1
    rw [hplace] at hp
    exact hids.valid c ctx hc hp

end Runs

section Sample

/-- Two contexts and three agents. A tick of the first context asks for an agent that the
second one takes meanwhile, ticks the second one, and gives up an agent that it has yet to
visit; later both contexts go. -/
def sampleDeeds : List (Deed Routine Unit) :=
  let first : ContextRef := ⟨0⟩
  let second : ContextRef := ⟨1⟩
  [.newContext ⟨1⟩ {} 10, .newContext ⟨2⟩ {} 10,
    .create ⟨"busy", "Agent", 0, ⟨[.here (.add ⟨1⟩), .there second (.task (.add ⟨1⟩)),
      .here (.remove ⟨0⟩), .there second .tick, .disown ⟨2⟩]⟩⟩,
    .create ⟨"wanted", "Agent", 5, ⟨[.here (.remove ⟨1⟩)]⟩⟩,
    .create ⟨"brief", "Agent", 7, ⟨[]⟩⟩,
    .on first (.task (.add ⟨0⟩)), .on first (.task (.add ⟨2⟩)), .on first .tick,
    .on second .release, .dropContext first, .dropContext second]

theorem registered_once_sample :
    (∀ v ∈ points sampleDeeds ({ host := { app := () } } : World Routine Unit), v.DistinctIds) ∧
      ∀ v ∈ points sampleDeeds ({ host := { app := () } } : World Routine Unit),
        v.RegisteredOnce := by
  have hids : ∀ v ∈ points sampleDeeds ({ host := { app := () } } : World Routine Unit),
      v.contextIds.Nodup ∧ .invalid ∉ v.contextIds := by decide +kernel
  have hd : ∀ v ∈ points sampleDeeds ({ host := { app := () } } : World Routine Unit),
      v.DistinctIds := fun v hv => .of_contextIds (hids v hv)
  exact ⟨hd, registered_once { app := () } sampleDeeds hd⟩

end Sample

end World

end AgentScheduler
