/-
Which agent an operation is about. A context finds the registration of an agent
by the numbers that the agent recorded, its context's id and its own
(`Denotes`), not by the agent itself. Additions never touch another agent;
removals and questions are about whichever agent has those numbers
(`ByNumber`). As long as contexts have distinct ids that is the agent itself,
and nobody is in two contexts (`Exact`).
-/
import AgentScheduler.Proofs.Soundness

namespace AgentScheduler.World

variable {τ α : Type} {w v u : World τ α} {c c' : ContextRef} {a b : AgentRef} {ctx : Context}
  {agent : Agent τ} {p : Int32} {i : AgentId}

/-! ## Registrations -/

/-- The buckets of a context have an entry for the agent. -/
def Lists (w : World τ α) (c : ContextRef) (p : Int32) (i : AgentId) (a : AgentRef) : Prop :=
  ∃ ctx, w.context? c = some ctx ∧ (p, i, a) ∈ ctx.registry.entries

/-- The index of a context has an entry for the id. -/
def Indexes (w : World τ α) (c : ContextRef) (p : Int32) (i : AgentId) : Prop :=
  ∃ ctx, w.context? c = some ctx ∧ ctx.registry.index.get? i = some p

theorem lists_iff (hc : w.context? c = some ctx) :
    w.Lists c p i a ↔ (p, i, a) ∈ ctx.registry.entries := by
  simp only [Lists, hc, Option.some.injEq, exists_eq_left']

theorem indexes_iff (hc : w.context? c = some ctx) :
    w.Indexes c p i ↔ ctx.registry.index.get? i = some p := by
  simp only [Indexes, hc, Option.some.injEq, exists_eq_left']

/-- Where the numbers that a living agent recorded lead to in a context: the agent that is
registered there under them. -/
def Denotes (w : World τ α) (c : ContextRef) (a b : AgentRef) : Prop :=
  ∃ ctx agent p, w.context? c = some ctx ∧ w.live? a = some agent ∧
    agent.place.context = ctx.id ∧ (p, agent.place.id, b) ∈ ctx.registry.entries

/-- The agent is as before: what it recorded, and its entries in buckets and indexes. -/
structure Spares (b : AgentRef) (w v : World τ α) : Prop where
  agent : v.agent? b = w.agent? b
  entries : ∀ c p i, v.Lists c p i b ↔ w.Lists c p i b
  index : ∀ c p i, w.Lists c p i b → ∀ q, v.Indexes c q i ↔ w.Indexes c q i

namespace Spares

theorem refl (b : AgentRef) (w : World τ α) : Spares b w w :=
  ⟨rfl, fun _ _ _ => .rfl, fun _ _ _ _ _ => .rfl⟩

/-- Registrations are the same if contexts differ in the rest only. -/
theorem of_seats (ha : v.agent? b = w.agent? b)
    (hc : ∀ c, (v.context? c).map Context.seat = (w.context? c).map Context.seat) :
    Spares b w v := by
  have only {w v : World τ α}
      (hc : ∀ c, (v.context? c).map Context.seat = (w.context? c).map Context.seat) (c) {ctx}
      (hx : w.context? c = some ctx) : ∃ ctx', v.context? c = some ctx' ∧
        ctx'.registry.entries = ctx.registry.entries ∧
        ctx'.registry.index = ctx.registry.index := by
    have h := hc c
    rw [hx, Option.map_some, Option.map_eq_some_iff] at h
    obtain ⟨ctx', hx', hs⟩ := h
    exact ⟨ctx', hx', congrArg (fun s => s.2.entries) hs, congrArg (fun s => s.2.index) hs⟩
  refine ⟨ha, fun c p i => ?_, fun c _ i _ q => ?_⟩
  · constructor
    · rintro ⟨ctx, hx, he⟩
      obtain ⟨ctx', hx', hentries, -⟩ := only (fun c => (hc c).symm) c hx
      exact ⟨ctx', hx', hentries ▸ he⟩
    · rintro ⟨ctx, hx, he⟩
      obtain ⟨ctx', hx', hentries, -⟩ := only hc c hx
      exact ⟨ctx', hx', hentries ▸ he⟩
  · constructor
    · rintro ⟨ctx, hx, he⟩
      obtain ⟨ctx', hx', -, hindex⟩ := only (fun c => (hc c).symm) c hx
      exact ⟨ctx', hx', hindex ▸ he⟩
    · rintro ⟨ctx, hx, he⟩
      obtain ⟨ctx', hx', -, hindex⟩ := only hc c hx
      exact ⟨ctx', hx', hindex ▸ he⟩

theorem of_same (ha : v.agent? b = w.agent? b) (hc : SameContexts w v) : Spares b w v :=
  of_seats ha fun c => by rw [hc c]

/-- One context changes apart from its registrations. -/
theorem reseat {ctx' : Context} (ha : v.agent? b = w.agent? b) (hc : w.context? c = some ctx)
    (hv : Becomes c ctx' w v) (hseat : ctx'.seat = ctx.seat) : Spares b w v := by
  refine of_seats ha fun d => ?_
  by_cases hd : d = c
  · rw [hd, hv.self, hc, Option.map_some, Option.map_some, hseat]
  · rw [hv.other hd]

/-- One registry changes, but not where the agent is concerned. -/
theorem update {ctx' : Context} (ha : v.agent? b = w.agent? b) (hc : w.context? c = some ctx)
    (hv : Becomes c ctx' w v)
    (hentries : ∀ p i, (p, i, b) ∈ ctx'.registry.entries ↔ (p, i, b) ∈ ctx.registry.entries)
    (hindex : ∀ p i, (p, i, b) ∈ ctx.registry.entries →
      ctx'.registry.index.get? i = ctx.registry.index.get? i) : Spares b w v := by
  refine ⟨ha, fun d p i => ?_, fun d p i he q => ?_⟩
  · by_cases hd : d = c
    · rw [hd, lists_iff hv.self, lists_iff hc, hentries]
    · rw [Lists, Lists, hv.other hd]
  · by_cases hd : d = c
    · subst hd
      rw [indexes_iff hv.self, indexes_iff hc, hindex p i ((lists_iff hc).1 he)]
    · rw [Indexes, Indexes, hv.other hd]

/-- Another agent is registered under a new id. -/
theorem register (hs : ctx.registry.Sound) (hc : w.context? c = some ctx)
    (hn : ctx.registry.nextId? = some i) (hb : b ≠ a) (ha : v.agent? b = w.agent? b)
    (hv : Becomes c (ctx.withRegistry (·.register a p i)) w v) : Spares b w v := by
  refine update ha hc hv (fun q j => ?_) fun q j he => ?_
  · refine (Registry.mem_entries_register hs hn).trans (or_iff_right fun he => hb ?_)
    cases he
    rfl
  · have hj : j ≠ i := fun h => hs.not_mem_of_next hn (h ▸ he)
    show (ctx.registry.index.insert i p).get? j = _
    rw [SortedMap.get?_insert, if_neg hj]

/-- Another id is unregistered. -/
theorem unregister (hc : w.context? c = some ctx) (ha : v.agent? b = w.agent? b)
    (hv : Becomes c (ctx.withRegistry fun r => (r.unregister p i).unbindAgent a) w v)
    (hnot : ∀ q, (q, i, b) ∉ ctx.registry.entries) : Spares b w v := by
  have hid : ∀ {q j}, (q, j, b) ∈ ctx.registry.entries → j ≠ i := fun he h => hnot _ (h ▸ he)
  refine update ha hc hv (fun q j => ?_) fun q j he => ?_
  · refine Registry.mem_entries_unregister.trans (and_iff_left_of_imp fun he h => ?_)
    exact hid he (congrArg Prod.snd h)
  · show (ctx.registry.index.erase i).get? j = _
    rw [SortedMap.get?_erase, if_neg (hid he)]

end Spares

/-! ## Additions -/

theorem insertNow_spares (hw : w.Sound) (c : ContextRef) (hb : b ≠ a) :
    Spares b w (w.insertNow c a) := by
  unfold insertNow
  split
  · next ctx agent hc hl =>
    split
    · exact .refl b w
    · exact .of_same rfl (.refl w)
    · exact .of_same rfl (.refl w)
    · next id he =>
      refine .register (hw c ctx hc) hc (Context.nextId?_of_fresh he) hb ?_
        (becomes_modifyContext hc _)
      rw [agent?_report, setPlace, agent?_modifyAgent, if_neg hb, agent?_modifyRegistry]
  · exact .refl b w

theorem addAgent_spares (hw : w.Sound) (c : ContextRef) (hb : b ≠ a) :
    Spares b w (w.addAgent c a) := by
  unfold addAgent
  split
  · next ctx agent hc hl =>
    split
    · exact .reseat rfl hc (becomes_modifyContext hc _) rfl
    · exact insertNow_spares hw c hb
  · exact .refl b w

theorem drainAddition_spares (hw : w.Sound) (c : ContextRef) (hb : b ≠ a) :
    Spares b w (w.drainAddition c a).2 := by
  cases hc : w.context? c with
  | none =>
    simp only [drainAddition, hc]
    exact .refl b w
  | some ctx =>
    have h := drainAddition_cases (a := a) hc
    generalize w.drainAddition c a = r at h
    cases h with
    | gone | already => exact .refl b w
    | fresh hl he hv ha =>
      exact .register (hw c ctx hc) hc (Context.nextId?_of_fresh he) hb (by rw [ha, if_neg hb]) hv
    | refused hl he hv ha => exact .reseat (ha b) hc hv rfl

/-! ## Removals -/

/-- A removal is about the agent that the numbers lead to, and spares every other one. -/
theorem drainRemoval_spares (hw : w.Sound) (hb : b ≠ a) :
    Spares b w (w.drainRemoval c a).2 ↔ ¬w.Denotes c a b := by
  cases hc : w.context? c with
  | none =>
    simp only [drainRemoval, hc]
    refine ⟨fun _ => ?_, fun _ => .refl b w⟩
    rintro ⟨ctx, _, _, hx, -⟩
    rw [hc] at hx
    cases hx
  | some ctx =>
    have h := drainRemoval_cases (a := a) hc
    generalize w.drainRemoval c a = r at h
    cases h with
    | gone hl =>
      refine ⟨fun _ => ?_, fun _ => .refl b w⟩
      rintro ⟨_, agent, _, _, hl', -⟩
      rw [hl] at hl'
      cases hl'
    | absent hl hh =>
      refine ⟨fun _ => ?_, fun _ => .refl b w⟩
      rintro ⟨x, agent, p, hx, hl', hp, he⟩
      obtain rfl := Option.some.inj (hc.symm.trans hx)
      obtain rfl := Option.some.inj (hl.symm.trans hl')
      have hin := (hw c ctx hc).contains_iff.2 ⟨p, b, he⟩
      simp [Context.holds, hp, hin] at hh
    | @left agent priority v hl hp hi hv ha =>
      constructor
      · rintro hspares ⟨x, agent', q, hx, hl', -, he⟩
        obtain rfl := Option.some.inj (hc.symm.trans hx)
        obtain rfl := Option.some.inj (hl.symm.trans hl')
        have hq : q = priority :=
          Option.some.inj (((hw c ctx hc).index_of_mem he).symm.trans hi)
        have hleft := (lists_iff hv.self).1 ((hspares.entries c q _).2 ((lists_iff hc).2 he))
        exact (Registry.mem_entries_unregister.1 hleft).2 (by rw [hq])
      · intro hnot
        refine .unregister hc (by rw [ha, if_neg hb]) hv fun q he => hnot ?_
        exact ⟨ctx, agent, q, hc, hl, hp, he⟩

theorem drainRemoval_snd : (w.drainRemoval c a).2 = w.removeNow c a := by
  unfold drainRemoval
  split
  · rfl
  · next h =>
    unfold removeNow
    split
    · next ctx agent hc hl => exact absurd hl (h ctx agent hc)
    · rfl

/-- A removal that waits spares everybody. -/
theorem removeAgent_spares (hw : w.Sound) (hb : b ≠ a) :
    Spares b w (w.removeAgent c a) ↔ ¬(w.Idle c ∧ w.Denotes c a b) := by
  unfold removeAgent
  split
  · next ctx agent hc hl =>
    split
    · next hx =>
      refine ⟨fun _ h => ?_, fun _ => .reseat rfl hc (becomes_modifyContext hc _) rfl⟩
      rw [h.1 ctx hc] at hx
      cases hx
    · next hx =>
      rw [← drainRemoval_snd, drainRemoval_spares hw hb,
        and_iff_right (idle_of hc (Bool.eq_false_iff.2 hx))]
  · next h =>
    refine ⟨fun _ => ?_, fun _ => .refl b w⟩
    rintro ⟨-, ctx, agent, -, hc, hl, -⟩
    exact h ctx agent hc hl

/-! ## Questions -/

/-- The numbers that an agent recorded lead to nothing or to one agent. -/
theorem Sound.denotes_unique (hw : w.Sound) {b' : AgentRef} (h : w.Denotes c a b)
    (h' : w.Denotes c a b') : b' = b := by
  obtain ⟨ctx, agent, p, hc, hl, -, he⟩ := h
  obtain ⟨ctx', agent', p', hc', hl', -, he'⟩ := h'
  obtain rfl := Option.some.inj (hc.symm.trans hc')
  obtain rfl := Option.some.inj (hl.symm.trans hl')
  exact ((hw c ctx hc).unique he he').2

theorem Sound.containsAgent_iff (hw : w.Sound) :
    w.containsAgent c a = true ↔ ∃ b, w.Denotes c a b := by
  constructor
  · intro h
    obtain ⟨ctx, agent, hc, hl, hh⟩ := containsAgent_cases h
    rw [Context.holds, Bool.and_eq_true, beq_iff_eq] at hh
    obtain ⟨p, b, he⟩ := (hw c ctx hc).contains_iff.1 hh.2
    exact ⟨b, ctx, agent, p, hc, hl, hh.1, he⟩
  · rintro ⟨b, ctx, agent, p, hc, hl, hp, he⟩
    have hin := (hw c ctx hc).contains_iff.2 ⟨p, b, he⟩
    rw [World.containsAgent_iff hc hl, Context.holds, hp, hin, beq_self_eq_true, Bool.true_and]

/-- What holds of operations for an agent in every world: they go by numbers. -/
structure ByNumber (w : World τ α) : Prop where
  contains : ∀ c a, w.containsAgent c a = true ↔ ∃ b, w.Denotes c a b
  /-- The numbers lead to one agent at most. -/
  one : ∀ c a b b', w.Denotes c a b → w.Denotes c a b' → b' = b
  added : ∀ c a b, b ≠ a → Spares b w (w.addAgent c a) ∧ Spares b w (w.drainAddition c a).2
  removed : ∀ c a b, b ≠ a → (Spares b w (w.removeAgent c a) ↔ ¬(w.Idle c ∧ w.Denotes c a b))
  removedLater : ∀ c a b, b ≠ a → (Spares b w (w.drainRemoval c a).2 ↔ ¬w.Denotes c a b)

theorem Sound.byNumber (hw : w.Sound) : w.ByNumber where
  contains _ _ := hw.containsAgent_iff
  one _ _ _ _ := hw.denotes_unique
  added c _ _ hb := ⟨addAgent_spares hw c hb, drainAddition_spares hw c hb⟩
  removed _ _ _ := removeAgent_spares hw
  removedLater _ _ _ := drainRemoval_spares hw

/-! ## One context for each agent -/

/-- No agent, alive or gone, is listed twice. -/
def Single (w : World τ α) : Prop :=
  ∀ a c c' p p' i i', w.Lists c p i a → w.Lists c' p' i' a → c' = c ∧ p' = p ∧ i' = i

theorem Single.mono (h : w.Single) (hv : ∀ c p i a, v.Lists c p i a → w.Lists c p i a) :
    v.Single :=
  fun a c c' p p' i i' he he' => h a c c' p p' i i' (hv c p i a he) (hv c' p' i' a he')

/-- A new entry is that of an agent which had none. -/
theorem Edit.lists (h : Edit c w v) (hw : w.DistinctIds ∧ w.Coherent)
    (he : v.Lists c' p i a) : w.Lists c' p i a ∨ (∀ d q j, ¬w.Lists d q j a) ∧
      ∃ ctx agent, w.context? c = some ctx ∧ w.live? a = some agent ∧ c' = c ∧
        p = agent.priority ∧ ctx.registry.nextId? = some i := by
  have only {ctx ctx' : Context} (hc : w.context? c = some ctx) (hv : Becomes c ctx' w v)
      (hsub : (p, i, a) ∈ ctx'.registry.entries → (p, i, a) ∈ ctx.registry.entries) :
      w.Lists c' p i a := by
    obtain ⟨x, hx, he⟩ := he
    rcases hv.cases hx with ⟨rfl, rfl⟩ | ⟨-, hx⟩
    · exact ⟨ctx, hc, hsub he⟩
    · exact ⟨x, hx, he⟩
  cases h with
  | rest hc =>
    obtain ⟨x, hx, he⟩ := he
    exact .inl ⟨x, hc c' ▸ hx, he⟩
  | set _ _ _ hc _ hv | wait _ _ hc _ _ hv => exact .inl (only hc hv id)
  | dismiss _ hc _ _ _ _ hv =>
    exact .inl (only hc hv fun he => (Registry.mem_entries_unregister.1 he).1)
  | prune hc hv => exact .inl (only hc hv fun he => (Registry.mem_entries_prune.1 he).1)
  | clear hc hv => exact .inl (only hc hv fun he => by cases he)
  | @enroll ctx agent b id hc hx hl hfresh hv ha =>
    obtain ⟨hp, hn⟩ := hw.2.fresh_invalid hc hl hfresh
    obtain ⟨x, hx, he⟩ := he
    rcases hv.cases hx with ⟨rfl, rfl⟩ | ⟨-, hx⟩
    · rcases (Registry.mem_entries_register (hw.2.sound _ ctx hc) hn).1 he with he | he
      · cases he
        refine .inr ⟨?_, ctx, agent, hc, hl, rfl, rfl, hn⟩
        rintro d q j ⟨y, hy, hj⟩
        have hplace := ((hw.2.entered d y a agent hy hl q j).1 hj).1
        rw [hplace] at hp
        exact hw.1.valid d y hy hp
      · exact .inl ⟨ctx, hc, he⟩
    · exact .inl ⟨x, hx, he⟩

theorem Single.edit (h : w.Single) (hw : w.DistinctIds ∧ w.Coherent) (he : Edit c w v) :
    v.Single := by
  intro a d d' p p' i i' hd hd'
  rcases he.lists hw hd with hd | ⟨hnone, ctx, agent, hc, hl, rfl, rfl, hn⟩
  · rcases he.lists hw hd' with hd' | ⟨hnone, -⟩
    · exact h a d d' p p' i i' hd hd'
    · exact absurd hd (hnone d p i)
  · rcases he.lists hw hd' with hd' | ⟨-, ctx', agent', hc', hl', rfl, rfl, hn'⟩
    · exact absurd hd' (hnone d' p' i')
    · obtain rfl := Option.some.inj (hc.symm.trans hc')
      obtain rfl := Option.some.inj (hl.symm.trans hl')
      exact ⟨rfl, rfl, Option.some.inj (hn'.symm.trans hn)⟩

theorem Single.edits (h : w.Single) (hw : w.DistinctIds ∧ w.Coherent) (he : Edits c w v) :
    v.Single := by
  induction he with
  | refl => exact h
  | tail hs he ih => exact ih.edit (Coherent.edits hs hw) he

theorem Single.modifyContext (h : w.Single) (f : Context → Context)
    (hf : ∀ ctx, (f ctx).registry.entries = ctx.registry.entries) :
    (w.modifyContext c f).Single := by
  refine h.mono fun d p i a => ?_
  rintro ⟨ctx, hx, he⟩
  rw [context?_modifyContext] at hx
  split at hx
  · obtain ⟨x, hx', rfl⟩ := Option.map_eq_some_iff.1 hx
    exact ⟨x, hx', hf x ▸ he⟩
  · exact ⟨ctx, hx, he⟩

theorem Single.settle (h : w.Single) (inUse : Bool) (hc : w.context? c = some ctx) :
    (w.settle c inUse).Single := by
  refine h.mono fun d p i a => ?_
  rintro ⟨x, hx, he⟩
  rcases (becomes_settle inUse hc).cases hx with ⟨rfl, rfl⟩ | ⟨-, hx⟩
  · exact ⟨ctx, hc, he⟩
  · exact ⟨x, hx, he⟩

theorem Single.newContext (h : w.Single) (id : ContextId) (types : Hierarchy)
    (stepMillis : UInt32) : (w.addContext (.new id types stepMillis)).2.Single := by
  refine h.mono fun d p i a => ?_
  rintro ⟨x, hx, he⟩
  rw [context?_addContext] at hx
  split at hx
  · cases hx
    cases he
  · exact ⟨x, hx, he⟩

theorem single_empty (h : Host α) : ({ host := h } : World τ α).Single := by
  rintro a c c' p p' i i' ⟨ctx, hx, -⟩
  cases hx

theorem single_durable :
    Durable fun w : World τ α => (w.DistinctIds ∧ w.Coherent) ∧ w.Single where
  edit he h := ⟨coherent_durable.edit he h.1, h.2.edit h.1 he⟩
  fade hc hf h := ⟨coherent_durable.fade hc hf h.1, h.2.mono fun d p i a ⟨ctx, hx, he⟩ =>
    ⟨ctx, hc d ▸ hx, he⟩⟩
  create g h := ⟨coherent_durable.create g h.1, h.2⟩
  close hc ha hempty h := by
    refine ⟨coherent_durable.close hc ha hempty h.1, h.2.mono ?_⟩
    rintro d p i a ⟨ctx, hx, he⟩
    rw [hc] at hx
    split at hx
    · cases hx
    · exact ⟨ctx, hx, he⟩
  flags f hf h := by
    refine ⟨coherent_durable.flags f hf h.1, h.2.modifyContext f fun ctx => ?_⟩
    rw [hf ctx]
  startWalk hc hx h :=
    ⟨coherent_durable.startWalk hc hx h.1, h.2.modifyContext _ fun _ => rfl⟩
  finishWalk {c w} inUse h := by
    refine ⟨coherent_durable.finishWalk inUse h.1, ?_⟩
    cases hc : w.context? c with
    | none => exact h.2.edits h.1 (finishWalk_none hc)
    | some ctx =>
      exact (h.2.settle inUse hc).edits (coherent_settle h.1 inUse hc) (finishWalk_edits hc)

/-- What holds of operations for an agent if the contexts have distinct ids: they are about that
agent. -/
structure Exact (w : World τ α) : Prop where
  contains : ∀ c a, w.containsAgent c a = true ↔ w.alive a = true ∧ ∃ p i, w.Lists c p i a
  added : ∀ c a b, b ≠ a → Spares b w (w.addAgent c a) ∧ Spares b w (w.drainAddition c a).2
  removed : ∀ c a b, b ≠ a → Spares b w (w.removeAgent c a) ∧ Spares b w (w.drainRemoval c a).2
  single : w.Single

/-- The numbers that an agent of coherent contexts recorded lead to its own registration. -/
theorem Coherent.denotes_iff (h : w.Coherent) :
    w.Denotes c a b ↔ b = a ∧ w.alive a = true ∧ ∃ p i, w.Lists c p i a := by
  constructor
  · rintro ⟨ctx, agent, p, hc, hl, hp, he⟩
    have hown : (agent.priority, agent.place.id, a) ∈ ctx.registry.entries :=
      (h.entered c ctx a agent hc hl _ _).2 ⟨by rw [← hp], rfl⟩
    exact ⟨((h.sound c ctx hc).unique hown he).2, alive_of_live? hl, _, _, ctx, hc, hown⟩
  · rintro ⟨rfl, ha, p, i, ctx, hc, he⟩
    obtain ⟨agent, hl⟩ := alive_iff.1 ha
    obtain ⟨hplace, -⟩ := (h.entered c ctx b agent hc hl p i).1 he
    exact ⟨ctx, agent, p, hc, hl, by rw [hplace], by rw [hplace]; exact he⟩

theorem Coherent.exact (h : w.Coherent) (hs : w.Single) : w.Exact := by
  have hnum : w.ByNumber := Sound.byNumber h.sound
  have hnot : ∀ {c a b}, b ≠ a → ¬w.Denotes c a b := fun hb hd => hb (h.denotes_iff.1 hd).1
  refine ⟨fun c a => ?_, hnum.added, fun c a b hb => ⟨?_, ?_⟩, hs⟩
  · simp only [hnum.contains, h.denotes_iff, exists_eq_left]
  · exact (hnum.removed c a b hb).2 fun hd => hnot hb hd.2
  · exact (hnum.removedLater c a b hb).2 (hnot hb)

/-! ## Runs -/

variable [Behavior τ α]

/-- At every point of every run, and when the turns of waiting requests come, operations go by the
numbers that agents recorded. If no two contexts ever have the same id, operations are about the
agent they are given. -/
theorem operations_find_by_number (h : Host α) (ds : List (Deed τ α)) :
    (∀ w ∈ points ds ({ host := h } : World τ α), w.ByNumber ∧
      ∀ n c, w.Idle c → ∀ turn ∈ w.waitingTurns n c, turn.2.ByNumber) ∧
    ((∀ v ∈ points ds ({ host := h } : World τ α), v.DistinctIds) →
      ∀ w ∈ points ds ({ host := h } : World τ α), w.Exact ∧
        ∀ n c, w.Idle c → ∀ turn ∈ w.waitingTurns n c, turn.2.Exact) := by
  constructor
  · intro w hw
    have hs : w.Sound := sound_points h ds w hw
    exact ⟨hs.byNumber, fun n c hi turn ht => (hs.waitingTurns n hi turn ht).byNumber⟩
  · intro hd w hw
    have hall := single_durable.points (fun id types stepMillis hd hw => ⟨⟨hd,
      hw.1.2.newContext id types stepMillis hd⟩, Single.newContext hw.2 id types stepMillis⟩) ds hd
      ⟨⟨hd _ (mem_points_self ds _), coherent_empty h⟩, single_empty h⟩ w hw
    refine ⟨hall.1.2.exact hall.2, fun n c hi turn ht => ?_⟩
    have hturn := waitingTurns_durable single_durable (fun inUse hc h =>
      ⟨coherent_settle h.1 inUse hc, h.2.settle inUse hc⟩) n hi hall turn ht
    exact hturn.1.2.exact hturn.2

section Sample

/-- A tick of the first context has requests for agents of both, in turns. -/
theorem operations_find_by_number_sample :
    (∀ v ∈ points rivalDeeds ({ host := { app := () } } : World Routine Unit), v.DistinctIds) ∧
      rivalWorld.Exact ∧ (rivalWorld.waitingTurns 2 ⟨0⟩).length = 3 ∧
        ∀ turn ∈ rivalWorld.waitingTurns 2 ⟨0⟩, turn.2.Exact := by
  have hids : ∀ v ∈ points rivalDeeds ({ host := { app := () } } : World Routine Unit),
      v.contextIds.Nodup ∧ .invalid ∉ v.contextIds := by decide +kernel
  have hd : ∀ v ∈ points rivalDeeds ({ host := { app := () } } : World Routine Unit),
      v.DistinctIds := fun v hv => .of_contextIds (hids v hv)
  obtain ⟨hexact, hturns⟩ := (operations_find_by_number { app := () } rivalDeeds).2 hd rivalWorld
    (run_mem_points ..)
  have hidle : (rivalWorld.context? ⟨0⟩).all (fun ctx => !ctx.executing) = true := by
    decide +kernel
  refine ⟨hd, hexact, by decide +kernel, hturns 2 ⟨0⟩ fun ctx hc => ?_⟩
  rw [hc] at hidle
  simpa using hidle

/-- Two contexts of one id, with an agent each: the second one takes the first agent for its own,
and a removal of that agent ends the registration of the other. -/
example :
    let w : World Routine Unit := run [.newContext ⟨1⟩ {} 10, .newContext ⟨1⟩ {} 10,
      .create ⟨"first", "Agent", 0, ⟨[]⟩⟩, .create ⟨"second", "Agent", 0, ⟨[]⟩⟩,
      .on ⟨0⟩ (.task (.add ⟨0⟩)), .on ⟨1⟩ (.task (.add ⟨1⟩))] { host := { app := () } }
    (w.containsAgent ⟨1⟩ ⟨0⟩, w.containsAgent ⟨1⟩ ⟨1⟩,
      (w.removeAgent ⟨1⟩ ⟨0⟩).containsAgent ⟨1⟩ ⟨1⟩) = (true, true, false) := by
  decide +kernel

end Sample

end AgentScheduler.World
