/-
A snapshot goes back only into the agents it was taken from. A snapshot refers
to agents by ids, and an id is never given out twice, so an id finds the agent
that had it at the save or nobody (`Since.resolve_iff`). A load is accepted
exactly if every recorded agent has kept its place since (`goes_back`).
-/
import AgentScheduler.Proofs.Continuity
import AgentScheduler.Proofs.Loading

namespace AgentScheduler

/-! ## Declared classes -/

namespace Statics

/-- Only declared classes have live values or a baseline. -/
def Declared (types : Hierarchy) (s : Statics) : Prop :=
  ∀ cls ∈ s.classes, types.contains cls = true

variable {types : Hierarchy} {s s' : Statics} {T : List Told}

theorem declared_seeded : (seeded types).Declared types := by
  intro cls hcls
  rcases mem_classes.1 hcls with h | h
  · rw [seeded, Hierarchy.allStaticDefaults, SortedMap.get?_mapValues, Option.isSome_map,
      SortedMap.get?_filter, Option.isSome_iff_exists] at h
    obtain ⟨info, h⟩ := h
    exact Option.isSome_iff_exists.2 ⟨info, (Option.filter_eq_some_iff.1 h).1⟩
  · cases h

theorem mem_classes_commit {cls cls' : String} (h : cls ∈ (s.commit cls').classes) :
    cls ∈ s.classes := by
  rw [mem_classes] at h ⊢
  rcases h with h | h
  · exact .inl h
  · unfold commit at h
    cases hl : s.live.get? cls' with
    | some vars =>
      simp only [hl, SortedMap.get?_insert] at h
      split at h
      · next he => exact .inl (by rw [he, hl]; rfl)
      · exact .inr h
    | none =>
      simp only [hl, SortedMap.get?_erase] at h
      split at h
      · cases h
      · exact .inr h

theorem Logged.declared {l : List String} {through : Bool} (h : Logged l s T through s')
    (hs : s.Declared types) : s'.Declared types := by
  induction h with
  | done | refused => exact hs
  | still _ _ ih => exact ih hs
  | sent _ _ ih => exact ih fun cls hcls => hs cls (mem_classes_commit hcls)

theorem Step.declared (h : Step types s T s') (hs : s.Declared types) : s'.Declared types := by
  cases h with
  | set h =>
    unfold Statics.set at h
    split at h
    · cases h
    next hcls =>
    split at h
    · cases h
    cases h
    intro k hk
    rcases mem_classes.1 hk with hk | hk
    · rw [SortedMap.get?_insert] at hk
      split at hk
      · next he => rw [he]; simpa using hcls
      · exact hs k (mem_classes.2 (.inl hk))
    · exact hs k (mem_classes.2 (.inr hk))
  | log h => exact h.declared hs
  | clear =>
    intro cls hcls
    rcases mem_classes.1 hcls with h | h
    · exact hs cls (mem_classes.2 (.inl h))
    · cases h
  | replace h =>
    intro cls hcls
    refine h cls (List.mem_append.2 ?_)
    rw [SortedMap.mem_keys, SortedMap.mem_keys]
    exact (mem_classes.1 hcls).symm

end Statics

namespace World

variable {τ α : Type} {w v u x : World τ α} {c : ContextRef} {a b : AgentRef}
  {ctx ctx' : Context} {agent : Agent τ} {s : Snapshot}

theorem Heard.declared {T : List (Hearing τ α)} (h : Heard c w T v)
    (hw : ∀ ctx, w.context? c = some ctx → ctx.statics.Declared ctx.types) :
    ∀ ctx, v.context? c = some ctx → ctx.statics.Declared ctx.types := by
  have step {told : List Told} {w v : World τ α} (hf : Follows c told w v)
      (hw : ∀ ctx, w.context? c = some ctx → ctx.statics.Declared ctx.types) :
      ∀ ctx, v.context? c = some ctx → ctx.statics.Declared ctx.types := by
    intro ctx' hc'
    cases hc : w.context? c with
    | none =>
      obtain ⟨-, hnew⟩ := hf.absent hc
      rw [(hnew ctx' hc').2]
      exact Statics.declared_seeded
    | some ctx =>
      rcases hf.present ctx hc with ⟨-, hgone⟩ | ⟨y, hy, htypes, hstep⟩
      · rw [hgone] at hc'; cases hc'
      · rw [hy] at hc'
        cases hc'
        rw [htypes]
        exact hstep.declared (hw ctx hc)
  induction h with
  | nil => exact hw
  | quiet hf _ ih => exact ih (step hf hw)
  | point hf _ ih => exact ih (step hf hw)

variable [Behavior τ α]

/-- In a run from the beginning, only declared classes have values or baselines. -/
theorem declared_run (h : Host α) (ds : List (Deed τ α)) :
    ∀ ctx, (run ds ({ host := h } : World τ α)).context? c = some ctx →
      ctx.statics.Declared ctx.types :=
  (hearings_heard ds _).declared fun ctx hc => by simp [context?] at hc

/-! ## Then and now -/

/-- A context at one moment between deeds and at a later one. -/
structure Since (c : ContextRef) (ctx ctx' : Context) (w v : World τ α) : Prop where
  was : w.context? c = some ctx
  still : v.context? c = some ctx'
  coherent : w.Coherent
  coherentNow : v.Coherent
  rest : w.AtRest
  restNow : v.AtRest
  bound : Bound (fun _ _ => False) w
  declared : ctx.statics.Declared ctx.types
  later : Later c w v

/-- The agent is where it was. -/
def InPlace (v : World τ α) (m : AgentRef × Agent τ) : Prop :=
  ∃ agent, v.live? m.1 = some agent ∧ agent.place = m.2.place

namespace Since

omit [Behavior τ α]

variable (h : Since c ctx ctx' w v)

include h

theorem same : ctx'.id = ctx.id ∧ ctx'.types = ctx.types ∧ ctx.registry.Grows ctx'.registry := by
  obtain ⟨x, hx, hid, htypes, hgrows⟩ := h.later.context ctx' h.still
  rw [h.was] at hx
  cases hx
  exact ⟨hid, htypes, hgrows⟩

theorem place_of_mem (hm : (a, agent) ∈ w.members ctx.registry) :
    w.live? a = some agent ∧ agent.place = ⟨ctx.id, agent.place.id⟩ := by
  obtain ⟨hmem, hl⟩ := mem_members.1 hm
  exact ⟨hl, by rw [← (h.coherent.mem_walkOrder_iff h.was hl).1 hmem]⟩

/-- The id of a member finds this agent, if it is where it was, and no other one. -/
theorem resolve_iff (hm : (a, agent) ∈ w.members ctx.registry) :
    v.resolve ctx' agent.place.id agent.cls = .ok b ↔ b = a ∧ v.InPlace (a, agent) := by
  obtain ⟨hl, hplace⟩ := h.place_of_mem hm
  obtain ⟨hid, -, hgrows⟩ := h.same
  rw [h.coherentNow.resolve_iff h.still]
  constructor
  · rintro ⟨agent', hl', hplace', -⟩
    have he' := (h.coherentNow.entered c ctx' b agent' h.still hl' _ _).2 ⟨hplace', rfl⟩
    have he := (h.coherent.entered c ctx a agent h.was hl _ _).2 ⟨hplace, rfl⟩
    have hsound := h.coherent.sound c ctx h.was
    rcases hgrows.entries _ _ _ he' with hold | hnew
    · obtain rfl := (hsound.unique he hold).2
      exact ⟨rfl, agent', hl', by rw [hplace', hid, ← hplace]⟩
    · have := (hsound.issued _ _ _ he).2
      omega
  · rintro ⟨rfl, agent', hl', hsame⟩
    replace hl' : v.live? b = some agent' := hl'
    obtain ⟨y, hy, hcls, -⟩ := h.later.agents b agent (live?_eq_some.1 hl).1
    obtain rfl := Option.some.inj ((live?_eq_some.1 hl').1.symm.trans hy)
    exact ⟨agent', hl', by rw [hid, ← hplace, hsame], hcls⟩

/-- A name of a member stands for it by its class. -/
theorem bindings_valid {name : String} (hn : (w.bindings ctx.registry).get? name = some a) :
    ∃ agent, (a, agent) ∈ w.members ctx.registry ∧
      ctx.types.isValidInstanceName name agent.cls = true := by
  rw [bindings, SortedMap.get?_filter, Option.filter_eq_some_iff] at hn
  obtain ⟨agent, hl⟩ := alive_iff.1 hn.2
  obtain ⟨hvalid, hheld⟩ := h.bound.held c ctx name a agent h.was hn.1 hl
  have hidle := (h.rest.contexts c ctx h.was).1
  rw [(h.coherent.quiet c ctx h.was hidle).1] at hheld
  have hplace : agent.place.context = ctx.id := by
    rcases hheld with hp | hp | hp
    · exact hp
    · cases hp
    · cases hp
  exact ⟨agent, mem_members.2 ⟨(h.coherent.mem_walkOrder_iff h.was hl).2 hplace, hl⟩, hvalid⟩

end Since

namespace Since

variable (h : Since c ctx ctx' w v)

include h

omit [Behavior τ α] in
/-- The id of a member that is where it was stands for it. -/
theorem agent?_of_inPlace (hm : (a, agent) ∈ w.members ctx.registry) (hp : v.InPlace (a, agent)) :
    v.Resolves ctx' agent.place.id agent.cls a :=
  resolve_eq_ok_iff.1 ((h.resolve_iff hm).2 ⟨rfl, hp⟩)

/-- When all members are where they were, their snapshot matches. -/
theorem matches_of_inPlace (hall : ∀ m ∈ w.members ctx.registry, v.InPlace m) :
    v.Matches ctx' (w.snapshot ctx) := by
  obtain ⟨hid, htypes, -⟩ := h.same
  constructor
  case source => exact .inr hid.symm
  case classes =>
    intro cls hcls
    rw [htypes]
    exact h.declared cls (Statics.mem_classes.2 hcls.symm)
  case named =>
    intro name b hb
    replace hb : ((w.bindings ctx.registry).mapValues _).get? name = some b := hb
    rw [SortedMap.get?_mapValues, Option.map_eq_some_iff] at hb
    obtain ⟨a, hn, rfl⟩ := hb
    obtain ⟨agent, hm, hvalid⟩ := h.bindings_valid hn
    rw [(live?_eq_some.1 (mem_members.1 hm).2).1, htypes]
    exact ⟨⟨a, h.agent?_of_inPlace hm (hall _ hm)⟩, hvalid⟩
  case agents =>
    intro snap hs
    obtain ⟨⟨a, agent⟩, hm, rfl⟩ := List.mem_map.1 hs
    exact ⟨a, h.agent?_of_inPlace hm (hall _ hm)⟩

/-- A snapshot that matches finds all members where they were. -/
theorem inPlace_of_matches (hs : v.Matches ctx' (w.snapshot ctx)) :
    ∀ m ∈ w.members ctx.registry, v.InPlace m := by
  intro m hm
  obtain ⟨b, hb⟩ := hs.agents m.2.snapshot (List.mem_map_of_mem hm)
  exact ((h.resolve_iff hm).1 (resolve_eq_ok_iff.2 hb)).2

omit [Behavior τ α] in
/-- A member that is where it was is what it was, apart from its task. -/
theorem live_of_inPlace (hm : (a, agent) ∈ w.members ctx.registry) (hp : v.InPlace (a, agent)) :
    ∃ agent', v.live? a = some agent' ∧ agent'.place = agent.place ∧ agent'.cls = agent.cls ∧
      agent'.priority = agent.priority := by
  obtain ⟨agent', hl', hplace⟩ := hp
  obtain ⟨y, hy, hcls, hprio, -⟩ := h.later.agents a agent (live?_eq_some.1 (mem_members.1 hm).2).1
  obtain rfl := Option.some.inj ((live?_eq_some.1 hl').1.symm.trans hy)
  exact ⟨agent', hl', hplace, hcls, hprio⟩

end Since

/-! ## Loading -/

/-- What a load of the snapshot leaves, once it went through. -/
structure Restored (c : ContextRef) (ctx ctx' : Context) (w v x : World τ α) : Prop where
  context : x.context? c = some (ctx'.reloaded (w.snapshot ctx) (w.bindings ctx.registry))
  /-- Each state is given to its own agent. -/
  given : ∀ m ∈ w.members ctx.registry, x.agent? m.1 = (v.agent? m.1).map fun agent =>
    { agent with task := (Behavior.load (Behavior.save m.2.task) agent.task).2 }
  untouched : ∀ b, b ∉ (w.members ctx.registry).map (·.1) → x.agent? b = v.agent? b
  atRest : x.AtRest

end World

/-- The second task takes back what the first one saves, and then saves it again. -/
def Regains {τ α : Type} [Behavior τ α] (t u : τ) : Prop :=
  (Behavior.load (Behavior.save t) u).1 = .ok () ∧
    Behavior.save (Behavior.load (Behavior.save t) u).2 = Behavior.save t

namespace World

variable {τ α : Type} [Behavior τ α] {w v x : World τ α} {c : ContextRef} {a b : AgentRef}
  {ctx ctx' : Context} {agent : Agent τ}

namespace Since

variable (h : Since c ctx ctx' w v)

include h

/-- The snapshot lists each member once. -/
theorem listed_once (hall : ∀ m ∈ w.members ctx.registry, v.InPlace m)
    {before after : List AgentSnapshot} {snap : AgentSnapshot}
    (hl : (w.snapshot ctx).agents = before ++ snap :: after)
    (ha : ctx'.registry.agent? snap.id = some a) :
    (∃ agent, (a, agent) ∈ w.members ctx.registry ∧ agent.snapshot = snap) ∧
      (∀ other ∈ before, ctx'.registry.agent? other.id ≠ some a) ∧
      ∀ other ∈ after, ctx'.registry.agent? other.id ≠ some a := by
  obtain ⟨before', rest, hmembers, rfl, hrest⟩ := List.map_eq_append_iff.1 hl
  obtain ⟨⟨b, agent⟩, after', rfl, rfl, rfl⟩ := List.map_eq_cons_iff.1 hrest
  have hseat {m : AgentRef × Agent τ} (hm : m ∈ w.members ctx.registry) :
      ctx'.registry.agent? m.2.snapshot.id = some m.1 := (h.agent?_of_inPlace hm (hall m hm)).1
  have hm : (b, agent) ∈ w.members ctx.registry := by simp [hmembers]
  obtain rfl := Option.some.inj ((hseat hm).symm.trans ha)
  have hnodup := h.coherent.members_nodup h.was
  rw [hmembers, List.map_append, List.map_cons, List.nodup_append, List.nodup_cons] at hnodup
  refine ⟨⟨agent, hm, rfl⟩, fun other ho he => ?_, fun other ho he => ?_⟩
  · obtain ⟨m, hbefore, rfl⟩ := List.mem_map.1 ho
    have he' := (hseat (by simp [hmembers, hbefore])).symm.trans he
    exact hnodup.2.2 _ (List.mem_map_of_mem hbefore) _ List.mem_cons_self (Option.some.inj he')
  · obtain ⟨m, hafter, rfl⟩ := List.mem_map.1 ho
    have he' := (hseat (by simp [hmembers, hafter])).symm.trans he
    exact hnodup.2.1.1 (Option.some.inj he' ▸ List.mem_map_of_mem hafter)

/-- A snapshot whose members are where they were is loaded. -/
theorem load_of_inPlace (hall : ∀ m ∈ w.members ctx.registry, v.InPlace m)
    (ht : ∀ m ∈ w.members ctx.registry, ∀ agent, v.agent? m.1 = some agent →
      Regains m.2.task agent.task) :
    ∃ x, v.load c (w.snapshot ctx) = (.ok (), x) ∧ Restored c ctx ctx' w v x := by
  have hidle := (h.restNow.contexts c ctx' h.still).1
  have haccept : v.TasksAccept ctx'.registry (w.snapshot ctx).agents := by
    intro before snap after a agent' hl ha hlive
    obtain ⟨⟨agent, hm, rfl⟩, hbefore, -⟩ := h.listed_once hall hl ha
    have ha' := (live?_eq_some.1 hlive).1
    rw [Registry.statesFor_eq_nil hbefore]
    exact ⟨h.restNow.not_running ha', (ht _ hm agent' ha').1⟩
  have hmatches := h.matches_of_inPlace hall
  have hok := (load_ok_iff h.still hidle).2 ⟨hmatches, haccept⟩
  have hloaded := loaded_of_accepted h.still hidle hmatches haccept
  have hrest : (v.load c (w.snapshot ctx)).2.AtRest :=
    (SameActivity.of_edits (load_edits (c := c) _)).atRest h.restNow
  refine ⟨_, Prod.ext hok rfl, ?_, fun m hm => ?_, fun b hb => hloaded.unlisted b ?_, hrest⟩
  · obtain ⟨y, hy, hfrom⟩ := hloaded.context
    have hnamed : y.registry.named = w.bindings ctx.registry := SortedMap.ext_get? fun name => by
      rw [hfrom.names]
      show (((w.bindings ctx.registry).mapValues _).get? name).bind _ = _
      rw [SortedMap.get?_mapValues]
      cases hn : (w.bindings ctx.registry).get? name with
      | none => rfl
      | some a =>
        obtain ⟨agent, hm, -⟩ := h.bindings_valid hn
        simp only [Option.map_some, Option.bind_some, (live?_eq_some.1 (mem_members.1 hm).2).1]
        exact (h.agent?_of_inPlace hm (hall _ hm)).1
    rw [hy, hfrom.rest, hfrom.registry, hfrom.statics, hfrom.clock, hnamed]
    rfl
  · obtain ⟨before, after, hl⟩ := List.append_of_mem hm
    have hsplit : (w.snapshot ctx).agents = before.map (·.2.snapshot) ++
        m.2.snapshot :: after.map (·.2.snapshot) := by
      show (w.members ctx.registry).map _ = _
      rw [hl, List.map_append, List.map_cons]
    have ha := (h.agent?_of_inPlace hm (hall m hm)).1
    obtain ⟨-, hbefore, hafter⟩ := h.listed_once hall hsplit ha
    rw [hloaded.lastCounts _ _ _ _ hsplit ha hafter, Registry.statesFor_eq_nil hbefore]
    rfl
  · intro snap hs he
    obtain ⟨m, hm, rfl⟩ := List.mem_map.1 hs
    have ha := (h.agent?_of_inPlace hm (hall m hm)).1
    exact hb (Option.some.inj (ha.symm.trans he) ▸ List.mem_map_of_mem hm)

/-- A member after the load: where it was, what it was, with what it saved. -/
theorem live_restored (hr : Restored c ctx ctx' w v x)
    (hm : (a, agent) ∈ w.members ctx.registry) (hp : v.InPlace (a, agent))
    (ht : ∀ agent', v.agent? a = some agent' → Regains agent.task agent'.task) :
    ∃ agent', x.live? a = some agent' ∧ agent'.place = agent.place ∧
      agent'.snapshot = agent.snapshot := by
  obtain ⟨agent', hl', hplace, hcls, hprio⟩ := h.live_of_inPlace hm hp
  have ha' := (live?_eq_some.1 hl').1
  have hx := hr.given (a, agent) hm
  rw [ha', Option.map_some] at hx
  refine ⟨_, live?_eq_some.2 ⟨hx, (live?_eq_some.1 hl').2⟩, hplace, ?_⟩
  simp only [Agent.snapshot, hplace, hcls, hprio, (ht agent' ha').2]

/-- After the load the names stand for whom they stood for. -/
theorem bindings_restored (hr : Restored c ctx ctx' w v x)
    (hall : ∀ m ∈ w.members ctx.registry, v.InPlace m)
    (ht : ∀ m ∈ w.members ctx.registry, ∀ agent, v.agent? m.1 = some agent →
      Regains m.2.task agent.task) :
    x.bindings (ctx'.reloaded (w.snapshot ctx) (w.bindings ctx.registry)).registry =
      w.bindings ctx.registry := by
  refine SortedMap.ext_get? fun name => ?_
  show ((w.bindings ctx.registry).filter fun _ a => x.alive a).get? name = _
  rw [SortedMap.get?_filter]
  cases hn : (w.bindings ctx.registry).get? name with
  | none => rfl
  | some a =>
    obtain ⟨agent, hm, -⟩ := h.bindings_valid hn
    obtain ⟨agent', hl', -⟩ := h.live_restored hr hm (hall _ hm) (ht _ hm)
    simp [Option.filter, alive_of_live? hl']

/-- A save after the load says what the loaded snapshot says. -/
theorem snapshot_restored (hr : Restored c ctx ctx' w v x)
    (hall : ∀ m ∈ w.members ctx.registry, v.InPlace m)
    (ht : ∀ m ∈ w.members ctx.registry, ∀ agent, v.agent? m.1 = some agent →
      Regains m.2.task agent.task) :
    let s' := x.snapshot (ctx'.reloaded (w.snapshot ctx) (w.bindings ctx.registry))
    s'.named = (w.snapshot ctx).named ∧ ∀ snap ∈ (w.snapshot ctx).agents, snap ∈ s'.agents := by
  refine ⟨?_, fun snap hsnap => ?_⟩
  · have hbindings := h.bindings_restored hr hall ht
    show x.savedBindings _ = w.savedBindings ctx.registry
    rw [savedBindings, savedBindings, hbindings]
    refine SortedMap.ext_get? fun name => ?_
    rw [SortedMap.get?_mapValues, SortedMap.get?_mapValues]
    cases hn : (w.bindings ctx.registry).get? name with
    | none => rfl
    | some a =>
      obtain ⟨agent, hm, -⟩ := h.bindings_valid hn
      obtain ⟨agent', hl', -, hsnap⟩ := h.live_restored hr hm (hall _ hm) (ht _ hm)
      rw [Option.map_some, Option.map_some, (live?_eq_some.1 hl').1,
        (live?_eq_some.1 (mem_members.1 hm).2).1]
      exact congrArg (fun s : AgentSnapshot => some (NamedBinding.mk s.id s.cls)) hsnap
  · obtain ⟨⟨a, agent⟩, hm, rfl⟩ := List.mem_map.1 hsnap
    obtain ⟨agent', hl', hplace, heq⟩ := h.live_restored hr hm (hall _ hm) (ht _ hm)
    refine List.mem_map.2 ⟨(a, agent'), mem_members.2 ⟨?_, hl'⟩, heq⟩
    obtain ⟨now, hnow, hsame, -⟩ := h.live_of_inPlace hm (hall _ hm)
    show a ∈ ctx'.registry.walkOrder
    rw [h.coherentNow.mem_walkOrder_iff h.still hnow, hsame, (h.place_of_mem hm).2, h.same.1]

/-- A load goes through if all members are where they were; otherwise it does not find them. -/
theorem load_decided (ht : ∀ m ∈ w.members ctx.registry, ∀ agent, v.agent? m.1 = some agent →
      Regains m.2.task agent.task) :
    (∀ m ∈ w.members ctx.registry, v.InPlace m) ∧
        (∃ x, v.load c (w.snapshot ctx) = (.ok (), x) ∧ Restored c ctx ctx' w v x) ∨
      ¬(∀ m ∈ w.members ctx.registry, v.InPlace m) ∧
        ∃ m, v.load c (w.snapshot ctx) = (.error (.structuralMismatch m), v) := by
  by_cases hall : ∀ m ∈ w.members ctx.registry, v.InPlace m
  · exact .inl ⟨hall, h.load_of_inPlace hall ht⟩
  · refine .inr ⟨hall, ?_⟩
    obtain ⟨m, hm⟩ := load_mismatched h.still (h.restNow.contexts c ctx' h.still).1 fun hs =>
      hall (h.inPlace_of_matches hs)
    exact ⟨m, hm _⟩

omit [Behavior τ α] in
/-- Who is now where it was has been there at every point between. -/
theorem inPlace_between {u : World τ α} (hu : u.Coherent) (hwu : Later c w u) (huv : Later c u v)
    (hm : (a, agent) ∈ w.members ctx.registry) (hp : v.InPlace (a, agent)) :
    u.InPlace (a, agent) := by
  obtain ⟨hl, hplace⟩ := h.place_of_mem hm
  obtain ⟨agent', hl', hsame, -⟩ := h.live_of_inPlace hm hp
  obtain ⟨y, hy, -⟩ := hwu.agents a agent (live?_eq_some.1 hl).1
  obtain ⟨z, hz, -, -, halive⟩ := huv.agents a y hy
  obtain rfl := Option.some.inj ((live?_eq_some.1 hl').1.symm.trans hz)
  have hly : u.live? a = some y := live?_eq_some.2 ⟨hy, halive (live?_eq_some.1 hl').2⟩
  obtain ⟨cu, hcu, hidu, -, hgrows⟩ := huv.context ctx' h.still
  obtain ⟨x, hx, hidw, -, hgrew⟩ := hwu.context cu hcu
  obtain rfl := Option.some.inj (h.was.symm.trans hx)
  have he := (h.coherent.entered c ctx a agent h.was hl _ _).2 ⟨hplace, rfl⟩
  have he' := (h.coherentNow.entered c ctx' a agent' h.still hl' _ _).2
    ⟨by rw [hsame, hidu, hidw, ← hplace], rfl⟩
  have hissued := ((h.coherent.sound c ctx h.was).issued _ _ _ he).2
  rcases hgrows.entries _ _ _ he' with hold | hnew
  · refine ⟨y, hly, ?_⟩
    rw [((hu.entered c cu a y hcu hly _ _).1 hold).1, hidw]
    exact hplace.symm
  · have := hgrew.issued
    omega

end Since

/-! ## Runs -/

/-- The agent that an entry of a snapshot was taken from. -/
def TakenFrom (w : World τ α) (s : Snapshot) (snap : AgentSnapshot) (a : AgentRef) : Prop :=
  ∃ agent, w.live? a = some agent ∧ agent.place.context = s.context ∧ agent.snapshot = snap

/-- The agent lives and is registered as the entry of a snapshot says. -/
def RegisteredAs (w : World τ α) (s : Snapshot) (snap : AgentSnapshot) (a : AgentRef) : Prop :=
  ∃ agent, w.live? a = some agent ∧ agent.place = ⟨s.context, snap.id⟩

/-- A snapshot `s` of a context, taken in `w`, is loaded in `v`. The worlds from the save to the
load are `since`. -/
structure GoesBack (c : ContextRef) (s : Snapshot) (w v : World τ α) (since : List (World τ α)) :
    Prop where
  /-- Each entry was taken from one agent. -/
  taken : ∀ snap ∈ s.agents, ∃ a, w.TakenFrom s snap a ∧ ∀ b, w.TakenFrom s snap b → b = a
  complete : ∀ a, w.containsAgent c a = true → ∃ snap ∈ s.agents, w.TakenFrom s snap a
  named : ∀ name b, s.named.get? name = some b ↔ ∃ a agent, w.lookup c name = some a ∧
    w.live? a = some agent ∧ b = ⟨agent.place.id, agent.cls⟩
  /-- The load goes through exactly if every agent has lived and kept its registration since. -/
  accepted : (v.load c s).1 = .ok () ↔ ∀ snap ∈ s.agents, ∀ a, w.TakenFrom s snap a →
    ∀ u ∈ since, u.RegisteredAs s snap a
  refused : (v.load c s).1 ≠ .ok () → ∃ m, (v.load c s).1 = .error (.structuralMismatch m)
  /-- A load right after the save goes through. -/
  atOnce : since = [v] → (v.load c s).1 = .ok ()
  /-- Each state is given to the agent it was taken from. -/
  given : (v.load c s).1 = .ok () → ∀ snap ∈ s.agents, ∀ a, w.TakenFrom s snap a →
    (v.load c s).2.agent? a = (v.agent? a).map fun agent =>
      { agent with task := (Behavior.load snap.state agent.task).2 }
  untouched : (v.load c s).1 = .ok () → ∀ a, (∀ snap ∈ s.agents, ¬w.TakenFrom s snap a) →
    (v.load c s).2.agent? a = v.agent? a
  /-- Names are bound to whom they were bound to, and there are no others. -/
  names : (v.load c s).1 = .ok () → ∀ ctx, (v.load c s).2.context? c = some ctx → ∀ name,
    ctx.registry.named.get? name = w.lookup c name ∧
      (v.load c s).2.lookup c name = w.lookup c name
  /-- Another save says what the first one said. -/
  resaved : (v.load c s).1 = .ok () → ∃ s' x, (v.load c s).2.save c = (.ok s', x) ∧
    s'.named = s.named ∧ s'.baselines = s.baselines ∧ s'.values = s.values ∧
      s'.clock.frames = s.clock.frames ∧ s'.clock.elapsedMillis = s.clock.elapsedMillis ∧
        ∀ snap ∈ s.agents, snap ∈ s'.agents

omit [Behavior τ α] in
theorem lookup_eq (hc : w.context? c = some ctx) (name : String) :
    w.lookup c name = (w.bindings ctx.registry).get? name := by
  rw [lookup, hc, bindings, SortedMap.get?_filter]
  rfl

namespace Since

variable (h : Since c ctx ctx' w v)

include h

theorem takenFrom_iff {snap : AgentSnapshot} : w.TakenFrom (w.snapshot ctx) snap a ↔
    ∃ agent, (a, agent) ∈ w.members ctx.registry ∧ agent.snapshot = snap := by
  constructor
  · rintro ⟨agent, hl, hp, hsnap⟩
    exact ⟨agent, mem_members.2 ⟨(h.coherent.mem_walkOrder_iff h.was hl).2 hp, hl⟩, hsnap⟩
  · rintro ⟨agent, hm, hsnap⟩
    obtain ⟨hl, hplace⟩ := h.place_of_mem hm
    exact ⟨agent, hl, by rw [hplace]; rfl, hsnap⟩

theorem registeredAs_iff {u : World τ α} (hm : (a, agent) ∈ w.members ctx.registry) :
    u.RegisteredAs (w.snapshot ctx) agent.snapshot a ↔ u.InPlace (a, agent) := by
  rw [InPlace, (h.place_of_mem hm).2]
  rfl

/-- An entry of a snapshot was taken from one agent only. -/
theorem takenFrom_unique {snap : AgentSnapshot} (ha : w.TakenFrom (w.snapshot ctx) snap a)
    (hb : w.TakenFrom (w.snapshot ctx) snap b) : b = a := by
  obtain ⟨agent, hm, rfl⟩ := h.takenFrom_iff.1 ha
  obtain ⟨agent', hm', hsnap⟩ := h.takenFrom_iff.1 hb
  obtain ⟨hl, hplace⟩ := h.place_of_mem hm
  obtain ⟨hl', hplace'⟩ := h.place_of_mem hm'
  have hid : agent'.place.id = agent.place.id := congrArg AgentSnapshot.id hsnap
  have he := (h.coherent.entered c ctx a agent h.was hl _ _).2 ⟨hplace, rfl⟩
  have he' := (h.coherent.entered c ctx b agent' h.was hl' _ _).2 ⟨hplace', rfl⟩
  rw [hid] at he'
  exact ((h.coherent.sound c ctx h.was).unique he he').2

/-- The load goes through exactly if all members are where they were at every point. -/
theorem accepted_iff {since : List (World τ α)} (hv : v ∈ since)
    (hbetween : ∀ u ∈ since, u.Coherent ∧ Later c w u ∧ Later c u v) :
    (∀ m ∈ w.members ctx.registry, v.InPlace m) ↔ ∀ snap ∈ (w.snapshot ctx).agents, ∀ a,
      w.TakenFrom (w.snapshot ctx) snap a → ∀ u ∈ since, u.RegisteredAs (w.snapshot ctx) snap a := by
  constructor
  · intro hall snap _ a ha u hu
    obtain ⟨agent, hm, rfl⟩ := h.takenFrom_iff.1 ha
    obtain ⟨hcoh, hwu, huv⟩ := hbetween u hu
    exact (h.registeredAs_iff hm).2 (h.inPlace_between hcoh hwu huv hm (hall _ hm))
  · rintro hkept ⟨a, agent⟩ hm
    refine (h.registeredAs_iff hm).1 (hkept _ (List.mem_map_of_mem hm) a ?_ v hv)
    exact h.takenFrom_iff.2 ⟨agent, hm, rfl⟩

theorem goesBack {since : List (World τ α)}
    (ht : ∀ a agent agent', w.agent? a = some agent → v.agent? a = some agent' →
      Regains agent.task agent'.task)
    (hbetween : ∀ u ∈ since, u.Coherent ∧ Later c w u ∧ Later c u v) (hv : v ∈ since)
    (hfirst : ∃ u ∈ since, ∀ a, u.agent? a = w.agent? a) :
    GoesBack c (w.snapshot ctx) w v since := by
  have hregains : ∀ m ∈ w.members ctx.registry, ∀ agent, v.agent? m.1 = some agent →
      Regains m.2.task agent.task := fun m hm agent' ha' =>
    ht m.1 m.2 agent' (live?_eq_some.1 (mem_members.1 hm).2).1 ha'
  have hdecided := h.load_decided hregains
  have hok : (v.load c (w.snapshot ctx)).1 = .ok () ↔
      ∀ m ∈ w.members ctx.registry, v.InPlace m := by
    rcases hdecided with ⟨hall, x, hx, -⟩ | ⟨hnot, m, hm⟩
    · rw [hx]
      exact ⟨fun _ => hall, fun _ => rfl⟩
    · rw [hm]
      exact ⟨fun he => (by cases he), fun hall => absurd hall hnot⟩
  have hrestored : (v.load c (w.snapshot ctx)).1 = .ok () →
      Restored c ctx ctx' w v (v.load c (w.snapshot ctx)).2 := by
    intro hl
    rcases hdecided with ⟨-, x, hx, hr⟩ | ⟨hnot, -⟩
    · rw [hx]
      exact hr
    · exact absurd (hok.1 hl) hnot
  constructor
  case taken =>
    intro snap hsnap
    obtain ⟨⟨a, agent⟩, hm, rfl⟩ := List.mem_map.1 hsnap
    have ha := h.takenFrom_iff.2 ⟨agent, hm, rfl⟩
    exact ⟨a, ha, fun b hb => h.takenFrom_unique ha hb⟩
  case complete =>
    intro a ha
    obtain ⟨agent, hl⟩ : ∃ agent, w.live? a = some agent := by
      simp only [containsAgent, h.was] at ha
      cases hl : w.live? a with
      | none => rw [hl] at ha; cases ha
      | some agent => exact ⟨agent, rfl⟩
    have hplace := (h.coherent.holds_iff_place h.was hl).1 ((containsAgent_iff h.was hl).1 ha)
    have hm := mem_members.2 ⟨(h.coherent.mem_walkOrder_iff h.was hl).2 hplace, hl⟩
    exact ⟨_, List.mem_map_of_mem hm, h.takenFrom_iff.2 ⟨agent, hm, rfl⟩⟩
  case named =>
    intro name b
    rw [lookup_eq h.was]
    show ((w.bindings ctx.registry).mapValues _).get? name = some b ↔ _
    rw [SortedMap.get?_mapValues, Option.map_eq_some_iff]
    constructor
    · rintro ⟨a, hn, rfl⟩
      obtain ⟨agent, hm, -⟩ := h.bindings_valid hn
      have hl := (mem_members.1 hm).2
      exact ⟨a, agent, hn, hl, by rw [(live?_eq_some.1 hl).1]⟩
    · rintro ⟨a, agent, hn, hl, rfl⟩
      exact ⟨a, hn, by rw [(live?_eq_some.1 hl).1]⟩
  case accepted => exact hok.trans (h.accepted_iff hv hbetween)
  case refused =>
    intro hl
    rcases hdecided with ⟨hall, -⟩ | ⟨-, m, hm⟩
    · exact absurd (hok.2 hall) hl
    · exact ⟨m, by rw [hm]⟩
  case atOnce =>
    rintro rfl
    obtain ⟨u, hu, hagents⟩ := hfirst
    obtain rfl := List.mem_singleton.1 hu
    refine hok.2 fun m hm => ⟨m.2, ?_, rfl⟩
    rw [live?_congr (hagents m.1)]
    exact (mem_members.1 hm).2
  case given =>
    intro hl snap _ a ha
    obtain ⟨agent, hm, rfl⟩ := h.takenFrom_iff.1 ha
    exact (hrestored hl).given (a, agent) hm
  case untouched =>
    intro hl a hnot
    refine (hrestored hl).untouched a fun hmem => ?_
    obtain ⟨⟨b, agent⟩, hm, rfl⟩ := List.mem_map.1 hmem
    exact hnot _ (List.mem_map_of_mem hm) (h.takenFrom_iff.2 ⟨agent, hm, rfl⟩)
  case names =>
    intro hl x hx name
    have hr := hrestored hl
    have hbindings := h.bindings_restored hr (hok.1 hl) hregains
    obtain rfl := Option.some.inj (hr.context.symm.trans hx)
    rw [lookup_eq hr.context, lookup_eq h.was, hbindings]
    exact ⟨rfl, rfl⟩
  case resaved =>
    intro hl
    have hr := hrestored hl
    obtain ⟨hnamed, hsnaps⟩ := h.snapshot_restored hr (hok.1 hl) hregains
    exact ⟨_, _, save_atRest hr.atRest hr.context, hnamed, rfl, rfl, rfl, rfl, hsnaps⟩

end Since

/-- In every run, a snapshot goes back into the agents it was taken from, and into no others. -/
theorem snapshot_goes_back (h : Host α) (before after : List (Deed τ α)) (c : ContextRef)
    {w w' v : World τ α} {s : Snapshot} (hw : run before { host := h } = w)
    (hs : w.save c = (.ok s, w')) (hv : run after w' = v)
    (hd : ∀ u ∈ points (before ++ .on c .save :: after) ({ host := h } : World τ α), u.DistinctIds)
    (hc : w.context? c ≠ none) (hc' : v.context? c ≠ none)
    (ht : ∀ a agent agent', w.agent? a = some agent → v.agent? a = some agent' →
      Regains agent.task agent'.task) : GoesBack c s w v (points after w') := by
  obtain ⟨ctx, hctx⟩ := Option.ne_none_iff_exists'.1 hc
  obtain ⟨ctx', hctx'⟩ := Option.ne_none_iff_exists'.1 hc'
  have hrest : w.AtRest := hw ▸ atRest_run before (atRest_empty h)
  have hsave := save_atRest hrest hctx
  rw [hs] at hsave
  obtain ⟨hsnap, hw'⟩ := Prod.mk.inj hsave
  obtain rfl := Except.ok.inj hsnap
  have hstep : w.perform (.on c .save) = w' := congrArg Prod.snd hs
  have hrun : run (.on c .save :: after) w = v := by rw [run_cons, hstep, hv]
  have hpoints : points (.on c .save :: after) w = w :: points after w' := by
    rw [points, hstep]
    rfl
  subst hw
  have hdistinct : ∀ u ∈ points (.on c .save :: after) (run before { host := h }),
      u.DistinctIds := fun u hu => hd u (mem_points_append_right before hu)
  have hdbefore : ∀ u ∈ points before ({ host := h } : World τ α), u.DistinctIds := fun u hu =>
    hd u (mem_points_append_left _ hu)
  have hcoherent := coherent_points h before hdbefore _ (run_mem_points before _)
  have hsize : c.index < (run before ({ host := h } : World τ α)).contexts.size := by
    refine Nat.lt_of_not_le fun hle => ?_
    rw [context?_eq_none_of_size hle] at hctx
    cases hctx
  have hlater := later_points (.on c .save :: after) hdistinct hcoherent hsize
  rw [hrun, hpoints] at hlater
  have hbetween := (List.forall_mem_cons.1 hlater).2
  have hend : v ∈ points after w' := hv ▸ run_mem_points after w'
  have hsince : Since c ctx ctx' (run before { host := h }) v :=
    { was := hctx
      still := hctx'
      coherent := hcoherent
      coherentNow := (hbetween v hend).1
      rest := hrest
      restNow := hrun ▸ atRest_run _ hrest
      bound := bound_points h before hdbefore _ (run_mem_points before _)
      declared := declared_run h before ctx hctx
      later := (hbetween v hend).2.1 }
  exact hsince.goesBack ht hbetween hend ⟨w', mem_points_self after w', fun a => hw' ▸ rfl⟩

section Sample

/-- Two agents of a context, one of them with a name. -/
def savedDeeds : List (Deed Routine Unit) :=
  [.newContext ⟨1⟩ sampleTypes 10, .create ⟨"stays", "Worker", 0, ⟨[]⟩⟩,
    .create ⟨"returns", "Worker", 0, ⟨[]⟩⟩, .on ⟨0⟩ (.task (.add ⟨0⟩)),
    .on ⟨0⟩ (.task (.add ⟨1⟩)), .on ⟨0⟩ (.task (.bind "Hand" ⟨0⟩))]

/-- The name goes, and one agent leaves and comes back. -/
def laterDeeds : List (Deed Routine Unit) :=
  [.on ⟨0⟩ (.task (.unbind "Hand")), .on ⟨0⟩ .tick, .on ⟨0⟩ (.task (.remove ⟨1⟩)),
    .on ⟨0⟩ (.task (.add ⟨1⟩))]

theorem snapshot_goes_back_sample : ∃ (s : Snapshot) (w' : World Routine Unit),
    (run savedDeeds { host := { app := () } }).save ⟨0⟩ = (.ok s, w') ∧
      GoesBack ⟨0⟩ s (run savedDeeds { host := { app := () } }) (run laterDeeds w')
        (points laterDeeds w') := by
  have hids : ∀ u ∈ points (savedDeeds ++ .on ⟨0⟩ .save :: laterDeeds)
      ({ host := { app := () } } : World Routine Unit),
      u.contextIds.Nodup ∧ .invalid ∉ u.contextIds := by decide +kernel
  refine ⟨_, _, rfl, snapshot_goes_back { app := () } savedDeeds laterDeeds ⟨0⟩ rfl rfl rfl
    (fun u hu => .of_contextIds (hids u hu)) ?_ ?_ fun _ _ _ _ _ => ⟨rfl, rfl⟩⟩
  · exact Option.isSome_iff_ne_none.1 rfl
  · exact Option.isSome_iff_ne_none.1 rfl

end Sample

end World

end AgentScheduler
