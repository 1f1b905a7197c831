/-
What a load accepts and what it leaves. A snapshot may say anything: it may list
an agent many times or one that is not here. It matches a context if all that it
refers to is found there (`Matches`), and that is decided before anything changes.

Then the states are given to the tasks one after the other. So whether a state is
accepted depends on those that the same task was given before, and on no others
(`TasksAccept`); if all are, each task is what its own states made of it
(`Loaded`).
-/
import AgentScheduler.Proofs.Restoring
import AgentScheduler.Proofs.StaticSteps

namespace AgentScheduler

namespace Registry

variable {r : Registry} {l : List AgentSnapshot} {id : AgentId} {a : AgentRef}

/-- The states listed for the agent, in the order of the list. -/
def statesFor (r : Registry) (a : AgentRef) (l : List AgentSnapshot) : List Json :=
  (l.filter fun snap => decide (r.agent? snap.id = some a)).map (·.state)

theorem statesFor_append {l l' : List AgentSnapshot} :
    r.statesFor a (l ++ l') = r.statesFor a l ++ r.statesFor a l' := by
  rw [statesFor, List.filter_append, List.map_append, statesFor, statesFor]

theorem statesFor_eq_nil (h : ∀ snap ∈ l, r.agent? snap.id ≠ some a) : r.statesFor a l = [] := by
  rw [statesFor, List.map_eq_nil_iff, List.filter_eq_nil_iff]
  exact fun snap hs => by simpa using h snap hs

/-- The agent registered under an id that is in use. -/
def seat (r : Registry) (id : AgentId) : AgentRef := (r.agent? id).getD default

theorem agent?_eq_seat (h : r.agent? id = some a) : r.seat id = a := by rw [seat, h]; rfl

/-- The listed states, each with the agent that it is for. -/
def targets (r : Registry) (l : List AgentSnapshot) : List (AgentRef × Json) :=
  l.map fun snap => (r.seat snap.id, snap.state)

theorem length_targets : (r.targets l).length = l.length := List.length_map _

theorem targets_split {before after : List (AgentRef × Json)} {t : AgentRef × Json}
    (h : r.targets l = before ++ t :: after) : ∃ before' snap after',
      l = before' ++ snap :: after' ∧ before = r.targets before' ∧
        t = (r.seat snap.id, snap.state) := by
  obtain ⟨before', rest, hl, rfl, hrest⟩ := List.map_eq_append_iff.1 h
  obtain ⟨snap, after', rfl, rfl, -⟩ := List.map_eq_cons_iff.1 hrest
  exact ⟨before', snap, after', hl, rfl, rfl⟩

end Registry

/-! ## Snapshots that match -/

namespace World

variable {τ α : Type} {w v : World τ α} {a : AgentRef} {ctx : Context} {s : Snapshot}
  {id : AgentId} {cls : String}

/-- All that the snapshot refers to is found in the context. -/
structure Matches (w : World τ α) (ctx : Context) (s : Snapshot) : Prop where
  source : s.context = .invalid ∨ s.context = ctx.id
  classes : ∀ cls, s.baselines.contains cls = true ∨ s.values.contains cls = true →
    ctx.types.contains cls = true
  named : ∀ name b, s.named.get? name = some b → (∃ a, w.Resolves ctx b.agent b.cls a) ∧
    ctx.types.isValidInstanceName name b.cls = true
  agents : ∀ snap ∈ s.agents, ∃ a, w.Resolves ctx snap.id snap.cls a

theorem resolve_seat (h : ∃ a, w.Resolves ctx id cls a) :
    w.resolve ctx id cls = .ok (ctx.registry.seat id) := by
  obtain ⟨a, ha⟩ := h
  rw [Registry.agent?_eq_seat ha.1]
  exact resolve_eq_ok_iff.2 ha

/-- A snapshot that matches is found. -/
theorem Matches.resolveAll (h : w.Matches ctx s) : w.resolveAll ctx s =
    .ok (s.named.mapValues fun _ b => ctx.registry.seat b.agent,
      ctx.registry.targets s.agents) := by
  have hsource : (s.context.isValid && s.context != ctx.id) = false := by
    rcases h.source with he | he <;> simp [ContextId.isValid, he]
  have hclasses : (s.baselines.keys ++ s.values.keys).find?
      (fun cls => !ctx.types.contains cls) = none := by
    rw [List.find?_eq_none]
    intro cls hcls
    rw [List.mem_append, SortedMap.mem_keys, SortedMap.mem_keys] at hcls
    rw [h.classes cls hcls]
    decide
  have hnamed : s.named.toList.mapM (fun e => do
      return (e.1, ← w.resolveBinding ctx e.1 e.2)) =
      .ok (s.named.mapValues fun _ b => ctx.registry.seat b.agent).toList := by
    refine mapM_eq_ok fun e he => ?_
    obtain ⟨hb, hvalid⟩ := h.named e.1 e.2 (SortedMap.get?_eq_some_iff.2 he)
    simp only [resolveBinding, resolve_seat hb, hvalid]
    rfl
  have htargets : s.agents.mapM (fun snap => do
      return (← w.resolve ctx snap.id snap.cls, snap.state)) =
      .ok (ctx.registry.targets s.agents) := by
    refine mapM_eq_ok fun snap hs => ?_
    simp only [resolve_seat (h.agents snap hs)]
    rfl
  simp only [World.resolveAll, hsource, Bool.false_eq_true, if_false, hclasses]
  rw [hnamed, htargets]
  show Except.ok (SortedMap.ofList _, _) = _
  rw [SortedMap.ofList_toList]

/-- A snapshot that is found matches. -/
theorem matches_of_resolveAll {found : SortedMap String AgentRef × List (AgentRef × Json)}
    (h : w.resolveAll ctx s = .ok found) : w.Matches ctx s := by
  have hdeclared := resolveAll_declared h
  unfold resolveAll at h
  dsimp only at h
  split at h
  · cases h
  next hsource =>
  split at h
  · cases h
  obtain ⟨bound, hbound, h⟩ := bind_ok.1 h
  obtain ⟨targets, htargets, -⟩ := bind_ok.1 h
  constructor
  case source =>
    by_cases hvalid : s.context = .invalid
    · exact .inl hvalid
    · refine .inr ?_
      simpa [ContextId.isValid, hvalid] using hsource
  case classes =>
    intro cls hcls
    refine hdeclared cls ?_
    rw [List.mem_append, SortedMap.mem_keys, SortedMap.mem_keys]
    exact hcls
  case named =>
    intro name b hb
    obtain ⟨e, he⟩ := ok_of_mapM_ok hbound (name, b) (SortedMap.get?_eq_some_iff.1 hb)
    obtain ⟨a, ha, -⟩ := bind_ok.1 he
    unfold resolveBinding at ha
    obtain ⟨a', hr, ha⟩ := bind_ok.1 ha
    split at ha
    · next hvalid => exact ⟨⟨a', resolve_eq_ok_iff.1 hr⟩, hvalid⟩
    · cases ha
  case agents =>
    intro snap hs
    obtain ⟨t, ht⟩ := ok_of_mapM_ok htargets snap hs
    obtain ⟨a, ha, -⟩ := bind_ok.1 ht
    exact ⟨a, resolve_eq_ok_iff.1 ha⟩

/-! ## Loads of contexts -/

variable [Behavior τ α] {c : ContextRef}

/-- Each listed state is accepted by its agent's task, once the task was given those listed before
for the same agent, and the task does not run. -/
def TasksAccept (w : World τ α) (r : Registry) (l : List AgentSnapshot) : Prop :=
  ∀ before snap after a agent, l = before ++ snap :: after → r.agent? snap.id = some a →
    w.live? a = some agent → agent.running = false ∧
      (Behavior.load snap.state (afterLoads agent.task (r.statesFor a before))).1 = .ok ()

omit [Behavior τ α] in
/-- When all agents of a list are found, its states reach those that they are listed for. -/
theorem Matches.statesOf_targets (h : w.Matches ctx s) {l : List AgentSnapshot}
    (hsub : l ⊆ s.agents) (a : AgentRef) :
    statesOf a (ctx.registry.targets l) = ctx.registry.statesFor a l := by
  rw [statesOf, Registry.targets, Registry.statesFor, List.filter_map, List.map_map]
  refine congrArg (List.map _) (List.filter_congr fun snap hs => ?_)
  obtain ⟨b, hb, -⟩ := h.agents snap (hsub hs)
  simp [Registry.agent?_eq_seat hb, hb]

/-- Giving the states goes through exactly if the tasks accept them. -/
theorem Matches.tasksAccept_iff (h : w.Matches ctx s) :
    w.TasksAccept ctx.registry s.agents ↔ ∀ before t after,
      ctx.registry.targets s.agents = before ++ t :: after →
      ((w.give before).loadTask t.1 t.2).1 = .ok () := by
  constructor
  · intro haccept before t after hsplit
    obtain ⟨before', snap, after', hl, rfl, rfl⟩ := Registry.targets_split hsplit
    obtain ⟨a, ha, agent, hlive, -⟩ := h.agents snap (by simp [hl])
    rw [Registry.agent?_eq_seat ha, loadTask_give hlive, h.statesOf_targets (by simp [hl])]
    exact haccept before' snap after' a agent hl ha hlive
  · intro hgive before snap after a agent hl ha hlive
    have hload := hgive (ctx.registry.targets before) (ctx.registry.seat snap.id, snap.state)
      (ctx.registry.targets after) (by simp [Registry.targets, hl])
    rw [Registry.agent?_eq_seat ha, loadTask_give hlive,
      h.statesOf_targets (by simp [hl])] at hload
    exact hload

end World

/-- The second context is the first one with the names, the static variables, the frames and the
elapsed time of the snapshot. -/
structure Context.LoadedFrom (s : Snapshot) (ctx ctx' : Context) : Prop where
  names : ∀ name, ctx'.registry.named.get? name =
    (s.named.get? name).bind fun b => ctx.registry.agent? b.agent
  registry : ctx'.registry = { ctx.registry with named := ctx'.registry.named }
  statics : ctx'.statics = { live := s.values, baselines := s.baselines }
  clock : ctx'.clock = { ctx.clock with
    frames := s.clock.frames
    elapsedMillis := s.clock.elapsedMillis }
  rest : ctx' = { ctx with
    registry := ctx'.registry
    statics := ctx'.statics
    clock := ctx'.clock }

namespace World

variable {τ α : Type} [Behavior τ α] {w v : World τ α} {a : AgentRef} {ctx : Context}
  {s : Snapshot} {c : ContextRef}

/-- What a load leaves that went through. -/
structure Loaded (c : ContextRef) (ctx : Context) (s : Snapshot) (w v : World τ α) : Prop where
  context : ∃ ctx', v.context? c = some ctx' ∧ ctx.LoadedFrom s ctx'
  others : ∀ c', c' ≠ c → v.context? c' = w.context? c'
  /-- Each task is given its own states, and nothing else changes of an agent. -/
  agents : ∀ a, v.agent? a = (w.agent? a).map fun agent =>
    { agent with task := afterLoads agent.task (ctx.registry.statesFor a s.agents) }
  lastCounts : ∀ before snap after a, s.agents = before ++ snap :: after →
    ctx.registry.agent? snap.id = some a →
    (∀ other ∈ after, ctx.registry.agent? other.id ≠ some a) →
    v.agent? a = (w.agent? a).map fun agent => { agent with task :=
      (Behavior.load snap.state
        (afterLoads agent.task (ctx.registry.statesFor a before))).2 }
  unlisted : ∀ a, (∀ snap ∈ s.agents, ctx.registry.agent? snap.id ≠ some a) →
    v.agent? a = w.agent? a
  host : v.host = w.host.report (.contextLoaded ctx.id s.agents.length)

/-- What a load of a snapshot into a context between ticks does. -/
structure Loads (c : ContextRef) (ctx : Context) (s : Snapshot) (w : World τ α) : Prop where
  accepted : (w.load c s).1 = .ok () ↔ w.Matches ctx s ∧ w.TasksAccept ctx.registry s.agents
  /-- No task is given a state: whatever tasks do with states, the outcome is the same. -/
  mismatched : ¬w.Matches ctx s → ∃ m, ∀ tasks : Behavior τ α,
    @load τ α tasks w c s = (.error (.structuralMismatch m), w)
  rejected : w.Matches ctx s → ¬w.TasksAccept ctx.registry s.agents →
    ∃ e, (w.load c s).1 = .error (.agent e)
  loaded : (w.load c s).1 = .ok () → Loaded c ctx s w (w.load c s).2

/-- The agents after their tasks accepted their states. -/
theorem Matches.agents_give (h : w.Matches ctx s) (haccept : w.TasksAccept ctx.registry s.agents)
    (a : AgentRef) :
    (w.give (ctx.registry.targets s.agents)).agent? a =
      (w.agent? a).map fun agent =>
        { agent with task := afterLoads agent.task (ctx.registry.statesFor a s.agents) } := by
  rw [agent?_give, h.statesOf_targets (List.Subset.refl _)]
  refine Option.map_congr fun agent ha => ?_
  by_cases hlisted : ∃ snap ∈ s.agents, ctx.registry.agent? snap.id = some a
  · obtain ⟨snap, hs, hsnap⟩ := hlisted
    -- a listed agent lives and its task does not run, so every state reached it
    obtain ⟨before, after, hl⟩ := List.append_of_mem hs
    obtain ⟨b, hb, agent', hlive, -⟩ := h.agents snap hs
    obtain rfl := Option.some.inj (hsnap.symm.trans hb)
    obtain ⟨ha', halive⟩ := live?_eq_some.1 hlive
    obtain rfl := Option.some.inj (ha.symm.trans ha')
    have hidle := (haccept before snap after a agent hl hsnap hlive).1
    rw [Agent.given, if_pos ⟨halive, hidle⟩]
  · rw [Registry.statesFor_eq_nil fun snap hs hsnap => hlisted ⟨snap, hs, hsnap⟩, Agent.given_nil]
    rfl

section Load

variable (hc : w.context? c = some ctx) (hidle : ctx.executing = false)

include hc hidle

omit [Behavior τ α] in
theorem load_mismatched (h : ¬w.Matches ctx s) : ∃ m, ∀ tasks : Behavior τ α,
    @load τ α tasks w c s = (.error (.structuralMismatch m), w) := by
  cases hr : w.resolveAll ctx s with
  | ok found => exact absurd (matches_of_resolveAll hr) h
  | error m =>
    refine ⟨m, fun _ => ?_⟩
    simp only [load, hc, Context.ensureIdle, hidle, Bool.false_eq_true, if_false, pure, Except.pure,
      hr]

theorem load_rejected (h : w.Matches ctx s) (hreject : ¬w.TasksAccept ctx.registry s.agents) :
    ∃ e, (w.load c s).1 = .error (.agent e) := by
  rcases restore_cases (ctx.registry.targets s.agents) [] w with ⟨-, hall⟩ | ⟨⟨e, herr⟩, -⟩
  · exact absurd (h.tasksAccept_iff.2 hall) hreject
  · refine ⟨e, ?_⟩
    simp only [load, hc, Context.ensureIdle, hidle, Bool.false_eq_true, if_false, pure, Except.pure,
      h.resolveAll]
    generalize restore _ [] w = restored at herr ⊢
    obtain ⟨result, v⟩ := restored
    cases herr
    rfl

theorem load_accepted (h : w.Matches ctx s) (haccept : w.TasksAccept ctx.registry s.agents) :
    w.load c s = (.ok (),
      ((w.give (ctx.registry.targets s.agents)).modifyContext c
        (.reloaded s (s.named.mapValues fun _ b => ctx.registry.seat b.agent))).report
        (.contextLoaded ctx.id s.agents.length)) := by
  rcases restore_cases (ctx.registry.targets s.agents) [] w with
    ⟨hok, -⟩ | ⟨-, before, t, after, hsplit, hrefused⟩
  · simp only [load, hc, Context.ensureIdle, hidle, Bool.false_eq_true, if_false, pure, Except.pure,
      h.resolveAll, hok, Registry.length_targets]
    rfl
  · exact absurd (h.tasksAccept_iff.1 haccept before t after hsplit) hrefused

theorem loaded_of_accepted (h : w.Matches ctx s) (haccept : w.TasksAccept ctx.registry s.agents) :
    Loaded c ctx s w (w.load c s).2 := by
  rw [load_accepted hc hidle h haccept]
  have hagents := h.agents_give haccept
  have hloads := give_onlyLoads (w := w) (ctx.registry.targets s.agents)
  generalize w.give _ = x at hagents hloads ⊢
  constructor
  case context =>
    have hx : x.context? c = some ctx := (hloads.contexts c).trans hc
    refine ⟨_, context?_modifyContext_self hx _, ?_⟩
    refine ⟨fun name => ?_, rfl, rfl, rfl, rfl⟩
    show (s.named.mapValues _).get? name = _
    rw [SortedMap.get?_mapValues]
    cases hb : s.named.get? name with
    | none => rfl
    | some b =>
      obtain ⟨⟨a, ha, -⟩, -⟩ := h.named name b hb
      simp [Registry.agent?_eq_seat ha, ha]
  case others =>
    intro c' hne
    exact (context?_modifyContext_ne hne _).trans (hloads.contexts c')
  case agents => exact hagents
  case lastCounts =>
    intro before snap after a hl ha hlast
    refine (hagents a).trans ?_
    have hstates : ctx.registry.statesFor a s.agents =
        ctx.registry.statesFor a before ++ [snap.state] := by
      rw [hl, List.append_cons, Registry.statesFor_append, Registry.statesFor_append,
        Registry.statesFor_eq_nil hlast, List.append_nil]
      simp [Registry.statesFor, ha]
    rw [hstates]
    simp only [afterLoads, List.foldl_append, List.foldl_cons, List.foldl_nil]
  case unlisted =>
    intro a hnone
    refine (hagents a).trans ?_
    rw [Registry.statesFor_eq_nil hnone]
    exact Option.map_id'
  case host =>
    exact congrArg (fun host => Host.report host (.contextLoaded ctx.id s.agents.length)) hloads.host

theorem load_ok_iff :
    (w.load c s).1 = .ok () ↔ w.Matches ctx s ∧ w.TasksAccept ctx.registry s.agents := by
  constructor
  · intro hok
    by_cases h : w.Matches ctx s
    · refine ⟨h, Classical.byContradiction fun hreject => ?_⟩
      obtain ⟨e, he⟩ := load_rejected hc hidle h hreject
      cases hok.symm.trans he
    · obtain ⟨m, hm⟩ := load_mismatched hc hidle h
      rw [hm _] at hok
      cases hok
  · rintro ⟨h, haccept⟩
    rw [load_accepted hc hidle h haccept]

end Load

/-- A load into a context between ticks goes through exactly if the snapshot matches and the tasks
accept their states in the order of the list. Then the context is as in the snapshot, and nothing
else changed. -/
theorem load_exact (hc : w.context? c = some ctx) (hidle : ctx.executing = false) (s : Snapshot) :
    Loads c ctx s w where
  accepted := load_ok_iff hc hidle
  mismatched := load_mismatched hc hidle
  rejected := load_rejected hc hidle
  loaded hok := by
    obtain ⟨h, haccept⟩ := (load_ok_iff hc hidle).1 hok
    exact loaded_of_accepted hc hidle h haccept

section Sample

/-- A class with an instance name. -/
def chiefTypes : Hierarchy where
  classes := .ofList [("Minion", ⟨none, .empty⟩)]
  instanceNames := .ofList [("Chief", "Minion")]

/-- Two minions in an arena. -/
def guardedArena : World (Arena.Task Arena.Generator) Arena.Keep :=
  run [.newContext ⟨1⟩ chiefTypes 100,
    .create ⟨"first", "Minion", 1, .minion ⟨3⟩⟩, .create ⟨"second", "Minion", 1, .minion ⟨5⟩⟩,
    .on ⟨0⟩ (.task (.add ⟨0⟩)), .on ⟨0⟩ (.task (.add ⟨1⟩))] { host := { app := {} } }

/-- A name for the second minion, and states for both, two of them for the first. -/
def chiefStates : Snapshot where
  clock := { frames := 7, elapsedMillis := 900, stepMillis := 5 }
  named := .ofList [("Chief", ⟨⟨2⟩, "Minion"⟩)]
  agents := [⟨⟨1⟩, "Minion", 1, .obj [("hp", .int 1)]⟩, ⟨⟨2⟩, "Minion", 1, .obj [("hp", .int 4)]⟩,
    ⟨⟨1⟩, "Minion", 1, .obj [("hp", .int 2)]⟩]

theorem load_exact_sample : ∃ ctx, guardedArena.context? ⟨0⟩ = some ctx ∧ ctx.executing = false ∧
    (guardedArena.load ⟨0⟩ chiefStates).1 = .ok () ∧
    Loads ⟨0⟩ ctx chiefStates guardedArena := by
  refine ⟨_, rfl, rfl, by rfl, load_exact rfl rfl chiefStates⟩

end Sample

end World

end AgentScheduler
