/-
Saving a context at rest and giving states back. At rest a save always goes
through and says what `World.snapshot` says. Ids find agents by their places
(`Coherent.resolve_iff`). States are given to one task after the other, so what
becomes of a task depends on its own states only (`agent?_give`); the first
refusal ends it (`restore_cases`).
-/
import AgentScheduler.Proofs.Bindings
import AgentScheduler.Proofs.Rest
import AgentScheduler.Proofs.Rollback

namespace AgentScheduler

namespace SortedMap

variable {κ ν : Type} [Ord κ] [Std.TransOrd κ]

/-- An entry under a key beyond all others comes last. -/
theorem insertEntry_last {k : κ} {v : ν} {l : List (κ × ν)} (h : ∀ e ∈ l, compare e.1 k = .lt) :
    insertEntry k v l = l ++ [(k, v)] := by
  induction l with
  | nil => rfl
  | cons e l ih =>
    have hgt : compare k e.1 = .gt := Std.OrientedCmp.gt_of_lt (h e List.mem_cons_self)
    simp only [insertEntry, hgt, List.cons_append]
    rw [ih fun e he => h e (List.mem_cons_of_mem _ he)]

/-- The map of the entries of a map is the map. -/
theorem ofList_toList (m : SortedMap κ ν) : ofList m.toList = m := by
  have key (l : List (κ × ν)) (m : SortedMap κ ν) (h : Ascending (m.toList ++ l)) :
      (l.foldl (fun m e => m.insert e.1 e.2) m).toList = m.toList ++ l := by
    induction l generalizing m with
    | nil => rw [List.append_nil]; rfl
    | cons e l ih =>
      have hinsert : (m.insert e.1 e.2).toList = m.toList ++ [e] :=
        insertEntry_last fun d hd => (List.pairwise_append.1 h).2.2 d hd e List.mem_cons_self
      have happend : m.toList ++ e :: l = (m.insert e.1 e.2).toList ++ l := by
        rw [hinsert, List.append_assoc, List.singleton_append]
      rw [happend] at h ⊢
      exact ih _ h
  exact ext_toList (key m.toList empty m.ascending)

end SortedMap

/-! ## Lists of computations -/

section Lists

variable {ε β γ : Type} {f : β → Except ε γ}

theorem mapM_eq_ok {g : β → γ} {l : List β} (hf : ∀ x ∈ l, f x = .ok (g x)) :
    l.mapM f = .ok (l.map g) := by
  induction l with
  | nil => rfl
  | cons x l ih =>
    rw [List.mapM_cons, hf x List.mem_cons_self, ih fun y hy => hf y (List.mem_cons_of_mem _ hy)]
    rfl

/-- When all computations of a list succeed, each one does. -/
theorem ok_of_mapM_ok {l : List β} {ys : List γ} (h : l.mapM f = .ok ys) :
    ∀ x ∈ l, ∃ y, f x = .ok y := by
  induction l generalizing ys with
  | nil => exact fun x hx => by cases hx
  | cons x l ih =>
    rw [List.mapM_cons] at h
    obtain ⟨y, hx, h⟩ := World.bind_ok.1 h
    obtain ⟨zs, hl, -⟩ := World.bind_ok.1 h
    exact List.forall_mem_cons.2 ⟨⟨y, hx⟩, ih hl⟩

end Lists

section Tasks

variable {τ α : Type} [Behavior τ α]

/-- The task after it was given states, one after the other. -/
def afterLoads (t : τ) (states : List Json) : τ :=
  states.foldl (fun t state => (Behavior.load state t).2) t

/-- The agent after its task was given states, if the task can be reached. -/
def Agent.given (agent : Agent τ) (states : List Json) : Agent τ :=
  if agent.alive = true ∧ agent.running = false then
    { agent with task := afterLoads agent.task states } else agent

theorem Agent.given_nil (agent : Agent τ) : agent.given [] = agent := by
  unfold given
  split <;> rfl

theorem Agent.given_cons (agent : Agent τ) (state : Json) (states : List Json) :
    (agent.given [state]).given states = agent.given (state :: states) := by
  unfold given
  by_cases hr : agent.alive = true ∧ agent.running = false
  · have hr' : Agent.alive { agent with task := afterLoads agent.task [state] } = true ∧
        agent.running = false := hr
    rw [if_pos hr, if_pos hr', if_pos hr]
    rfl
  · rw [if_neg hr, if_neg hr, if_neg hr]

end Tasks

/-- What a snapshot says of an agent whose task does not run. -/
def Agent.snapshot {τ α : Type} [Behavior τ α] (agent : Agent τ) : AgentSnapshot :=
  ⟨agent.place.id, agent.cls, agent.priority, Behavior.save agent.task⟩

namespace World

variable {τ α : Type} {w v : World τ α} {c : ContextRef} {a b : AgentRef} {ctx : Context}
  {agent : Agent τ} {r : Registry}

/-! ## The members of a context -/

/-- The living agents of a registry, in the order in which a tick visits them. -/
def members (w : World τ α) (r : Registry) : List (AgentRef × Agent τ) :=
  r.walkOrder.filterMap fun a => (w.live? a).map (a, ·)

theorem mem_members : (a, agent) ∈ w.members r ↔ a ∈ r.walkOrder ∧ w.live? a = some agent := by
  simp only [members, List.mem_filterMap, Option.map_eq_some_iff, Prod.mk.injEq]
  constructor
  · rintro ⟨b, hb, x, hx, rfl, rfl⟩
    exact ⟨hb, hx⟩
  · rintro ⟨ha, hl⟩
    exact ⟨a, ha, agent, hl, rfl, rfl⟩

namespace Coherent

theorem mem_walkOrder_iff (h : w.Coherent) (hc : w.context? c = some ctx)
    (hl : w.live? a = some agent) :
    a ∈ ctx.registry.walkOrder ↔ agent.place.context = ctx.id := by
  rw [Registry.mem_walkOrder, ← h.holds_iff hc hl, h.holds_iff_place hc hl]

/-- No living agent is visited twice. -/
theorem members_nodup (h : w.Coherent) (hc : w.context? c = some ctx) :
    ((w.members ctx.registry).map (·.1)).Nodup := by
  rw [members, Registry.walkOrder, List.filterMap_map, List.nodup_iff_pairwise_ne,
    List.pairwise_map, List.pairwise_filterMap]
  refine Registry.entries_pairwise.imp_of_mem ?_
  rintro ⟨p, i, a⟩ ⟨q, j, b⟩ he he' hbefore m hm m' hm' heq
  obtain ⟨agent, hl, rfl⟩ := Option.map_eq_some_iff.1 hm
  obtain ⟨agent', hl', rfl⟩ := Option.map_eq_some_iff.1 hm'
  obtain rfl : a = b := heq
  obtain ⟨hplace, hprio⟩ := (h.entered c ctx a agent hc hl p i).1 he
  obtain ⟨hplace', hprio'⟩ := (h.entered c ctx a agent hc hl q j).1 he'
  obtain rfl : i = j := congrArg Registration.id (hplace.symm.trans hplace')
  obtain rfl : p = q := hprio.symm.trans hprio'
  rcases hbefore with hlt | ⟨-, hlt⟩
  · exact Int32.lt_irrefl hlt
  · exact UInt32.lt_irrefl _ hlt

theorem containsAgent_iff (h : w.Coherent) (hc : w.context? c = some ctx) :
    w.containsAgent c a = true ↔ w.alive a = true ∧ a ∈ ctx.registry.walkOrder := by
  cases hl : w.live? a with
  | none => simp [containsAgent, alive, hc, hl]
  | some agent =>
    rw [World.containsAgent_iff hc hl, h.holds_iff hc hl, Registry.mem_walkOrder]
    exact (and_iff_right (alive_of_live? hl)).symm

/-- No agent is registered in two contexts. -/
theorem containsAgent_unique (h : w.Coherent) (hd : w.DistinctIds) {c' : ContextRef}
    (ha : w.containsAgent c a = true) (ha' : w.containsAgent c' a = true) : c' = c := by
  have home {c : ContextRef} (ha : w.containsAgent c a = true) : ∃ ctx agent,
      w.context? c = some ctx ∧ w.live? a = some agent ∧ agent.place.context = ctx.id := by
    cases hc : w.context? c with
    | none => simp [containsAgent, hc] at ha
    | some ctx =>
      cases hl : w.live? a with
      | none => simp [containsAgent, hl] at ha
      | some agent =>
        rw [World.containsAgent_iff hc hl, h.holds_iff_place hc hl] at ha
        exact ⟨ctx, agent, rfl, rfl, ha⟩
  obtain ⟨ctx, agent, hc, hl, hp⟩ := home ha
  obtain ⟨ctx', agent', hc', hl', hp'⟩ := home ha'
  obtain rfl := Option.some.inj (hl.symm.trans hl')
  exact hd.unique c c' ctx ctx' hc hc' (hp.symm.trans hp')

theorem handles_nodup (h : w.Coherent) (hc : w.context? c = some ctx) :
    (w.handles ctx.registry).Nodup := by
  have hhandles (l : List AgentRef) :
      (l.filterMap fun a => (w.live? a).map (a, ·)).map (·.1) = l.filter w.alive := by
    induction l with
    | nil => rfl
    | cons a l ih =>
      cases hl : w.live? a with
      | none => simpa [hl, alive] using ih
      | some agent => simpa [hl, alive] using ih
  rw [handles, ← hhandles]
  exact h.members_nodup hc

/-- An id finds the living agent that has it as its place. -/
theorem resolve_iff (h : w.Coherent) (hc : w.context? c = some ctx) {id : AgentId} {cls : String} :
    w.resolve ctx id cls = .ok a ↔
      ∃ agent, w.live? a = some agent ∧ agent.place = ⟨ctx.id, id⟩ ∧ agent.cls = cls := by
  rw [resolve_eq_ok_iff, Resolves, (h.sound c ctx hc).agent?_eq_some_iff]
  constructor
  · rintro ⟨⟨p, he⟩, agent, hl, hcls⟩
    exact ⟨agent, hl, ((h.entered c ctx a agent hc hl p id).1 he).1, hcls⟩
  · rintro ⟨agent, hl, hplace, hcls⟩
    exact ⟨⟨agent.priority, (h.entered c ctx a agent hc hl agent.priority id).2 ⟨hplace, rfl⟩⟩,
      agent, hl, hcls⟩

end Coherent

/-! ## Saving -/

variable [Behavior τ α]

/-- The living agents of a registry are saved if none of their tasks runs. -/
theorem saveAgents_members
    (h : ∀ a ∈ r.walkOrder, ∀ agent, w.live? a = some agent → agent.running = false) :
    w.saveAgents (w.handles r) = .ok ((w.members r).map (·.2.snapshot)) := by
  rw [handles, members]
  generalize r.walkOrder = l at h
  induction l with
  | nil => rfl
  | cons a l ih =>
    obtain ⟨hfirst, hrest⟩ := List.forall_mem_cons.1 h
    cases hl : w.live? a with
    | none =>
      have hdead : w.alive a = false := by rw [alive, hl]; rfl
      rw [List.filter_cons, List.filterMap_cons, hdead, hl]
      exact ih hrest
    | some agent =>
      have halive : w.alive a = true := alive_of_live? hl
      have hsave : w.saveTask a = .ok (Behavior.save agent.task) := by
        simp only [saveTask, hl, hfirst agent hl, Bool.false_eq_true, if_false]
      replace ih := ih hrest
      unfold saveAgents at ih ⊢
      rw [List.filter_cons, if_pos halive, List.filterMap_cons, List.filterMapM_cons, ih, hl]
      simp only [hsave]
      rfl

theorem saveAgents_atRest (hw : w.AtRest) (r : Registry) :
    w.saveAgents (w.handles r) = .ok ((w.members r).map (·.2.snapshot)) :=
  saveAgents_members fun _ _ _ hl => hw.not_running (live?_eq_some.1 hl).1

/-- What a save of a context at rest says. -/
def snapshot (w : World τ α) (ctx : Context) : Snapshot where
  context := ctx.id
  clock := ctx.clock
  named := w.savedBindings ctx.registry
  baselines := ctx.statics.baselines
  values := ctx.statics.live
  agents := (w.members ctx.registry).map (·.2.snapshot)

/-- A save at rest goes through. -/
theorem save_atRest (hw : w.AtRest) (hc : w.context? c = some ctx) :
    w.save c = (.ok (w.snapshot ctx),
      w.report (.contextSaved ctx.id (w.snapshot ctx).agents.length)) := by
  have hx := (hw.contexts c ctx hc).1
  simp only [save, hc, Context.ensureIdle, hx, Bool.false_eq_true, if_false, pure, Except.pure,
    saveAgents_atRest hw]
  rfl

/-! ## Giving states -/

variable {targets before done : List (AgentRef × Json)}

/-- Gives states to tasks, one after the other, accepted or not. -/
def give (w : World τ α) (targets : List (AgentRef × Json)) : World τ α :=
  targets.foldl (fun w t => (w.loadTask t.1 t.2).2) w

/-- The states for one agent. -/
def statesOf (a : AgentRef) (targets : List (AgentRef × Json)) : List Json :=
  (targets.filter fun t => decide (t.1 = a)).map (·.2)

theorem agent?_loadTask (state : Json) (b : AgentRef) : (w.loadTask a state).2.agent? b =
    (w.agent? b).map fun agent => if b = a then agent.given [state] else agent := by
  have unreached (h : ∀ agent, w.agent? a = some agent → ¬(agent.alive = true ∧
      agent.running = false)) : w.agent? b =
      (w.agent? b).map fun agent => if b = a then agent.given [state] else agent := by
    cases hb : w.agent? b with
    | none => rfl
    | some agent =>
      rw [Option.map_some]
      split
      · next he => rw [Agent.given, if_neg (h agent (he ▸ hb))]
      · rfl
  cases hl : w.live? a with
  | none =>
    rw [loadTask_of_gone state hl]
    refine unreached fun agent ha hr => ?_
    rw [live?_eq_some.2 ⟨ha, hr.1⟩] at hl
    cases hl
  | some agent =>
    obtain ⟨ha, halive⟩ := live?_eq_some.1 hl
    cases hr : agent.running with
    | true =>
      simp only [loadTask, hl, hr, if_true]
      refine unreached fun agent' ha' hr' => ?_
      obtain rfl := Option.some.inj (ha.symm.trans ha')
      cases hr.symm.trans hr'.2
    | false =>
      rw [loadTask_of_live state hl hr, agent?_modifyAgent]
      by_cases hb : b = a
      · rw [if_pos hb, hb, ha, Option.map_some, Option.map_some, if_pos rfl, Agent.given,
          if_pos ⟨halive, hr⟩]
        rfl
      · simp [hb]

/-- Each task gets its own states, if it can be reached. -/
theorem agent?_give (targets : List (AgentRef × Json)) (b : AgentRef) :
    (w.give targets).agent? b = (w.agent? b).map (·.given (statesOf b targets)) := by
  induction targets generalizing w with
  | nil =>
    have hsame : (fun agent : Agent τ => agent.given (statesOf b [])) = id :=
      funext Agent.given_nil
    rw [hsame, Option.map_id]
    rfl
  | cons t targets ih =>
    show ((w.loadTask t.1 t.2).2.give targets).agent? b = _
    rw [ih, agent?_loadTask, Option.map_map]
    congr 1
    funext agent
    by_cases hb : b = t.1
    · subst hb
      simp [statesOf, Agent.given_cons]
    · simp [statesOf, hb, Ne.symm hb]

theorem give_onlyLoads (targets : List (AgentRef × Json)) : OnlyLoads w (w.give targets) := by
  induction targets generalizing w with
  | nil => exact .refl w
  | cons t targets ih => exact (loadTask_onlyLoads t.2).trans ih

/-- Whether a task accepts a state depends on the states it was given before. -/
theorem loadTask_give (hl : w.live? a = some agent) (state : Json) :
    ((w.give before).loadTask a state).1 = .ok () ↔ agent.running = false ∧
      (Behavior.load state (afterLoads agent.task (statesOf a before))).1 = .ok () := by
  obtain ⟨ha, halive⟩ := live?_eq_some.1 hl
  have hgiven := agent?_give (w := w) before a
  rw [ha, Option.map_some] at hgiven
  cases hr : agent.running with
  | true =>
    rw [Agent.given, if_neg (by simp [hr])] at hgiven
    have hl' := live?_eq_some.2 ⟨hgiven, halive⟩
    simp [loadTask, hl', hr]
  | false =>
    rw [Agent.given, if_pos ⟨halive, hr⟩] at hgiven
    have hl' := live?_eq_some.2 ⟨hgiven, halive⟩
    rw [loadTask_of_live state hl' hr]
    exact (and_iff_right rfl).symm

/-- The states are all given, or one of them is refused after those before it were given. -/
theorem restore_cases (targets done : List (AgentRef × Json)) (w : World τ α) :
    (restore targets done w = (.ok (), w.give targets) ∧
      ∀ before t after, targets = before ++ t :: after →
        ((w.give before).loadTask t.1 t.2).1 = .ok ()) ∨
    (∃ e, (restore targets done w).1 = .error e) ∧
      ∃ before t after, targets = before ++ t :: after ∧
        ((w.give before).loadTask t.1 t.2).1 ≠ .ok () := by
  induction targets generalizing done w with
  | nil => exact .inl ⟨rfl, fun before t after h => by simp at h⟩
  | cons t targets ih =>
    obtain ⟨a, state⟩ := t
    rw [restore]
    cases hs : w.saveTask a with
    | error e =>
      refine .inr ⟨⟨e, rfl⟩, [], (a, state), targets, rfl, ?_⟩
      unfold saveTask at hs
      split at hs
      · cases hs
      next agent hl =>
      split at hs
      · next hr =>
        have hgive : ((w.give []).loadTask a state).1 = .ok () ↔ _ := loadTask_give hl state
        intro hok
        rw [(hgive.1 hok).1] at hr
        cases hr
      · cases hs
    | ok former =>
      cases hv : w.loadTask a state with
      | mk result v =>
        have hfirst : ((w.give []).loadTask a state).1 = result := by rw [give, List.foldl_nil, hv]
        have hgive (before : List (AgentRef × Json)) :
            w.give ((a, state) :: before) = v.give before := by
          rw [give, List.foldl_cons, hv, give]
        cases result with
        | error e =>
          exact .inr ⟨⟨e, rfl⟩, [], (a, state), targets, rfl, by rw [hfirst]; simp⟩
        | ok =>
          rcases ih ((a, former) :: done) v with
            ⟨hok, hall⟩ | ⟨⟨e, herr⟩, before, t, after, rfl, hrefused⟩
          · refine .inl ⟨by simp only [hok, hgive], fun before t after hsplit => ?_⟩
            cases before with
            | nil =>
              obtain ⟨rfl, -⟩ := List.cons.inj hsplit
              exact hfirst
            | cons t' before =>
              obtain ⟨rfl, hrest⟩ := List.cons.inj hsplit
              rw [hgive]
              exact hall before t after hrest
          · refine .inr ⟨⟨e, by simp only [herr]⟩, (a, state) :: before, t, after, rfl, ?_⟩
            rwa [hgive]

end World

end AgentScheduler
