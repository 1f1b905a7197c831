/-
Facts about worlds through two views of them: the agent of a reference
(`agent?`) and the context of a reference (`context?`). Each elementary
function of a world is described by what it does to the two.
-/
import AgentScheduler.World

namespace AgentScheduler

/-- The agent apart from its task. -/
def Agent.body {τ : Type} (a : Agent τ) : Agent Unit := { a with task := () }

namespace World

variable {τ α : Type} {w : World τ α} {a b : AgentRef} {c c' : ContextRef}

/-! ## Contexts -/

theorem context?_modifyContext (f : Context → Context) :
    (w.modifyContext c f).context? c' =
      if c' = c then (w.context? c').map f else w.context? c' := by
  obtain ⟨i⟩ := c
  obtain ⟨j⟩ := c'
  simp only [context?, modifyContext, Array.getElem?_modify, ContextRef.mk.injEq]
  by_cases h : i = j
  · rw [if_pos h, if_pos h.symm]
    cases w.contexts[j]? with
    | none => rfl
    | some ctx => cases ctx <;> rfl
  · rw [if_neg h, if_neg (Ne.symm h)]

theorem context?_modifyContext_self {ctx : Context} (h : w.context? c = some ctx)
    (f : Context → Context) : (w.modifyContext c f).context? c = some (f ctx) := by
  rw [context?_modifyContext, if_pos rfl, h, Option.map_some]

theorem context?_modifyContext_ne (h : c' ≠ c) (f : Context → Context) :
    (w.modifyContext c f).context? c' = w.context? c' := by
  rw [context?_modifyContext, if_neg h]

@[simp] theorem context?_setPlace (place : Registration) :
    (w.setPlace a place).context? c = w.context? c := rfl

@[simp] theorem context?_report (e : Event) : (w.report e).context? c = w.context? c := rfl

/-- A new context takes a place of its own. -/
theorem context?_addContext (ctx : Context) : (w.addContext ctx).2.context? c =
    if c.index = w.contexts.size then some ctx else w.context? c := by
  simp only [context?, addContext, Array.getElem?_push]
  split <;> rfl

theorem context?_eq_none_of_size (h : w.contexts.size ≤ c.index) : w.context? c = none := by
  rw [context?, Array.getElem?_eq_none h, Option.join_none]

/-- A context that is dropped is gone. -/
theorem context?_dropContext_eq : (w.dropContext c).context? c' =
    if c' = c then none else (w.clearRegistry c).context? c' := by
  obtain ⟨i⟩ := c
  obtain ⟨j⟩ := c'
  simp only [context?, dropContext, Array.getElem?_modify, ContextRef.mk.injEq]
  by_cases h : i = j
  · rw [if_pos h, if_pos h.symm]
    cases (w.clearRegistry ⟨i⟩).contexts[j]? <;> rfl
  · rw [if_neg h, if_neg (Ne.symm h)]

/-! ## Agents -/

theorem agents_ext {v : World τ α} (h : ∀ a, v.agent? a = w.agent? a) : v.agents = w.agents :=
  Array.ext_getElem? fun i => h ⟨i⟩

theorem agent?_modifyAgent (f : Agent τ → Agent τ) :
    (w.modifyAgent a f).agent? b = if b = a then (w.agent? b).map f else w.agent? b := by
  obtain ⟨i⟩ := a
  obtain ⟨j⟩ := b
  simp only [agent?, modifyAgent, Array.getElem?_modify, AgentRef.mk.injEq]
  by_cases h : i = j
  · rw [if_pos h, if_pos h.symm]
  · rw [if_neg h, if_neg (Ne.symm h)]

@[simp] theorem agent?_modifyRegistry (f : Registry → Registry) :
    (w.modifyRegistry c f).agent? a = w.agent? a := rfl

@[simp] theorem agent?_report (e : Event) : (w.report e).agent? a = w.agent? a := rfl

/-- A new agent takes a place of its own. -/
theorem agent?_create (g : NewAgent τ) : (w.create g).2.agent? b =
    if b.index = w.agents.size then some ⟨g.name, g.cls, g.priority, {}, true, false, g.task⟩
    else w.agent? b := by
  simp only [agent?, create, Array.getElem?_push]

theorem agent?_eq_none_of_size (h : w.agents.size ≤ a.index) : w.agent? a = none :=
  Array.getElem?_eq_none h

/-! ## Living agents -/

theorem live?_eq_some {agent : Agent τ} :
    w.live? a = some agent ↔ w.agent? a = some agent ∧ agent.alive = true := by
  rw [live?, Option.filter_eq_some_iff]

theorem alive_iff : w.alive a = true ↔ ∃ agent, w.live? a = some agent := by
  rw [alive, Option.isSome_iff_exists]

theorem alive_of_live? {agent : Agent τ} (h : w.live? a = some agent) : w.alive a = true :=
  alive_iff.2 ⟨agent, h⟩

theorem live?_congr {v : World τ α} (h : v.agent? a = w.agent? a) : v.live? a = w.live? a := by
  rw [live?, live?, h]

/-- A change of an agent that spares its life. -/
theorem live?_map {v : World τ α} {f : Agent τ → Agent τ}
    (hf : ∀ agent, (f agent).alive = agent.alive)
    (h : v.agent? a = (w.agent? a).map f) : v.live? a = (w.live? a).map f := by
  rw [live?, live?, h]
  cases w.agent? a with
  | none => rfl
  | some agent =>
    have := hf agent
    by_cases ha : agent.alive = true <;> simp [Option.filter, this, ha]

/-! ## One agent moves -/

section Move

variable {v : World τ α} {agent : Agent τ} {place : Registration} (hl : w.live? a = some agent)
  (ha : ∀ b, v.agent? b = if b = a then some { agent with place } else w.agent? b)

include ha

theorem known_move {x : Agent τ} (hb : w.agent? b = some x) : ∃ x, v.agent? b = some x := by
  rw [ha]
  split
  · exact ⟨_, rfl⟩
  · exact ⟨x, hb⟩

include hl

theorem live?_move (b : AgentRef) :
    v.live? b = if b = a then some { agent with place } else w.live? b := by
  by_cases hb : b = a
  · rw [if_pos hb, live?_eq_some, ha, if_pos hb]
    exact ⟨rfl, (live?_eq_some.1 hl).2⟩
  · rw [if_neg hb]
    exact live?_congr (by rw [ha, if_neg hb])

/-- A living agent is the one that moved, or is as before. -/
theorem live?_move_cases {x : Agent τ} (hb : v.live? b = some x) :
    b = a ∧ x = { agent with place } ∨ b ≠ a ∧ w.live? b = some x := by
  rw [live?_move hl ha] at hb
  split at hb
  · next h => exact .inl ⟨h, (Option.some.inj hb).symm⟩
  · next h => exact .inr ⟨h, hb⟩

end Move

theorem containsAgent_iff {ctx : Context} {agent : Agent τ} (hc : w.context? c = some ctx)
    (hl : w.live? a = some agent) :
    w.containsAgent c a = true ↔ ctx.holds agent.place = true := by
  simp only [containsAgent, hc, hl]

/-! ## Clearing registrations -/

/-- Clearing ends the registrations of the living agents that the buckets refer to. -/
theorem agent?_clearPlaces (r : Registry) : (w.clearPlaces r).agent? b =
    (w.agent? b).map fun agent =>
      if agent.alive = true ∧ b ∈ r.walkOrder then { agent with place := {} } else agent := by
  rw [clearPlaces]
  generalize r.walkOrder = l
  induction l generalizing w with
  | nil => simp
  | cons a l ih =>
    rw [List.foldl_cons, ih]
    by_cases hb : b = a
    · subst hb
      cases hag : w.agent? b with
      | none =>
        have hl : ¬w.alive b = true := by simp [alive, live?, hag]
        rw [if_neg hl, hag]; rfl
      | some agent =>
        by_cases hl : agent.alive = true
        · have hw : w.alive b = true := alive_of_live? (live?_eq_some.2 ⟨hag, hl⟩)
          rw [if_pos hw, setPlace, agent?_modifyAgent, if_pos rfl, hag]
          simp [hl]
        · have hw : ¬w.alive b = true := by simp [alive, live?, hag, Option.filter, hl]
          rw [if_neg hw, hag]
          simp [hl]
    · have hstep : (if w.alive a then w.setPlace a {} else w).agent? b = w.agent? b := by
        split
        · rw [setPlace, agent?_modifyAgent, if_neg hb]
        · rfl
      rw [hstep]
      simp [hb]

/-- It touches nothing but agents. -/
theorem clearPlaces_rest (r : Registry) :
    (w.clearPlaces r).contexts = w.contexts ∧ (w.clearPlaces r).host = w.host := by
  rw [clearPlaces]
  generalize r.walkOrder = l
  induction l generalizing w with
  | nil => exact ⟨rfl, rfl⟩
  | cons a l ih =>
    rw [List.foldl_cons, ih.1, ih.2]
    split <;> exact ⟨rfl, rfl⟩

theorem context?_clearPlaces (r : Registry) : (w.clearPlaces r).context? c = w.context? c := by
  rw [context?, (clearPlaces_rest r).1, ← context?]

end World

end AgentScheduler
