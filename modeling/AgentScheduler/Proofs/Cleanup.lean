/-
What cleaning up does. Contexts are released one after the other: those that the
directory made end, the others are returned with nothing left in them
(`World.Cleared`), and of the agents only those that had an entry in one of them
lose their place. `cleanContexts_eq` says so for any list of ids, `cleanup_eq`
for what a call applies to, and `cleanContexts_noting` says what observers hear.
-/
import AgentScheduler.Proofs.Changes
import AgentScheduler.Proofs.Walking
import AgentScheduler.Proofs.WorkspaceRuns
import Mathlib.Data.List.Basic

namespace AgentScheduler

/-- A context after its release. -/
def Context.released (ctx : Context) : Context :=
  { ctx with registry := ctx.registry.clear, statics := ctx.statics.clearBaselines }

namespace World

variable {τ α : Type} {w v u : World τ α} {c c' : ContextRef} {a : AgentRef} {ctx : Context}
  {agent : Agent τ} {cs : List ContextRef}

/-- The context exists, and a directory made it. -/
def madeByDirectory (w : World τ α) (c : ContextRef) : Bool :=
  (w.context? c).any (·.createdByDirectory)

/-- The context has an entry that refers to the agent. -/
def HasEntry (w : World τ α) (c : ContextRef) (a : AgentRef) : Prop :=
  ∃ ctx p i, w.context? c = some ctx ∧ (p, i, a) ∈ ctx.registry.entries

/-- Contexts were released: those that a directory made are gone, and of the agents only those with
an entry in one of them lost their place. -/
structure Cleared (cs : List ContextRef) (w v : World τ α) : Prop where
  gone : ∀ c ∈ cs, w.madeByDirectory c = true → v.context? c = none
  returned : ∀ c ∈ cs, w.madeByDirectory c = false →
    v.context? c = (w.context? c).map Context.released
  others : ∀ c ∉ cs, v.context? c = w.context? c
  unregistered : ∀ c ∈ cs, ∀ a agent, w.HasEntry c a → w.live? a = some agent →
    v.agent? a = some { agent with place := {} }
  kept : ∀ a, (w.alive a = true → ∀ c ∈ cs, ¬w.HasEntry c a) → v.agent? a = w.agent? a

/-! ## Release of one context -/

theorem hasEntry_iff (hc : w.context? c = some ctx) :
    w.HasEntry c a ↔ a ∈ ctx.registry.walkOrder := by
  rw [Registry.mem_walkOrder]
  constructor
  · rintro ⟨ctx', p, i, hc', he⟩
    rw [hc] at hc'
    cases hc'
    exact ⟨p, i, he⟩
  · rintro ⟨p, i, he⟩
    exact ⟨ctx, p, i, hc, he⟩

theorem hasEntry_congr (h : v.context? c = w.context? c) : v.HasEntry c a ↔ w.HasEntry c a := by
  rw [HasEntry, HasEntry, h]

theorem context?_release (hc : w.context? c = some ctx) (c' : ContextRef) :
    (w.release c).context? c' = if c' = c then some ctx.released else w.context? c' := by
  simp only [release, clearRegistry, hc, modifyRegistry, context?_report, context?_modifyContext,
    context?_clearPlaces]
  by_cases h : c' = c
  · subst h
    simp only [if_true, hc, Option.map_some]
    rfl
  · simp only [if_neg h]

theorem agent?_release (hc : w.context? c = some ctx) (b : AgentRef) :
    (w.release c).agent? b = (w.agent? b).map fun agent =>
      if agent.alive = true ∧ b ∈ ctx.registry.walkOrder then { agent with place := {} }
      else agent := by
  simp only [release, clearRegistry, hc]
  exact agent?_clearPlaces ctx.registry

theorem release_eq_of_none (hc : w.context? c = none) : w.release c = w := by
  simp only [release, hc]

/-- A released context ends without touching an agent. -/
theorem dropContext_of_empty (hc : w.context? c = some ctx) (hempty : ctx.registry.entries = []) :
    (∀ c', (w.dropContext c).context? c' = if c' = c then none else w.context? c') ∧
      ∀ b, (w.dropContext c).agent? b = w.agent? b := by
  refine ⟨fun c' => ?_, fun b => ?_⟩
  · by_cases h : c' = c
    · subst h
      rw [if_pos rfl, context?_dropContext_self]
    · rw [if_neg h, context?_dropContext c' h]
  · have hwalk : ctx.registry.walkOrder = [] := by rw [Registry.walkOrder, hempty, List.map_nil]
    show (w.clearRegistry c).agent? b = w.agent? b
    simp only [clearRegistry, hc, clearPlaces, hwalk, List.foldl_nil, agent?_modifyRegistry]

namespace Cleared

theorem nil : Cleared [] w w := by
  constructor <;> simp

/-- What happens around a release leaves contexts and agents alone. -/
theorem congr (h : Cleared cs w v) (hc : ∀ c, u.context? c = v.context? c)
    (ha : ∀ a, u.agent? a = v.agent? a) : Cleared cs w u where
  gone c hm hmade := (hc c).trans (h.gone c hm hmade)
  returned c hm hmade := (hc c).trans (h.returned c hm hmade)
  others c hm := (hc c).trans (h.others c hm)
  unregistered c hm a agent he hl := (ha a).trans (h.unregistered c hm a agent he hl)
  kept a hk := (ha a).trans (h.kept a hk)

theorem absent (hc : w.context? c = none) : Cleared [c] w w where
  gone c' hm hmade := by
    rw [List.mem_singleton.1 hm, hc]
  returned c' hm _ := by
    rw [List.mem_singleton.1 hm, hc, Option.map_none]
  others _ _ := rfl
  unregistered c' hm a agent he _ := by
    obtain ⟨ctx, p, i, hx, -⟩ := he
    rw [List.mem_singleton.1 hm, hc] at hx
    cases hx
  kept _ _ := rfl

/-- One context is released. -/
theorem single (hc : w.context? c = some ctx)
    (hv : ∀ c', v.context? c' =
      if c' = c then (if ctx.createdByDirectory = true then none else some ctx.released)
      else w.context? c')
    (ha : ∀ b, v.agent? b = (w.agent? b).map fun agent =>
      if agent.alive = true ∧ b ∈ ctx.registry.walkOrder then { agent with place := {} }
      else agent) : Cleared [c] w v where
  gone c' hm hmade := by
    obtain rfl := List.mem_singleton.1 hm
    have hmade : ctx.createdByDirectory = true := by rwa [madeByDirectory, hc] at hmade
    rw [hv, if_pos rfl, if_pos hmade]
  returned c' hm hmade := by
    obtain rfl := List.mem_singleton.1 hm
    have hmade : ctx.createdByDirectory = false := by rwa [madeByDirectory, hc] at hmade
    rw [hv, if_pos rfl, hmade, hc]
    rfl
  others c' hm := by rw [hv, if_neg fun h => hm (List.mem_singleton.2 h)]
  unregistered c' hm a agent he hl := by
    obtain rfl := List.mem_singleton.1 hm
    obtain ⟨hag, hal⟩ := live?_eq_some.1 hl
    rw [ha, hag, Option.map_some, if_pos ⟨hal, (hasEntry_iff hc).1 he⟩]
  kept a hk := by
    rw [ha]
    cases hag : w.agent? a with
    | none => rfl
    | some agent =>
      rw [Option.map_some, if_neg]
      rintro ⟨hal, he⟩
      have halive : w.alive a = true := alive_of_live? (live?_eq_some.2 ⟨hag, hal⟩)
      exact hk halive c List.mem_cons_self ((hasEntry_iff hc).2 he)

/-- One context after the other. -/
theorem cons (h : Cleared [c] w u) (h' : Cleared cs u v) (hc : c ∉ cs) :
    Cleared (c :: cs) w v := by
  have hsame : ∀ c' ∈ cs, u.context? c' = w.context? c' := fun c' hm =>
    h.others c' fun he => hc (List.mem_singleton.1 he ▸ hm)
  have hmade : ∀ c' ∈ cs, u.madeByDirectory c' = w.madeByDirectory c' := fun c' hm => by
    rw [madeByDirectory, hsame c' hm, madeByDirectory]
  refine ⟨fun c' hm hdir => ?_, fun c' hm hdir => ?_, fun c' hm => ?_,
    fun c' hm a agent he hl => ?_, fun a hk => ?_⟩
  · rcases List.mem_cons.1 hm with rfl | hm
    · rw [h'.others c' hc]
      exact h.gone c' List.mem_cons_self hdir
    · exact h'.gone c' hm ((hmade c' hm).trans hdir)
  · rcases List.mem_cons.1 hm with rfl | hm
    · rw [h'.others c' hc]
      exact h.returned c' List.mem_cons_self hdir
    · rw [h'.returned c' hm ((hmade c' hm).trans hdir), hsame c' hm]
  · obtain ⟨hne, hm⟩ := not_or.1 (mt List.mem_cons.2 hm)
    exact (h'.others c' hm).trans (h.others c' fun he => hne (List.mem_singleton.1 he))
  · by_cases hrest : ∃ c' ∈ cs, w.HasEntry c' a
    · -- whatever the first release does to the place, a later one ends it
      have hfirst : ∃ agent', u.live? a = some agent' ∧
          ({ agent' with place := {} } : Agent τ) = { agent with place := {} } := by
        by_cases hfirst : w.HasEntry c a
        · have hu := h.unregistered c List.mem_cons_self a agent hfirst hl
          exact ⟨_, live?_eq_some.2 ⟨hu, (live?_eq_some.1 hl).2⟩, rfl⟩
        · have hu := h.kept a fun _ c' hm => List.mem_singleton.1 hm ▸ hfirst
          exact ⟨agent, (live?_congr hu).trans hl, rfl⟩
      obtain ⟨agent', hl', hagent⟩ := hfirst
      obtain ⟨c', hm, he⟩ := hrest
      rw [← hagent]
      exact h'.unregistered c' hm a agent' ((hasEntry_congr (hsame c' hm)).2 he) hl'
    · have hfirst : w.HasEntry c a := by
        rcases List.mem_cons.1 hm with rfl | hm
        · exact he
        · exact absurd ⟨c', hm, he⟩ hrest
      rw [h'.kept a fun _ c' hm he => hrest ⟨c', hm, (hasEntry_congr (hsame c' hm)).1 he⟩]
      exact h.unregistered c List.mem_cons_self a agent hfirst hl
  · have hu : u.agent? a = w.agent? a := h.kept a fun hal c' hm =>
      List.mem_singleton.1 hm ▸ hk hal c List.mem_cons_self
    have halive : u.alive a = w.alive a := by rw [alive, live?_congr hu, alive]
    rw [h'.kept a fun hal c' hm he => ?_, hu]
    exact hk (halive ▸ hal) c' (List.mem_cons_of_mem _ hm) ((hasEntry_congr (hsame c' hm)).1 he)

end Cleared

end World

open World

/-- An observer that also keeps a list of what it is told. -/
def Observer.noting {ο α : Type} (obs : Observer ο α) : Observer (ο × List Notice) α :=
  fun n o h => (((obs n o.1 h).1, o.2 ++ [n]), (obs n o.1 h).2)

namespace Workspace

variable {τ α ο : Type} {ws : Workspace α} {w : World τ α} {obs : Observer ο α} {o : ο}
  {id : ContextId} {c : ContextRef}

/-! ## Release of contexts one after the other -/

/-- The workspace without the entries of some ids. -/
def without (ws : Workspace α) (p : ContextId → Bool) : Workspace α :=
  { ws with directory := ws.directory.filter fun j _ => !p j }

theorem without_congr {p q : ContextId → Bool} (h : ∀ j c, ws.find? j = some c → p j = q j) :
    ws.without p = ws.without q := by
  refine congrArg (fun d => { ws with directory := d }) (SortedMap.ext_get? fun j => ?_)
  rw [SortedMap.get?_filter, SortedMap.get?_filter]
  cases hj : ws.directory.get? j with
  | none => rfl
  | some c => simp only [Option.filter, h j c hj]

theorem without_eq_self {p : ContextId → Bool} (h : ∀ j c, ws.find? j = some c → p j = false) :
    ws.without p = ws := by
  have hdir : ws.directory.filter (fun j _ => !p j) = ws.directory := by
    refine SortedMap.ext_get? fun j => ?_
    rw [SortedMap.get?_filter]
    cases hj : ws.directory.get? j with
    | none => rfl
    | some c => simp [Option.filter, h j c hj]
  rw [without, hdir]

theorem find?_without (p : ContextId → Bool) (j : ContextId) :
    (ws.without p).find? j = if p j = true then none else ws.find? j := by
  rw [find?, without, SortedMap.get?_filter]
  by_cases h : p j = true
  · rw [if_pos h]
    cases hj : ws.directory.get? j <;> simp [Option.filter, h]
  · rw [if_neg h]
    show (ws.directory.get? j).filter _ = ws.directory.get? j
    cases hj : ws.directory.get? j <;> simp [Option.filter, h]

/-- One context is released; it ends if the directory made it. -/
def cleanOne (obs : Observer ο α) (id : ContextId) (c : ContextRef) (o : ο) (w : World τ α) :
    ο × World τ α :=
  let (o, v) := tell obs (.cleaned id) o (w.release c)
  (o, if w.madeByDirectory c then (v.report (.contextDestroyed id)).dropContext c
    else v.report (.contextReturned id))

theorem cleanContexts_cons (obs : Observer ο α) (ids : List ContextId) (hc : ws.find? id = some c)
    (o : ο) (w : World τ α) :
    cleanContexts obs (id :: ids) ws o w =
      let (o', w') := cleanOne obs id c o w
      let (returned, last) :=
        cleanContexts obs ids { ws with directory := ws.directory.erase id } o' w'
      (if w.madeByDirectory c then returned else c :: returned, last) := by
  have hmade : ((tell obs (.cleaned id) o (w.release c)).2.context? c).any (·.createdByDirectory) =
      w.madeByDirectory c := by
    show ((w.release c).context? c).any _ = _
    cases hx : w.context? c with
    | none => rw [release_eq_of_none hx, madeByDirectory]
    | some ctx => rw [context?_release hx, if_pos rfl, madeByDirectory, hx]; rfl
  rw [cleanContexts, hc]
  simp only [hmade, cleanOne]
  cases w.madeByDirectory c <;> rfl

theorem cleared_cleanOne (obs : Observer ο α) (id : ContextId) (c : ContextRef) (o : ο)
    (w : World τ α) : Cleared [c] w (cleanOne obs id c o w).2 := by
  unfold cleanOne
  cases hc : w.context? c with
  | none =>
    rw [release_eq_of_none hc, madeByDirectory, hc]
    exact (Cleared.absent hc).congr (fun _ => rfl) fun _ => rfl
  | some ctx =>
    have hmade : w.madeByDirectory c = ctx.createdByDirectory := by rw [madeByDirectory, hc]; rfl
    have hctx (e : Event) (c') : ((tell obs (.cleaned id) o (w.release c)).2.report e).context? c' =
        if c' = c then some ctx.released else w.context? c' := context?_release hc c'
    cases hcreated : ctx.createdByDirectory with
    | true =>
      obtain ⟨hgone, hagents⟩ := dropContext_of_empty ((hctx (.contextDestroyed id) c).trans
        (if_pos rfl)) rfl
      simp only [hmade, hcreated, if_true]
      refine .single hc (fun c' => ?_) fun b => (hagents b).trans (agent?_release hc b)
      rw [hgone, hcreated, if_pos rfl]
      split
      · rfl
      · next hne => rw [hctx, if_neg hne]
    | false =>
      simp only [hmade, hcreated, Bool.false_eq_true, if_false]
      refine .single hc (fun c' => ?_) (agent?_release hc)
      rw [hctx, hcreated]
      rfl

theorem find?_erased (ws : Workspace α) (id j : ContextId) :
    ({ ws with directory := ws.directory.erase id } : Workspace α).find? j =
      if j = id then none else ws.find? j :=
  SortedMap.get?_erase ws.directory id j

theorem without_erased (ids : List ContextId) :
    ({ ws with directory := ws.directory.erase id } : Workspace α).without ids.contains =
      ws.without (id :: ids).contains := by
  refine congrArg (fun d => { ws with directory := d }) (SortedMap.ext_get? fun j => ?_)
  rw [SortedMap.get?_filter, SortedMap.get?_filter, SortedMap.get?_erase]
  by_cases h : j = id
  · rw [if_pos h, h]
    cases ws.directory.get? id <;> simp [Option.filter]
  · rw [if_neg h]
    cases ws.directory.get? j <;> simp [Option.filter, h]

theorem cleanContexts_eq (obs : Observer ο α) {ids : List ContextId} (hids : ids.Nodup)
    (hrefs : ∀ i j c, ws.find? i = some c → ws.find? j = some c → i = j) (o : ο) (w : World τ α) :
    (cleanContexts obs ids ws o w).1 =
        (ids.filterMap ws.find?).filter (fun c => !w.madeByDirectory c) ∧
      (cleanContexts obs ids ws o w).2.1 = ws.without ids.contains ∧
      Cleared (ids.filterMap ws.find?) w (cleanContexts obs ids ws o w).2.2.2 := by
  induction ids generalizing ws o w with
  | nil =>
    refine ⟨rfl, ?_, .nil⟩
    exact (without_eq_self fun _ _ _ => rfl).symm
  | cons id ids ih =>
    obtain ⟨hid, hids⟩ := List.nodup_cons.1 hids
    cases hc : ws.find? id with
    | none =>
      obtain ⟨hreturned, hws, hcleared⟩ := ih hids hrefs o w
      rw [cleanContexts, hc, List.filterMap_cons, hc]
      refine ⟨hreturned, hws.trans (without_congr fun j c hj => ?_), hcleared⟩
      have hne : j ≠ id := fun he => by rw [he, hc] at hj; cases hj
      rw [List.contains_cons, beq_false_of_ne hne, Bool.false_or]
    | some c =>
      have hone := cleared_cleanOne obs id c o w
      rw [cleanContexts_cons obs ids hc, List.filterMap_cons, hc]
      generalize cleanOne obs id c o w = one at hone
      obtain ⟨o', u⟩ := one
      have hother : ∀ j ∈ ids, j ≠ id := fun j hj he => hid (he ▸ hj)
      have hfind (j : ContextId) := ws.find?_erased id j
      have hwithout : ({ ws with directory := ws.directory.erase id } : Workspace α).without
          ids.contains = ws.without (id :: ids).contains := without_erased ids
      generalize ({ ws with directory := ws.directory.erase id } : Workspace α) = ws'
        at hfind hwithout ⊢
      have hsome {j : ContextId} {c' : ContextRef} (hj : ws'.find? j = some c') :
          ws.find? j = some c' := by
        rw [hfind] at hj
        split at hj
        · cases hj
        · exact hj
      have hrest : ids.filterMap ws'.find? = ids.filterMap ws.find? :=
        List.filterMap_congr fun j hj => by rw [hfind, if_neg (hother j hj)]
      have hfresh : c ∉ ids.filterMap ws.find? := fun hm => by
        obtain ⟨j, hj, hjc⟩ := List.mem_filterMap.1 hm
        exact hid (hrefs id j c hc hjc ▸ hj)
      obtain ⟨hreturned, hws, hcleared⟩ := ih hids
        (fun i j c' hi hj => hrefs i j c' (hsome hi) (hsome hj)) o' u
      rw [hrest] at hreturned hcleared
      refine ⟨?_, hws.trans hwithout, hone.cons hcleared hfresh⟩
      have hsame : (ids.filterMap ws.find?).filter (fun c => !u.madeByDirectory c) =
          (ids.filterMap ws.find?).filter (fun c => !w.madeByDirectory c) :=
        List.filter_congr fun c' hm => by
          rw [madeByDirectory, hone.others c' fun he => hfresh (List.mem_singleton.1 he ▸ hm),
            madeByDirectory]
      simp only [hreturned, hsame, List.filter_cons]
      cases w.madeByDirectory c <;> rfl

/-- Observers hear of each context that there is, in order, and nothing depends on what they keep. -/
theorem cleanContexts_noting (ws : Workspace α) (obs : Observer ο α) {ids : List ContextId}
    (hids : ids.Nodup) (o : ο) (l : List Notice) (w : World τ α) :
    cleanContexts obs.noting ids ws (o, l) w =
      let (returned, ws', o', w') := cleanContexts obs ids ws o w
      (returned, ws',
        (o', l ++ (ids.filter fun i => (ws.find? i).isSome).map Notice.cleaned), w') := by
  induction ids generalizing ws o l w with
  | nil => simp [cleanContexts]
  | cons id ids ih =>
    obtain ⟨hid, hids⟩ := List.nodup_cons.1 hids
    cases hc : ws.find? id with
    | none =>
      rw [cleanContexts, cleanContexts, hc]
      simp only [ih _ hids, List.filter_cons, hc, Option.isSome_none, Bool.false_eq_true, if_false]
    | some c =>
      have hother : ∀ j ∈ ids, j ≠ id := fun j hj he => hid (he ▸ hj)
      have hone : cleanOne obs.noting id c (o, l) w =
          (((cleanOne obs id c o w).1, l ++ [.cleaned id]), (cleanOne obs id c o w).2) := rfl
      have hrest : (ids.filter fun i => (({ ws with directory := ws.directory.erase id } :
          Workspace α).find? i).isSome) = ids.filter fun i => (ws.find? i).isSome :=
        List.filter_congr fun j hj => by rw [find?_erased, if_neg (hother j hj)]
      rw [cleanContexts_cons _ ids hc, cleanContexts_cons _ ids hc, hone]
      simp only [ih _ hids, hrest, List.filter_cons, hc, Option.isSome_some, if_true, List.map_cons,
        List.append_assoc, List.singleton_append]

/-! ## Calls -/

/-- The entries of the directory that a call is about. -/
def affected (ws : Workspace α) (id : ContextId) : SortedMap ContextId ContextRef :=
  ws.directory.filter fun j _ => id.isAll || j == id

/-- What cleaning up one context or all of them does. -/
structure CleansUp (ws : Workspace α) (obs : Observer ο α) (id : ContextId) (o : ο)
    (w : World τ α) : Prop where
  /-- What the application handed over comes back to it. -/
  returned : (ws.cleanup obs id o w).1 =
    .ok ((ws.affected id).values.filter fun c => !w.madeByDirectory c)
  removed : (ws.cleanup obs id o w).2.1 = ws.without fun j => id.isAll || j == id
  /-- Observers hear of each context once. -/
  noticed : ws.cleanup obs.noting id (o, []) w =
    ((ws.cleanup obs id o w).1, (ws.cleanup obs id o w).2.1,
      ((ws.cleanup obs id o w).2.2.1, (ws.affected id).keys.map Notice.cleaned),
      (ws.cleanup obs id o w).2.2.2)
  cleared : Cleared (ws.affected id).values w (ws.cleanup obs id o w).2.2.2

theorem filterMap_keys (m : SortedMap ContextId ContextRef) : m.keys.filterMap m.get? = m.values := by
  rw [SortedMap.keys, List.filterMap_map, SortedMap.values, ← List.filterMap_eq_map]
  refine List.filterMap_congr fun e he => ?_
  rw [Function.comp, SortedMap.get?_eq_some_iff.2 he]
  rfl

theorem affected_all (ws : Workspace α) : ws.affected .all = ws.directory := by
  refine SortedMap.ext_get? fun j => ?_
  rw [affected, SortedMap.get?_filter]
  cases ws.directory.get? j <;> rfl

theorem affected_one (ws : Workspace α) (hid : id.isAll = false) :
    ws.affected id = match ws.find? id with
      | none => .empty
      | some c => SortedMap.empty.insert id c := by
  refine SortedMap.ext_get? fun j => ?_
  rw [affected, SortedMap.get?_filter, hid]
  by_cases h : j = id
  · subst h
    show (ws.find? j).filter _ = _
    cases ws.find? j with
    | none => rfl
    | some c => simp [Option.filter, SortedMap.get?_insert]
  · have hnone : (ws.directory.get? j).filter (fun _ => false || j == id) = none := by
      cases ws.directory.get? j <;> simp [Option.filter, h]
    rw [hnone]
    cases ws.find? id with
    | none => rfl
    | some c => simp [SortedMap.get?_insert, h]

/-- What a call is about, one id after the other. -/
theorem targets_affected (ws : Workspace α) (hid : id = .all ∨ id.isConcrete = true) :
    ∃ ids, ws.targets id = .ok ids ∧ ids.Nodup ∧
      ids.filterMap ws.find? = (ws.affected id).values ∧
      (ids.filter fun i => (ws.find? i).isSome) = (ws.affected id).keys ∧
      ws.without ids.contains = ws.without fun j => id.isAll || j == id := by
  rcases hid with rfl | hid
  · refine ⟨ws.contextIds, rfl, ws.directory.nodup_keys, ?_, ?_, without_congr fun j c hj => ?_⟩
    · rw [affected_all]
      exact filterMap_keys ws.directory
    · rw [affected_all]
      exact List.filter_eq_self.2 fun i hi => SortedMap.mem_keys.1 hi
    · exact List.contains_iff_mem.2 (SortedMap.mem_keys.2 (Option.isSome_iff_exists.2 ⟨c, hj⟩))
  · have hall : id.isAll = false := ContextId.isAll_of_isConcrete hid
    refine ⟨[id], ws.targets_of_isConcrete hid, List.pairwise_singleton _ _, ?_, ?_,
      without_congr fun j c hj => ?_⟩
    · rw [affected_one ws hall]
      cases hc : ws.find? id <;> rw [List.filterMap_cons, hc] <;> rfl
    · rw [affected_one ws hall]
      cases hc : ws.find? id <;> simp [hc] <;> rfl
    · rw [hall, List.contains_cons, List.contains_nil, Bool.or_false, Bool.false_or]

theorem cleanup_cleansUp (hrefs : ∀ i j c, ws.find? i = some c → ws.find? j = some c → i = j)
    (hid : id = .all ∨ id.isConcrete = true) (obs : Observer ο α) (o : ο) (w : World τ α) :
    ws.CleansUp obs id o w := by
  obtain ⟨ids, htargets, hnodup, hvalues, hkeys, hwithout⟩ := ws.targets_affected hid
  obtain ⟨hreturned, hws, hcleared⟩ := cleanContexts_eq obs hnodup hrefs o w
  have hnoting := ws.cleanContexts_noting obs hnodup o [] w
  rw [hvalues] at hreturned hcleared
  rw [hkeys] at hnoting
  have hcall : ws.cleanup obs id o w =
      (.ok (cleanContexts obs ids ws o w).1, (cleanContexts obs ids ws o w).2) := by
    simp only [cleanup, htargets]
  refine ⟨?_, ?_, ?_, ?_⟩
  · rw [hcall, hreturned]
  · rw [hcall]
    exact hws.trans hwithout
  · rw [hcall]
    simp only [cleanup, htargets, hnoting, List.nil_append]
  · rw [hcall]
    exact hcleared

end Workspace

end AgentScheduler
