/-
The walk of a round of an arena. It comes to the spawner first and then to the minions, oldest
first. `Census` describes the context before it: which minions are registered, in the order of the
walk, and what the counters say of them. `Walked` describes its end: every minion has lost a hit
point, those without one and the one that was made wait for what comes after.
-/
import AgentScheduler.Proofs.ArenaPrograms
import AgentScheduler.Proofs.Lifespans

namespace AgentScheduler

namespace Context.Asked

variable {ctx ctx' : Context} {adds removes : List AgentRef} {ever alive : Nat}
  (h : ctx.Asked adds removes ever alive ctx')

include h

theorem executing : ctx'.executing = ctx.executing := by rw [h.rest]

theorem types : ctx'.types = ctx.types := by rw [h.rest]

end Context.Asked

namespace World

section Visits

variable {τ α : Type} {w v : World τ α} {a b : AgentRef} {agent : Agent τ} {task : τ}

/-! ## Tasks at rest -/

/-- The agent lives, and this task of it does not run. -/
def Rests (w : World τ α) (a : AgentRef) (task : τ) : Prop :=
  ∃ agent, w.live? a = some agent ∧ agent.running = false ∧ agent.task = task

theorem Rests.congr (h : w.Rests a task) (hv : v.live? a = w.live? a) : v.Rests a task := by
  obtain ⟨agent, hl, hrest⟩ := h
  exact ⟨agent, hv.trans hl, hrest⟩

theorem Rests.known (h : w.Rests a task) : w.agent? a ≠ none := by
  obtain ⟨agent, hl, -⟩ := h
  rw [(live?_eq_some.1 hl).1]
  exact Option.some_ne_none agent

theorem agent?_startTask_ne (hb : b ≠ a) : (w.startTask a).agent? b = w.agent? b := by
  rw [startTask, agent?_modifyAgent, if_neg hb]

theorem agent?_endTask_ne (hb : b ≠ a) : (w.endTask a task).agent? b = w.agent? b := by
  rw [endTask, agent?_modifyAgent, if_neg hb]

theorem alive_startTask (hl : w.live? a = some agent) : (w.startTask a).alive a = true := by
  have hstarted : (w.startTask a).live? a = some { agent with running := true } := by
    refine live?_eq_some.2 ⟨?_, ?_⟩
    · rw [startTask, agent?_modifyAgent, if_pos rfl, (live?_eq_some.1 hl).1, Option.map_some]
    · simp [Agent.alive]
  exact alive_of_live? hstarted

/-- After its step an agent that lived lives on, with the new task. -/
theorem rests_endTask (hl : w.live? a = some agent) (hr : agent.running = false)
    (hv : v.agent? a = (w.startTask a).agent? a) : (v.endTask a task).Rests a task := by
  obtain ⟨hag, halive⟩ := live?_eq_some.1 hl
  refine ⟨{ agent with running := false, task }, live?_eq_some.2 ⟨?_, ?_⟩, rfl, rfl⟩
  · rw [endTask, agent?_modifyAgent, if_pos rfl, hv, startTask, agent?_modifyAgent, if_pos rfl, hag]
    rfl
  · simpa [Agent.alive, hr] using halive

end Visits

/-! ## Walks -/

section Walks

variable {τ α : Type} [Behavior τ α] {nested : Nested τ α} {inner : NestedMoments τ α}
  {c : ContextRef} {w v u : World τ α} {a : AgentRef} {agent : Agent τ} {task : τ}
  {status : Status} {l : List AgentRef} {new new' : List (AgentRef × NewAgent τ)}
  {rs : List (AgentRef × Status)}

/-- Where a walk over agents ends, which agents are made on the way, and how the tasks end. -/
structure Walks (nested : Nested τ α) (inner : NestedMoments τ α) (c : ContextRef)
    (l : List AgentRef) (w v : World τ α) (new : List (AgentRef × NewAgent τ))
    (rs : List (AgentRef × Status)) : Prop where
  ends : (w.walk nested c l).2 = v
  births : births c (walkMoments nested inner c l w) = new
  results : results c (walkMoments nested inner c l w) = rs

theorem Walks.nil : Walks nested inner c [] w w [] [] := ⟨rfl, rfl, rfl⟩

/-- A walk runs the task of an agent that rests, and goes on. -/
theorem Walks.cons (hl : w.live? a = some agent) (hr : agent.running = false)
    (h : Does nested inner c (Behavior.exec a agent.task) (w.startTask a) (status, task) v new)
    (h' : Walks nested inner c l (v.endTask a task) u new' rs) :
    Walks nested inner c (a :: l) w u (new ++ new') ((a, status) :: rs) := by
  obtain ⟨hwalk, hmoments⟩ := walk_run nested inner c l hl hr h.ends
  refine ⟨by rw [hwalk]; exact h'.ends, ?_, ?_⟩
  · rw [hmoments, births_cons, births_append, h.births, births_cons, if_pos rfl, if_pos rfl,
      h'.births]
    rfl
  · rw [hmoments, results_cons, results_append, h.results, results_cons, if_pos rfl, if_pos rfl,
      h'.results]
    rfl

end Walks

/-! ## The walk over the minions -/

section Walk

variable {γ : Type} [Arena.Draws γ] {w v : World (Arena.Task γ) Arena.Keep} {c : ContextRef}
  {ctx : Context} (nested : Nested (Arena.Task γ) Arena.Keep)
  (inner : NestedMoments (Arena.Task γ) Arena.Keep) {ever alive : Nat}

open Arena

/-- The visit of a minion changes no other agent. -/
theorem minion_visit {f : Fighter} (hhp : 0 < f.hp ∧ f.hp ≤ 7) (hc : w.context? c = some ctx)
    (hx : ctx.executing = true) (ht : Staffed ctx.types)
    (hrest : w.Rests f.ref (.minion ⟨.ofNat f.hp⟩)) (hn : ctx.statics.Tallies ever alive)
    (hsome : f.hp ≤ 1 → 0 < alive) :
    ∃ v ctx', (∀ {l u new rs}, Walks nested inner c l v u new rs →
        Walks nested inner c (f.ref :: l) w u new ((f.ref, verdict f.hp) :: rs)) ∧
      v.context? c = some ctx' ∧
      ctx.Asked [] (if 1 < f.hp then [] else [f.ref]) ever
        (if 1 < f.hp then alive else alive - 1) ctx' ∧
      v.Rests f.ref (.minion ⟨.ofNat (f.hp - 1)⟩) ∧
      ∀ b, b ≠ f.ref → v.agent? b = w.agent? b := by
  obtain ⟨agent, hl, hr, htask⟩ := hrest
  obtain ⟨v, ctx', hdoes, hagents, hc', hasked⟩ := minion_does nested inner hhp.1 hhp.2
    (w := w.startTask f.ref) hc hx ht (alive_startTask hl) hn hsome
  have hstep : Does nested inner c (Behavior.exec f.ref agent.task) (w.startTask f.ref)
      (verdict f.hp, Task.minion ⟨.ofNat (f.hp - 1)⟩) v [] := by
    rw [htask]
    exact hdoes.bind (.pure _)
  refine ⟨v.endTask f.ref (.minion ⟨.ofNat (f.hp - 1)⟩), ctx', fun h => .cons hl hr hstep h, hc',
    hasked, rests_endTask hl hr (agent?_of_agents hagents _), fun b hb => ?_⟩
  rw [agent?_endTask_ne hb, agent?_of_agents hagents, agent?_startTask_ne hb]

/-- A walk takes a hit point from every minion; those without one ask for their removal. -/
theorem walk_fighters {fs : List Fighter} (hhp : ∀ f ∈ fs, 0 < f.hp ∧ f.hp ≤ 7)
    (hnd : (fs.map (·.ref)).Nodup) (hc : w.context? c = some ctx) (hx : ctx.executing = true)
    (ht : Staffed ctx.types) (hrest : ∀ f ∈ fs, w.Rests f.ref (.minion ⟨.ofNat f.hp⟩))
    (hn : ctx.statics.Tallies ever alive) (hsome : (fallen fs).length ≤ alive) :
    ∃ v ctx', Walks nested inner c (fs.map (·.ref)) w v []
        (fs.map fun f => (f.ref, verdict f.hp)) ∧
      v.context? c = some ctx' ∧
      ctx.Asked [] (fallen fs) ever (alive - (fallen fs).length) ctx' ∧
      (∀ f ∈ fs, v.Rests f.ref (.minion ⟨.ofNat (f.hp - 1)⟩)) ∧
      ∀ b, b ∉ fs.map (·.ref) → v.agent? b = w.agent? b := by
  induction fs generalizing w ctx alive with
  | nil => exact ⟨w, ctx, .nil, hc, .refl hn, by simp, fun _ _ => rfl⟩
  | cons f fs ih =>
    rw [List.forall_mem_cons] at hhp hrest
    rw [List.map_cons, List.nodup_cons] at hnd
    rw [fallen_cons, List.length_append] at hsome
    have hlen : (if 1 < f.hp then [] else [f.ref]).length = if 1 < f.hp then 0 else 1 := by
      split <;> rfl
    rw [hlen] at hsome
    obtain ⟨v, ctx₁, hvisit, hc₁, hasked, hfirst, hother⟩ := minion_visit nested inner hhp.1 hc hx
      ht hrest.1 hn (fun hle => by split at hsome <;> omega)
    have hstill : ∀ g ∈ fs, v.Rests g.ref (.minion ⟨.ofNat g.hp⟩) := by
      intro g hg
      refine (hrest.2 g hg).congr (live?_congr (hother g.ref fun href => ?_))
      exact hnd.1 (href ▸ List.mem_map_of_mem hg)
    obtain ⟨u, ctx₂, hwalk, hc₂, hasked', hrest', hkept⟩ := ih hhp.2 hnd.2 hc₁
      (hasked.executing.trans hx) (hasked.types ▸ ht) hstill hasked.tallies
      (by split at hsome <;> simp [*] <;> omega)
    refine ⟨u, ctx₂, hvisit hwalk, hc₂, ?_, ?_, ?_⟩
    · have hleft : (if 1 < f.hp then alive else alive - 1) - (fallen fs).length =
          alive - ((if 1 < f.hp then 0 else 1) + (fallen fs).length) := by
        split <;> omega
      rw [fallen_cons, List.length_append, hlen, ← hleft]
      exact hasked.trans hasked'
    · rw [List.forall_mem_cons]
      exact ⟨hfirst.congr (live?_congr (hkept _ hnd.1)), hrest'⟩
    · intro b hb
      rw [List.map_cons, List.mem_cons, not_or] at hb
      rw [hkept b hb.2, hother b hb.1]

/-! ## The walk over the spawner -/

/-- What a spawner makes in one step: at most one minion, which nobody knows yet. -/
structure Litter (w v : World (Arena.Task γ) Keep)
    (new : List (AgentRef × NewAgent (Arena.Task γ))) : Prop where
  few : new.length ≤ 1
  unknown : ∀ e ∈ new, w.agent? e.1 = none
  fit : ∀ e ∈ new, e.2.priority = 1 ∧ ∃ hp : Nat, 3 ≤ hp ∧ hp ≤ 7 ∧ e.2.task = .minion ⟨.ofNat hp⟩
  born : ∀ e ∈ new, v.agent? e.1 = some e.2.agent

theorem spawner_does (hdraws : FairDraws γ) {s : Spawner γ} {a : AgentRef}
    (hc : w.context? c = some ctx) (hx : ctx.executing = true) (ht : Staffed ctx.types)
    (hn : ctx.statics.Tallies ever alive) :
    ∃ v ctx' new status s', Does nested inner c (Behavior.exec a (Arena.Task.spawner s)) w
        (status, Arena.Task.spawner s') v new ∧
      s'.spawned = s.spawned + .ofNat new.length ∧ v.context? c = some ctx' ∧
      ctx.Asked (new.map Prod.fst) [] (ever + new.length) (alive + new.length) ctx' ∧
      Litter w v new ∧ ∀ b, b ∉ new.map Prod.fst → v.agent? b = w.agent? b := by
  cases hdraw : (Draws.spawns s.draws).1 with
  | false =>
    refine ⟨w, ctx, [], .running, s.rested, (spawner_idles nested inner _ _ hdraw).bind (.pure _),
      ?_, hc, .refl hn, ⟨by simp, by simp, by simp, by simp⟩, fun _ _ => rfl⟩
    simp [Spawner.rested]
  | true =>
    obtain ⟨v, ctx', hdoes, hagents, hc', hasked⟩ := spawner_spawns nested inner
      Arena.Task.minion
      (fun pool a keep => { keep with pools := keep.pools.keep pool a }) hdraw hc hx ht hn
    have hborn := w.live?_create (s.recruit Arena.Task.minion ctx.id)
    refine ⟨v, ctx', _, .success, s.spent, hdoes.bind (.pure _), rfl, hc', hasked, ?_,
      fun b hb => ?_⟩
    · constructor
      case few => exact Nat.le_refl 1
      case unknown => simp [agent?_eq_none_of_size]
      case fit =>
        intro e he
        obtain rfl := List.mem_singleton.1 he
        exact ⟨rfl, s.recruit_task hdraws ctx.id⟩
      case born => simp [agent?_of_agents hagents, (live?_eq_some.1 hborn).1]
    · rw [agent?_of_agents hagents, agent?_create, if_neg]
      intro hi
      exact hb (by simp [← hi])

/-- The visit of a spawner changes no other agent that there was. -/
theorem spawner_visit (hdraws : FairDraws γ) {s : Spawner γ} {a : AgentRef}
    (hc : w.context? c = some ctx) (hx : ctx.executing = true) (ht : Staffed ctx.types)
    (hrest : w.Rests a (.spawner s)) (hn : ctx.statics.Tallies ever alive) :
    ∃ v ctx' new status s', (∀ {l u rs}, Walks nested inner c l v u [] rs →
        Walks nested inner c (a :: l) w u new ((a, status) :: rs)) ∧
      s'.spawned = s.spawned + .ofNat new.length ∧ v.context? c = some ctx' ∧
      ctx.Asked (new.map Prod.fst) [] (ever + new.length) (alive + new.length) ctx' ∧
      v.Rests a (.spawner s') ∧ Litter w v new ∧
      ∀ b, b ≠ a → b ∉ new.map Prod.fst → v.agent? b = w.agent? b := by
  obtain ⟨agent, hl, hr, htask⟩ := hrest
  obtain ⟨v, ctx', new, status, s', hdoes, hcount, hc', hasked, hlitter, hkept⟩ := spawner_does
    nested inner (w := w.startTask a) (s := s) (a := a) hdraws hc hx ht hn
  rw [← htask] at hdoes
  -- nobody knew the new minion
  have hunknown : ∀ e ∈ new, w.agent? e.1 = none := by
    intro e he
    have hnone := hlitter.unknown e he
    rw [startTask, agent?_modifyAgent] at hnone
    split at hnone
    · exact Option.map_eq_none_iff.1 hnone
    · exact hnone
  have hself : ∀ e ∈ new, e.1 ≠ a := by
    intro e he hea
    have hnone := hunknown e he
    rw [hea, (live?_eq_some.1 hl).1] at hnone
    cases hnone
  refine ⟨v.endTask a (.spawner s'), ctx', new, status, s', fun h => ?_, hcount, hc', hasked, ?_,
    ⟨hlitter.few, hunknown, hlitter.fit, fun e he => ?_⟩, fun b hb hbnew => ?_⟩
  · simpa using Walks.cons hl hr hdoes h
  · refine rests_endTask hl hr (hkept a fun ha => ?_)
    obtain ⟨e, he, hea⟩ := List.mem_map.1 ha
    exact hself e he hea
  · rw [agent?_endTask_ne (hself e he), hlitter.born e he]
  · rw [agent?_endTask_ne hb, hkept b hbnew, agent?_startTask_ne hb]

/-! ## The walk of a round -/

/-- The context of an arena between rounds: the spawner and these minions are registered in the
order in which they came, and as many minions were made so far. -/
structure Census (c : ContextRef) (spawner : AgentRef) (ever : Nat) (fs : List Fighter)
    (w : World (Arena.Task γ) Keep) (ctx : Context) : Prop where
  coherent : w.DistinctIds ∧ w.Coherent
  here : w.context? c = some ctx
  idle : ctx.executing = false
  staffed : Staffed ctx.types
  order : ctx.registry.walkOrder = spawner :: fs.map (·.ref)
  distinct : (spawner :: fs.map (·.ref)).Nodup
  priorities : ∀ e ∈ ctx.registry.entries, e.1 ≤ 1
  lastId : ctx.registry.lastId.toNat = ever + 1
  tallies : ctx.statics.Tallies ever fs.length
  leader : ∃ s, w.Rests spawner (.spawner s) ∧ s.spawned = .ofNat ever
  fighters : ∀ f ∈ fs, w.Rests f.ref (.minion ⟨.ofNat f.hp⟩)
  hp : ∀ f ∈ fs, 0 < f.hp ∧ f.hp ≤ 7
  champion : ∀ a, ctx.registry.named.get? "champion" = some a → a ∈ fs.map (·.ref)

/-- The end of the walk of a round in which these minions were made. -/
structure Walked (c : ContextRef) (spawner : AgentRef) (ever : Nat) (fs : List Fighter)
    (new : List (AgentRef × NewAgent (Arena.Task γ))) (w v : World (Arena.Task γ) Keep)
    (ctx ctx' : Context) : Prop where
  here : v.context? c = some ctx'
  asked : { ctx with executing := true, inUse := true : Context }.Asked (new.map Prod.fst)
    (fallen fs) (ever + new.length) (fs.length + new.length - (fallen fs).length) ctx'
  leader : ∃ s, v.Rests spawner (.spawner s) ∧ s.spawned = .ofNat (ever + new.length)
  fighters : ∀ f ∈ fs, v.Rests f.ref (.minion ⟨.ofNat (f.hp - 1)⟩)
  litter : Litter w v new

/-- The walk of a round visits the spawner and then the minions that there were. -/
theorem Census.walked {spawner : AgentRef} {fs : List Fighter}
    (h : Census c spawner ever fs w ctx) (hdraws : FairDraws γ) (n : Nat) :
    ∃ new status ctx', births c (w.tickMoments n c) = new ∧
      results c (w.tickMoments n c) =
        (spawner, status) :: fs.map (fun f => (f.ref, verdict f.hp)) ∧
      Walked c spawner ever fs new w (w.walkEnd n c ctx) ctx ctx' := by
  obtain ⟨s, hleader, hspawned⟩ := h.leader
  obtain ⟨hspawner, hdistinct⟩ := List.nodup_cons.1 h.distinct
  have hstart := context?_modifyContext_self h.here fun ctx =>
    { ctx with executing := true, inUse := true }
  obtain ⟨v, ctx₁, new, status, s', hvisit, hcount, hc₁, hasked, hafter, hlitter, hkept⟩ :=
    spawner_visit (nested n) (nestedMoments n) (w := w.startWalk c) (s := s) (a := spawner) hdraws
      hstart rfl h.staffed hleader h.tallies
  have hnew : ∀ {a task}, w.Rests a task → a ∉ new.map Prod.fst := by
    intro a task hrest ha
    obtain ⟨e, he, rfl⟩ := List.mem_map.1 ha
    exact hrest.known (hlitter.unknown e he)
  have hstill : ∀ f ∈ fs, v.Rests f.ref (.minion ⟨.ofNat f.hp⟩) := by
    intro f hf
    have hrest := h.fighters f hf
    refine hrest.congr (live?_congr (hkept f.ref (fun hs => ?_) (hnew hrest)))
    exact hspawner (hs ▸ List.mem_map_of_mem hf)
  obtain ⟨u, ctx₂, hwalk, hc₂, hasked', hrest', hkept'⟩ := walk_fighters (nested n)
    (nestedMoments n) h.hp hdistinct hc₁ hasked.executing (hasked.types ▸ h.staffed) hstill
    hasked.tallies (by
      have := length_wane fs
      omega)
  have hround := hvisit hwalk
  have hmoments := tickMoments_eq n h.here h.idle
  rw [h.order] at hmoments
  refine ⟨new, status, ctx₂, hmoments ▸ hround.births, hmoments ▸ hround.results, ?_⟩
  rw [walkEnd, h.order, hround.ends]
  constructor
  case here => exact hc₂
  case asked => simpa using hasked.trans hasked'
  case leader =>
    refine ⟨s', hafter.congr (live?_congr (hkept' _ hspawner)), ?_⟩
    rw [hcount, hspawned, ← UInt32.ofNat_add]
  case fighters => exact hrest'
  case litter =>
    refine ⟨hlitter.few, hlitter.unknown, hlitter.fit, fun e he => ?_⟩
    have hrefs : e.1 ∉ fs.map (·.ref) := by
      intro hmem
      obtain ⟨f, hf, href⟩ := List.mem_map.1 hmem
      exact hnew (h.fighters f hf) (href ▸ List.mem_map_of_mem he)
    rw [hkept' _ hrefs, hlitter.born e he]

end Walk

end World

end AgentScheduler
