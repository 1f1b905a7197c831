/-
The population of an arena. A spawner is put into a fresh context of the arena's classes, and then
there are rounds; between them the application does what it likes, as long as it leaves the context
and its members alone (`Rounds`). After each round there is a census (`Annals`), so the counters
agree with what was made and with what is registered, there are never more than seven minions, and
each of them lives for as many rounds as it has hit points (`population_exact`).
-/
import AgentScheduler.Proofs.ArenaRound
import AgentScheduler.Proofs.Rest

namespace AgentScheduler

namespace World

/-! ## Agents that are known -/

section Known

variable {τ α : Type} {w v : World τ α} {a : AgentRef}

/-- An agent is not forgotten, whatever becomes of it. -/
theorem known_durable (a : AgentRef) :
    Durable fun w : World τ α => ∃ agent, w.agent? a = some agent := by
  have hself {w v : World τ α} (hv : (v.agent? a).map Agent.self = (w.agent? a).map Agent.self)
      (h : ∃ agent, w.agent? a = some agent) : ∃ agent, v.agent? a = some agent := by
    rw [← Option.isSome_iff_exists] at h ⊢
    rw [← Option.isSome_map, hv, Option.isSome_map, h]
  constructor
  case edit => exact fun he h => hself (he.self a) h
  case fade =>
    intro w v _ hf h
    obtain ⟨agent, ha⟩ := h
    exact hf.known ha
  case create =>
    intro w g h
    rw [agent?_create]
    split
    · exact ⟨_, rfl⟩
    · exact h
  case close => exact fun _ ha _ h => (ha a).symm ▸ h
  case flags => exact fun _ _ h => h
  case startWalk => exact fun _ _ h => h
  case finishWalk => exact fun inUse h => hself (finishWalk_self inUse a) h

end Known

/-! ## An arena that is left alone -/

section Undisturbed

open Arena

variable {γ : Type} {w v : World (Arena.Task γ) Keep} {c : ContextRef}
  {ctx : Context} {ever : Nat} {spawner : AgentRef} {fs : List Fighter}

/-- The members of a context stay as they are, and so does the context, apart from its clock, what
was logged of it and the names of other agents than the champion. -/
structure Undisturbed {τ α : Type} (c : ContextRef) (w v : World τ α) : Prop where
  context : ∀ ctx, w.context? c = some ctx → ∃ ctx', v.context? c = some ctx' ∧
    ctx'.seat = ctx.seat ∧ ctx'.types = ctx.types ∧ ctx'.executing = ctx.executing ∧
    ctx'.statics.live = ctx.statics.live ∧
    ctx'.registry.named.get? "champion" = ctx.registry.named.get? "champion"
  members : ∀ ctx, w.context? c = some ctx → ∀ a ∈ ctx.registry.walkOrder, v.live? a = w.live? a

/-- To give up an agent that is not registered in the context disturbs nothing. -/
theorem undisturbed_disown {τ α : Type} {w : World τ α} {a : AgentRef}
    (h : ∀ ctx, w.context? c = some ctx → a ∉ ctx.registry.walkOrder) :
    Undisturbed c w (w.disown a) where
  context ctx hc := ⟨ctx, hc, rfl, rfl, rfl, rfl, rfl⟩
  members ctx hc b hb := by
    have hne : b ≠ a := fun he => h ctx hc (he ▸ hb)
    exact live?_congr (by rw [disown, agent?_modifyAgent, if_neg hne])

theorem Census.undisturbed (h : Census c spawner ever fs w ctx)
    (hv : v.DistinctIds ∧ v.Coherent) (hs : Undisturbed c w v) :
    ∃ ctx', Census c spawner ever fs v ctx' := by
  obtain ⟨ctx', hc', hseat, htypes, hidle, hlive, hchampion⟩ := hs.context ctx h.here
  have hmembers : ∀ a ∈ spawner :: fs.map (·.ref), v.live? a = w.live? a := by
    rw [← h.order]
    exact hs.members ctx h.here
  have hentries : ctx'.registry.entries = ctx.registry.entries :=
    congrArg (fun s => s.2.entries) hseat
  have hget : ctx'.statics.get? = ctx.statics.get? := by
    funext cls name
    rw [Statics.get?, Statics.get?, hlive]
  refine ⟨ctx', ?_⟩
  constructor
  case coherent => exact hv
  case here => exact hc'
  case idle => exact hidle.trans h.idle
  case staffed => exact htypes ▸ h.staffed
  case order => rw [Registry.walkOrder, hentries, ← Registry.walkOrder, h.order]
  case distinct => exact h.distinct
  case priorities => exact hentries ▸ h.priorities
  case lastId => exact (congrArg (fun s => s.2.lastId.toNat) hseat).trans h.lastId
  case tallies =>
    obtain ⟨hwaves, hspawned, halive⟩ := h.tallies
    constructor <;> rwa [hget]
  case leader =>
    obtain ⟨s, hrest, hspawned⟩ := h.leader
    exact ⟨s, hrest.congr (hmembers _ List.mem_cons_self), hspawned⟩
  case fighters =>
    intro f hf
    exact (h.fighters f hf).congr
      (hmembers _ (List.mem_cons_of_mem _ (List.mem_map_of_mem hf)))
  case hp => exact h.hp
  case champion => exact hchampion ▸ h.champion

end Undisturbed

/-! ## A fresh arena -/

section Opening

open Arena

variable {γ : Type} {w : World (Arena.Task γ) Keep} {c : ContextRef}
  {spawner : AgentRef}

/-- A fresh context of the arena's classes, and a new spawner that is registered nowhere. -/
structure Opening (c : ContextRef) (spawner : AgentRef) (w : World (Arena.Task γ) Keep) :
    Prop where
  coherent : w.DistinctIds ∧ w.Coherent
  fresh : ∃ id types stepMillis created, Hierarchy.build declarations = .ok types ∧
    w.context? c = some { Context.new id types stepMillis with createdByDirectory := created }
  ready : ∃ agent s, w.live? spawner = some agent ∧ agent.running = false ∧ agent.priority = 0 ∧
    agent.place.context = .invalid ∧ agent.task = .spawner s ∧ s.spawned = 0

/-- The counters start from zero. -/
theorem tallies_seeded {types : Hierarchy} (h : Hierarchy.build declarations = .ok types) :
    (Statics.seeded types).Tallies 0 0 := by
  have hall : (Hierarchy.build declarations).toOption.any (fun types =>
      (Statics.seeded types).get? "Spawner" "waves" == some (.int 0) &&
        (Statics.seeded types).get? "Minion" "spawned" == some (.int 0) &&
        (Statics.seeded types).get? "Minion" "alive" == some (.int 0)) = true := by decide +kernel
  rw [h] at hall
  simp [Except.toOption] at hall
  exact ⟨hall.1.1, hall.1.2, hall.2⟩

/-- The first agent of a context gets the first id. -/
theorem addAgent_first {τ α : Type} {w : World τ α} {a : AgentRef} {agent : Agent τ}
    {ctx : Context} (hc : w.context? c = some ctx) (hvalid : ctx.id ≠ .invalid)
    (hidle : ctx.executing = false) (hregistry : ctx.registry = {}) (hl : w.live? a = some agent)
    (hplace : agent.place.context = .invalid) :
    w.addAgent c a = ((w.modifyRegistry c (·.register a agent.priority ⟨1⟩)).setPlace a
      ⟨ctx.id, ⟨1⟩⟩).report (.agentAdded ctx.id ⟨1⟩ agent.priority agent.cls) := by
  have hentry : ctx.entry agent.place = .fresh ⟨1⟩ := by
    have hid : (ContextId.invalid == ctx.id) = false := beq_eq_false_iff_ne.2 hvalid.symm
    have hinvalid : ContextId.isValid .invalid = false := by decide
    have hnext : ({} : Registry).nextId? = some ⟨1⟩ := by decide
    simp [Context.entry, Context.holds, hplace, hid, hinvalid, hregistry, hnext]
  simp only [addAgent, hc, hl, hidle, Bool.false_eq_true, if_false, insertNow, hentry]

/-- Once the spawner is registered there is nobody else. -/
theorem Opening.census (h : Opening c spawner w) :
    ∃ ctx, Census c spawner 0 [] (w.addAgent c spawner) ctx := by
  obtain ⟨id, types, stepMillis, created, hbuild, hc⟩ := h.fresh
  obtain ⟨agent, s, hl, hr, hprio, hplace, htask, hspawned⟩ := h.ready
  generalize hctx : ({ Context.new id types stepMillis with createdByDirectory := created } :
    Context) = ctx at hc
  have hregistry : ctx.registry = {} := by rw [← hctx]; rfl
  have hidle : ctx.executing = false := by rw [← hctx]; rfl
  have hadd := addAgent_first hc (h.coherent.1.valid c ctx hc) hidle hregistry hl hplace
  rw [hprio] at hadd
  have hrest : (w.addAgent c spawner).Rests spawner (.spawner s) := by
    obtain ⟨hag, halive⟩ := live?_eq_some.1 hl
    refine ⟨{ agent with place := ⟨ctx.id, ⟨1⟩⟩ }, live?_eq_some.2 ⟨?_, halive⟩, hr, htask⟩
    rw [hadd, agent?_report, setPlace, agent?_modifyAgent, if_pos rfl, agent?_modifyRegistry, hag,
      Option.map_some]
  have hhere : (w.addAgent c spawner).context? c =
      some (ctx.withRegistry (·.register spawner 0 ⟨1⟩)) := by
    rw [hadd, context?_report, context?_setPlace]
    exact context?_modifyContext_self hc _
  refine ⟨ctx.withRegistry (·.register spawner 0 ⟨1⟩), ?_⟩
  constructor
  case coherent => exact coherent_durable.edits addAgent_edits h.coherent
  case here => exact hhere
  case idle => exact hidle
  case staffed => subst hctx; exact staffed hbuild
  case order => simp only [Context.withRegistry, hregistry]; rfl
  case distinct => simp
  case priorities =>
    have hentries : (({} : Registry).register spawner 0 ⟨1⟩).entries = [(0, ⟨1⟩, spawner)] := rfl
    simp only [Context.withRegistry, hregistry, hentries, List.forall_mem_singleton]
    decide
  case lastId => rfl
  case tallies => subst hctx; exact tallies_seeded hbuild
  case leader => exact ⟨s, hrest, hspawned⟩
  case fighters => simp
  case hp => simp
  case champion =>
    intro a ha
    simp only [Context.withRegistry, hregistry] at ha
    cases ha

end Opening

/-! ## Rounds -/

section Rounds

variable {τ α : Type} [Behavior τ α] {w w₀ v : World τ α} {c : ContextRef}
  {hist : List (World τ α)} {k : Nat}

/-- Rounds of a context; between them the application does what it likes, but leaves the context
and its members alone. The worlds are those in which the rounds begin. -/
inductive Rounds (c : ContextRef) (w₀ : World τ α) : List (World τ α) → World τ α → Prop
  | start : Rounds c w₀ [] w₀
  | between {hist : List (World τ α)} {w : World τ α} (d : Deed τ α)
      (hids : (w.perform d).DistinctIds) (hd : Undisturbed c w (w.perform d))
      (h : Rounds c w₀ hist w) :
      Rounds c w₀ hist (w.perform d)
  | tick {hist : List (World τ α)} {w : World τ α} (h : Rounds c w₀ hist w) :
      Rounds c w₀ (hist ++ [w]) (w.tick c).2

/-- Each round begins after the rounds before it. -/
theorem Rounds.take (h : Rounds c w₀ hist w) (hk : hist[k]? = some v) :
    Rounds c w₀ (hist.take k) v ∧ Rounds c w₀ (hist.take (k + 1)) (v.tick c).2 := by
  induction h with
  | start => cases hk
  | between d hids hd h ih => exact ih hk
  | @tick hist w h ih =>
    rcases Nat.lt_or_ge k hist.length with hlt | hge
    · rw [List.getElem?_append_left hlt] at hk
      rw [List.take_append_of_le_length (Nat.le_of_lt hlt), List.take_append_of_le_length hlt]
      exact ih hk
    · rw [List.getElem?_append_right hge, List.getElem?_singleton] at hk
      split at hk
      · next hzero =>
        cases hk
        obtain rfl : k = hist.length := by omega
        rw [List.take_left, List.take_of_length_le (by simp)]
        exact ⟨h, h.tick⟩
      · cases hk

/-- The agents that are made in a round that begins here. -/
def joined (c : ContextRef) (v : World τ α) : List (AgentRef × NewAgent τ) :=
  births c (v.tickMoments nestingLimit c)

/-- How the tasks end that are run in a round that begins here. -/
def outcomes (c : ContextRef) (v : World τ α) : List (AgentRef × Status) :=
  results c (v.tickMoments nestingLimit c)

/-- The agents that are made in rounds. -/
def made (c : ContextRef) (hist : List (World τ α)) : List (AgentRef × NewAgent τ) :=
  hist.flatMap (joined c)

theorem made_append : made c (hist ++ [v]) = made c hist ++ joined c v := by simp [made]

theorem length_made_take (hist : List (World τ α)) (k : Nat) :
    (made c (hist.take k)).length ≤ (made c hist).length := by
  have hsplit : made c hist = made c (hist.take k) ++ made c (hist.drop k) := by
    rw [made, made, made, ← List.flatMap_append, List.take_append_drop]
  rw [hsplit, List.length_append]
  exact Nat.le_add_right _ _

end Rounds

/-! ## The census after rounds -/

section Annals

open Arena

variable {γ : Type} [Arena.Draws γ] {w w₀ u v : World (Arena.Task γ) Keep} {c : ContextRef}
  {spawner : AgentRef} {hist : List (World (Arena.Task γ) Keep)} {k t : Nat}

/-- The minions that join in each of the rounds. -/
def rolls (c : ContextRef) (hist : List (World (Arena.Task γ) Keep)) : List (List Fighter) :=
  hist.map fun v => (joined c v).map enlist

theorem flatten_rolls : (rolls c hist).flatten = (made c hist).map enlist := by
  simp [rolls, made, List.flatMap, List.map_flatten, Function.comp_def]

theorem refs_rolls : (rolls c hist).flatten.map (·.ref) = (made c hist).map Prod.fst := by
  rw [flatten_rolls, List.map_map]
  rfl

/-- What is known after rounds: the context has its census, and the agents that were made are
different minions. -/
structure Annals (c : ContextRef) (spawner : AgentRef) (hist : List (World (Arena.Task γ) Keep))
    (w : World (Arena.Task γ) Keep) : Prop where
  census : ∃ ctx, Census c spawner (made c hist).length (muster (rolls c hist)) w ctx
  known : ∀ e ∈ made c hist, ∃ agent, w.agent? e.1 = some agent
  distinct : (spawner :: (made c hist).map Prod.fst).Nodup
  few : ∀ v ∈ hist, (joined c v).length ≤ 1
  fit : ∀ e ∈ made c hist, ∃ hp : Nat, 3 ≤ hp ∧ hp ≤ 7 ∧ e.2.task = .minion ⟨.ofNat hp⟩

/-- A round adds to the annals; its tasks are those of the spawner and of the minions that were
there. -/
theorem Annals.tick (h : Annals c spawner hist w) (hdraws : FairDraws γ)
    (hroom : (made c (hist ++ [w])).length + 1 < AgentId.invalid.number.toNat) :
    Annals c spawner (hist ++ [w]) (w.tick c).2 ∧ ∃ status,
      outcomes c w = (spawner, status) :: (muster (rolls c hist)).map fun f =>
        (f.ref, verdict f.hp) := by
  obtain ⟨ctx, hcensus⟩ := h.census
  obtain ⟨s, hs, -⟩ := hcensus.leader
  rw [made_append, List.length_append] at hroom
  obtain ⟨status, left, hresults, hlitter, hafter⟩ := hcensus.tick hdraws nestingLimit hroom
  refine ⟨?_, status, hresults⟩
  have hrolls : muster (rolls c (hist ++ [w])) =
      wane (muster (rolls c hist)) ++ (joined c w).map enlist := by
    rw [rolls, List.map_append, List.map_singleton, muster_append]
    rfl
  -- nobody knew the one that was made
  have hunknown : ∀ a ∈ (joined c w).map Prod.fst, w.agent? a = none := by
    intro a ha
    obtain ⟨e, he, rfl⟩ := List.mem_map.1 ha
    exact hlitter.unknown e he
  constructor
  case census =>
    refine ⟨left, ?_⟩
    rw [made_append, List.length_append, hrolls]
    exact hafter
  case known =>
    intro e he
    rw [made_append, List.mem_append] at he
    rcases he with hold | hnew
    · exact ((known_durable e.1).happens (tickWith_happens (traced_nested nestingLimit))
        (h.known e hold)).1
    · have hjoin : enlist e ∈ wane (muster (rolls c hist)) ++ (joined c w).map enlist :=
        List.mem_append_right _ (List.mem_map_of_mem hnew)
      exact Option.ne_none_iff_exists'.1 (hafter.fighters _ hjoin).known
  case distinct =>
    rw [made_append, List.map_append, ← List.cons_append, List.nodup_append]
    refine ⟨h.distinct, hlitter.nodup, fun a ha b hb he => ?_⟩
    have hnone := hunknown b hb
    rw [← he] at hnone
    rcases List.mem_cons.1 ha with rfl | ha
    · exact hs.known hnone
    · obtain ⟨e, hmade, rfl⟩ := List.mem_map.1 ha
      obtain ⟨agent, hag⟩ := h.known e hmade
      rw [hag] at hnone
      cases hnone
  case few =>
    intro v hv
    rcases List.mem_append.1 hv with hv | hv
    · exact h.few v hv
    · rw [List.mem_singleton.1 hv]
      exact hlitter.few
  case fit =>
    intro e he
    rw [made_append, List.mem_append] at he
    rcases he with hold | hnew
    · exact h.fit e hold
    · exact (hlitter.fit e hnew).2

/-- The annals of rounds that follow an opening. -/
theorem Rounds.annals (h : Rounds c (u.addAgent c spawner) hist w) (hopen : Opening c spawner u)
    (hdraws : FairDraws γ)
    (hroom : (made c hist).length + 1 < AgentId.invalid.number.toNat) :
    Annals c spawner hist w := by
  induction h with
  | start => exact ⟨hopen.census, by simp [made], by simp [made], by simp, by simp [made]⟩
  | @between hist w d hids hd h ih =>
    have hannals := ih hroom
    obtain ⟨ctx, hcensus⟩ := hannals.census
    refine { hannals with census := ?_, known := fun e he => ?_ }
    · refine hcensus.undisturbed ?_ hd
      refine (coherent_durable.perform (N := fun _ => True) (D := DistinctIds)
        (fun id types stepMillis _ hids hw => ?_) d trivial hids hcensus.coherent).1
      exact ⟨hids, hw.2.newContext id types stepMillis hids⟩
    · exact ((known_durable e.1).perform (N := fun _ => True) (D := fun _ => True)
        (fun _ _ _ _ _ hw => hw) d trivial trivial (hannals.known e he)).1
  | @tick hist w h ih =>
    have hbefore : (made c hist).length ≤ (made c (hist ++ [w])).length := by
      rw [made_append, List.length_append]
      exact Nat.le_add_right _ _
    exact ((ih (by omega)).tick hdraws hroom).1

/-! ## Lives of minions -/

/-- A minion that is made in round `t` with `hp` hit points runs in the rounds after it, as many as
it has hit points, and fails in the last one; until then it is registered. -/
structure Lifetime (c : ContextRef) (hist : List (World (Arena.Task γ) Keep)) (t hp : Nat)
    (a : AgentRef) : Prop where
  runs : ∀ (k : Nat) v, hist[k]? = some v → ∀ status, (a, status) ∈ outcomes c v ↔
    t < k ∧ k ≤ t + hp ∧ status = if k < t + hp then .running else .failure
  once : ∀ (k : Nat) v, hist[k]? = some v → ((outcomes c v).map Prod.fst).Nodup
  registered : ∀ (k : Nat) v, hist[k]? = some v →
    ((v.tick c).2.containsAgent c a = true ↔ t ≤ k ∧ k < t + hp)

/-- A minion that was made at some time has its hit points. -/
theorem Annals.enlisted (h : Annals c spawner hist w) {f : Fighter}
    (hf : f ∈ (rolls c hist).flatten) : 3 ≤ f.hp ∧ f.hp ≤ 7 := by
  rw [flatten_rolls] at hf
  obtain ⟨e, he, rfl⟩ := List.mem_map.1 hf
  obtain ⟨hp, hlow, hhigh, htask⟩ := h.fit e he
  rw [enlist, htask, hitPoints_minion hhigh]
  exact ⟨hlow, hhigh⟩

/-- Whether a minion is there after some of the rounds. -/
theorem Annals.mem_muster (h : Annals c spawner hist w) (ht : hist[t]? = some v)
    {e : AgentRef × NewAgent (Arena.Task γ)} (he : e ∈ joined c v) (hk : k ≤ hist.length)
    (hp : Nat) : (⟨e.1, hp⟩ : Fighter) ∈ muster (rolls c (hist.take k)) ↔
      0 < hp ∧ t < k ∧ hp + k = e.2.task.hitPoints + t + 1 := by
  have hroll : (rolls c hist)[t]? = some ((joined c v).map enlist) := by
    rw [rolls, List.getElem?_map, ht, Option.map_some]
  have hdistinct : ((rolls c hist).flatten.map (·.ref)).Nodup := by
    rw [refs_rolls]
    exact (List.nodup_cons.1 h.distinct).2
  have hpos : ∀ f ∈ (rolls c hist).flatten, 0 < f.hp := by
    intro f hf
    have := h.enlisted hf
    omega
  rw [show rolls c (hist.take k) = (rolls c hist).take k from List.map_take ..]
  refine mem_muster_iff hpos hdistinct hroll (e := enlist e) (List.mem_map_of_mem he) ?_ hp
  rwa [rolls, List.length_map]

theorem Annals.ne_spawner (h : Annals c spawner hist w) {e : AgentRef × NewAgent (Arena.Task γ)}
    (he : e ∈ made c hist) : e.1 ≠ spawner := by
  intro hs
  exact (List.nodup_cons.1 h.distinct).1 (hs ▸ List.mem_map_of_mem he)

section Lives

variable {v' : World (Arena.Task γ) Keep} {e : AgentRef × NewAgent (Arena.Task γ)}
  (h : Rounds c (u.addAgent c spawner) hist w) (hopen : Opening c spawner u)
  (hdraws : FairDraws γ) (hroom : (made c hist).length + 1 < AgentId.invalid.number.toNat)

include h hopen hdraws hroom

/-- The annals before and after each of the rounds, and how its tasks end. -/
theorem Rounds.annals_at (hk : hist[k]? = some v) : Annals c spawner (hist.take k) v ∧
    Annals c spawner (hist.take (k + 1)) (v.tick c).2 ∧ ∃ status, outcomes c v =
      (spawner, status) :: (muster (rolls c (hist.take k))).map fun f => (f.ref, verdict f.hp) := by
  obtain ⟨hlt, hv⟩ := List.getElem?_eq_some_iff.1 hk
  obtain ⟨hbefore, -⟩ := h.take hk
  have hsucc : hist.take (k + 1) = hist.take k ++ [v] := by
    rw [List.take_succ_eq_append_getElem hlt, hv]
  have hfit := length_made_take (c := c) hist k
  have hfit' := length_made_take (c := c) hist (k + 1)
  have hannals := hbefore.annals hopen hdraws (by omega)
  rw [hsucc] at hfit' ⊢
  exact ⟨hannals, hannals.tick hdraws (by omega)⟩

variable (ht : hist[t]? = some v) (he : e ∈ joined c v)

include ht he

/-- The minion runs in the rounds after the one in which it was made. -/
theorem Rounds.mem_outcomes (hk : hist[k]? = some v') (status : Status) :
    (e.1, status) ∈ outcomes c v' ↔ t < k ∧ k ≤ t + e.2.task.hitPoints ∧
      status = if k < t + e.2.task.hitPoints then .running else .failure := by
  obtain ⟨hlt, -⟩ := List.getElem?_eq_some_iff.1 hk
  have hall := h.annals hopen hdraws hroom
  have hspawner := hall.ne_spawner (List.mem_flatMap.2 ⟨v, List.mem_of_getElem? ht, he⟩)
  obtain ⟨-, -, first, houtcomes⟩ := h.annals_at hopen hdraws hroom hk
  have hmem (hp : Nat) := hall.mem_muster ht he (Nat.le_of_lt hlt) hp
  rw [houtcomes, List.mem_cons, List.mem_map]
  constructor
  · intro hout
    rcases hout with hfirst | hfighter
    · exact absurd (congrArg Prod.fst hfirst) hspawner
    · obtain ⟨f, hf, heq⟩ := hfighter
      obtain ⟨a, hp⟩ := f
      obtain ⟨rfl, rfl⟩ := Prod.mk.inj heq
      obtain ⟨hpos, hlater, hpoints⟩ := (hmem hp).1 hf
      have hlast : 1 < hp ↔ k < t + e.2.task.hitPoints := by omega
      exact ⟨hlater, by omega, by simp only [verdict, hlast]⟩
  · intro hout
    obtain ⟨hlater, hbefore, hstatus⟩ := hout
    have hf := (hmem (e.2.task.hitPoints + t + 1 - k)).2 ⟨by omega, hlater, by omega⟩
    have hlast : 1 < e.2.task.hitPoints + t + 1 - k ↔ k < t + e.2.task.hitPoints := by omega
    refine .inr ⟨_, hf, ?_⟩
    simp only [hstatus, verdict, hlast]

/-- The minion is registered until its last hit point is gone. -/
theorem Rounds.containsAgent_iff (hk : hist[k]? = some v') :
    (v'.tick c).2.containsAgent c e.1 = true ↔ t ≤ k ∧ k < t + e.2.task.hitPoints := by
  obtain ⟨hlt, -⟩ := List.getElem?_eq_some_iff.1 hk
  have hall := h.annals hopen hdraws hroom
  have hspawner := hall.ne_spawner (List.mem_flatMap.2 ⟨v, List.mem_of_getElem? ht, he⟩)
  obtain ⟨-, hannals, -⟩ := h.annals_at hopen hdraws hroom hk
  obtain ⟨ctx, hcensus⟩ := hannals.census
  have hmem (hp : Nat) := hall.mem_muster ht he hlt hp
  rw [containsAgent_eq hcensus.coherent.2 hcensus.here,
    isAt_iff_entry hcensus.coherent.2 hcensus.here, ← Registry.mem_walkOrder, hcensus.order,
    List.mem_cons, or_iff_right hspawner, List.mem_map]
  constructor
  · intro hat
    obtain ⟨-, f, hf, href⟩ := hat
    obtain ⟨a, hp⟩ := f
    obtain rfl : a = e.1 := href
    obtain ⟨hpos, hlater, hpoints⟩ := (hmem hp).1 hf
    omega
  · intro hat
    have hf := (hmem (e.2.task.hitPoints + t - k)).2 ⟨by omega, by omega, by omega⟩
    obtain ⟨agent, hl, -⟩ := hcensus.fighters _ hf
    exact ⟨alive_of_live? hl, _, hf, rfl⟩

theorem Rounds.lifetime : Lifetime c hist t e.2.task.hitPoints e.1 where
  runs _ _ hk := h.mem_outcomes hopen hdraws hroom ht he hk
  once _ _ hk := by
    obtain ⟨hannals, -, first, houtcomes⟩ := h.annals_at hopen hdraws hroom hk
    obtain ⟨ctx, hcensus⟩ := hannals.census
    rw [houtcomes, List.map_cons, List.map_map]
    exact hcensus.distinct
  registered _ _ hk := h.containsAgent_iff hopen hdraws hroom ht he hk

end Lives

/-! ## The population -/

/-- The agents of an arena: the spawner, and then the minions. -/
structure Garrison (c : ContextRef) (spawner : AgentRef) (minions : List AgentRef)
    (w : World (Arena.Task γ) Keep) (ctx : Context) : Prop where
  order : ctx.registry.walkOrder = spawner :: minions
  distinct : (spawner :: minions).Nodup
  alive : w.getStatic c "Minion" "alive" = some (.int (.ofNat minions.length))
  count : (w.counts ctx.registry).agents = minions.length + 1
  few : minions.length ≤ 7
  fit : ∀ a ∈ minions, ∃ m : Minion, w.Rests a (.minion m) ∧ 1 ≤ m.hp.toInt ∧ m.hp.toInt ≤ 7
  champion : ∀ a, ctx.registry.named.get? "champion" = some a → a ∈ minions

/-- What is to be said of an arena after rounds. -/
structure Population (c : ContextRef) (spawner : AgentRef)
    (hist : List (World (Arena.Task γ) Keep)) (w : World (Arena.Task γ) Keep) : Prop where
  /-- The minions that were made are counted in three places. -/
  spawned : w.getStatic c "Minion" "spawned" = some (.int (.ofNat (made c hist).length))
  waves : w.getStatic c "Spawner" "waves" = some (.int (.ofNat (made c hist).length))
  saved : w.saveTask spawner = .ok (.obj [("spawned", .int (made c hist).length)])
  /-- Those that are registered are counted as alive. -/
  registered : ∃ ctx minions, w.context? c = some ctx ∧ Garrison c spawner minions w ctx
  /-- Each lives as long as it has hit points. -/
  lives : ∀ (t : Nat) v, hist[t]? = some v → ∀ e ∈ joined c v, ∃ m : Minion, e.2.task = .minion m ∧
    3 ≤ m.hp.toInt ∧ m.hp.toInt ≤ 7 ∧ Lifetime c hist t m.hp.toInt.toNat e.1

theorem Annals.garrison (h : Annals c spawner hist w) :
    ∃ ctx minions, w.context? c = some ctx ∧ Garrison c spawner minions w ctx := by
  obtain ⟨ctx, hcensus⟩ := h.census
  have hpos : ∀ f ∈ (rolls c hist).flatten, 0 < f.hp := by
    intro f hf
    have := h.enlisted hf
    omega
  refine ⟨ctx, (muster (rolls c hist)).map (·.ref), hcensus.here, ?_⟩
  constructor
  case order => exact hcensus.order
  case distinct => exact hcensus.distinct
  case alive =>
    rw [getStatic, hcensus.here, Option.bind_some, hcensus.tallies.alive, List.length_map]
  case count =>
    have hsound := (hcensus.coherent.2.sound c ctx hcensus.here).isConsistent
    have hcount := (Registry.isConsistent_iff_count.1 hsound).1
    rw [← Registry.length_entries] at hcount
    have horder := congrArg List.length hcensus.order
    rw [Registry.walkOrder, List.length_map, hcount] at horder
    exact horder
  case few =>
    rw [List.length_map]
    refine length_muster_le hpos (fun e he => (h.enlisted he).2) fun new hnew => ?_
    obtain ⟨v, hv, rfl⟩ := List.mem_map.1 hnew
    rw [List.length_map]
    exact h.few v hv
  case fit =>
    intro a ha
    obtain ⟨f, hf, rfl⟩ := List.mem_map.1 ha
    obtain ⟨hlow, hhigh⟩ := hcensus.hp f hf
    refine ⟨_, hcensus.fighters f hf, ?_⟩
    rw [toInt_hitPoints hhigh]
    omega
  case champion => exact hcensus.champion

/-- After any number of rounds of an arena that is left alone otherwise, whatever is drawn: the
counters agree with what was made and with what is registered, there are never more than seven
minions, and each of them lives for as many rounds as it has hit points. -/
theorem population_exact (hopen : Opening c spawner u)
    (h : Rounds c (u.addAgent c spawner) hist w) (hdraws : FairDraws γ)
    (hroom : (made c hist).length + 1 < AgentId.invalid.number.toNat) :
    Population c spawner hist w := by
  have hannals := h.annals hopen hdraws hroom
  obtain ⟨ctx, hcensus⟩ := hannals.census
  constructor
  case spawned =>
    rw [getStatic, hcensus.here, Option.bind_some, hcensus.tallies.spawned]
  case waves =>
    rw [getStatic, hcensus.here, Option.bind_some, hcensus.tallies.waves]
  case saved =>
    obtain ⟨s, ⟨agent, hl, hr, htask⟩, hspawned⟩ := hcensus.leader
    have hfits : AgentId.invalid.number.toNat < UInt32.size := by decide
    have hcount : s.spawned.toNat = (made c hist).length := by
      rw [hspawned, UInt32.toNat_ofNat_of_lt' (by omega)]
    simp only [saveTask, hl, hr, Bool.false_eq_true, if_false, htask]
    show Except.ok s.save = _
    rw [Spawner.save, hcount]
  case registered => exact hannals.garrison
  case lives =>
    intro t v ht e he
    obtain ⟨hp, hlow, hhigh, htask⟩ :=
      hannals.fit e (List.mem_flatMap.2 ⟨v, List.mem_of_getElem? ht, he⟩)
    have hlife := h.lifetime hopen hdraws hroom ht he
    refine ⟨_, htask, ?_⟩
    rw [htask] at hlife
    simp only [toInt_hitPoints hhigh]
    rw [Task.hitPoints, toInt_hitPoints hhigh] at hlife
    exact ⟨by omega, by omega, hlife⟩

end Annals

section Sample

open Arena

/-- The classes of the arena. -/
def arenaTypes : Hierarchy := (Hierarchy.build declarations).toOption.getD { classes := .empty }

theorem build_arenaTypes : Hierarchy.build declarations = .ok arenaTypes := by
  have hok : (Hierarchy.build declarations).toOption.isSome = true := by decide +kernel
  rw [arenaTypes]
  cases h : Hierarchy.build declarations with
  | ok types => rfl
  | error e => rw [h] at hok; cases hok

/-- A fresh arena and its spawner. -/
def openingDeeds : List (Deed (Arena.Task Generator) Keep) :=
  [.newContext ⟨0⟩ arenaTypes 100,
    .create ⟨"spawner-0", "Spawner", 0, .spawner ⟨.ofSeed 42, "0", 0⟩⟩]

def openingWorld : World (Arena.Task Generator) Keep := run openingDeeds { host := { app := {} } }

theorem opening_openingWorld : Opening ⟨0⟩ ⟨0⟩ openingWorld where
  coherent := by
    have hids : ∀ v ∈ points openingDeeds ({ host := { app := {} } } :
        World (Arena.Task Generator) Keep), v.contextIds.Nodup ∧ .invalid ∉ v.contextIds := by
      decide +kernel
    have hd : ∀ v ∈ points openingDeeds ({ host := { app := {} } } :
        World (Arena.Task Generator) Keep), v.DistinctIds := fun v hv => .of_contextIds (hids v hv)
    have hend := run_mem_points openingDeeds ({ host := { app := {} } } :
      World (Arena.Task Generator) Keep)
    exact ⟨hd _ hend, coherent_points _ _ hd _ hend⟩
  fresh := ⟨⟨0⟩, arenaTypes, 100, false, build_arenaTypes, rfl⟩
  ready := ⟨_, _, rfl, rfl, rfl, rfl, rfl, rfl⟩

/-- Rounds with nothing between them. -/
def playRounds {γ : Type} [Draws γ] (c : ContextRef) : Nat → World (Arena.Task γ) Keep →
    List (World (Arena.Task γ) Keep) × World (Arena.Task γ) Keep
  | 0, w => ([], w)
  | n + 1, w => (w :: (playRounds c n (w.tick c).2).1, (playRounds c n (w.tick c).2).2)

theorem Rounds.play {γ : Type} [Draws γ] {c : ContextRef} {w₀ w : World (Arena.Task γ) Keep}
    {hist : List (World (Arena.Task γ) Keep)} (h : Rounds c w₀ hist w) (n : Nat) :
    Rounds c w₀ (hist ++ (playRounds c n w).1) (playRounds c n w).2 := by
  induction n generalizing hist w with
  | zero => simpa [playRounds] using h
  | succ n ih => simpa [playRounds] using ih h.tick

/-- Five rounds, after which the first minion has left. -/
def earlyRounds : List (World (Arena.Task Generator) Keep) × World (Arena.Task Generator) Keep :=
  playRounds ⟨0⟩ 5 (openingWorld.addAgent ⟨0⟩ ⟨0⟩)

/-- The application gives it up, and there are three more rounds. -/
def lateRounds : List (World (Arena.Task Generator) Keep) × World (Arena.Task Generator) Keep :=
  playRounds ⟨0⟩ 3 (earlyRounds.2.disown ⟨1⟩)

theorem population_exact_sample : (made ⟨0⟩ (earlyRounds.1 ++ lateRounds.1)).length = 5 ∧
    Population ⟨0⟩ ⟨0⟩ (earlyRounds.1 ++ lateRounds.1) lateRounds.2 := by
  have hmade : (made ⟨0⟩ (earlyRounds.1 ++ lateRounds.1)).length = 5 := by decide +kernel
  have hids : (earlyRounds.2.disown ⟨1⟩).contextIds.Nodup ∧
      .invalid ∉ (earlyRounds.2.disown ⟨1⟩).contextIds := by decide +kernel
  have hgone : (earlyRounds.2.context? ⟨0⟩).all
      (fun ctx => !ctx.registry.walkOrder.contains ⟨1⟩) = true := by decide +kernel
  have hearly : Rounds ⟨0⟩ (openingWorld.addAgent ⟨0⟩ ⟨0⟩) earlyRounds.1 earlyRounds.2 :=
    Rounds.start.play 5
  have hbetween : Rounds ⟨0⟩ (openingWorld.addAgent ⟨0⟩ ⟨0⟩) earlyRounds.1
      (earlyRounds.2.disown ⟨1⟩) := by
    refine .between (.disown ⟨1⟩) (.of_contextIds hids) (undisturbed_disown fun ctx hc => ?_) hearly
    rw [hc] at hgone
    simpa using hgone
  exact ⟨hmade, population_exact opening_openingWorld (hbetween.play 3) fairDraws_generator
    (hmade ▸ by decide)⟩

end Sample

end World

end AgentScheduler
