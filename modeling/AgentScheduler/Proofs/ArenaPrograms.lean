/-
What the arena's tasks do while they run. `Does` says how a program ends, in which world, which
agents it makes on the way, and that no other task is through meanwhile; programs that follow each
other are told by `Does.bind`. A minion and a spawner are told whole (`minion_does`,
`spawner_idles`, `spawner_spawns`): what they ask of their context waits for the end of the walk,
apart from the counters and the champion.
-/
import AgentScheduler.Arena.Run
import AgentScheduler.Proofs.Naming
import AgentScheduler.Proofs.WalkOrder

namespace AgentScheduler

/-! ## Births -/

section Births

variable {τ α : Type} {c : ContextRef} {T T' : List (Moment τ α)}

/-- The agent that is made at a moment, if one is, and what it is made of. -/
def Moment.birth? (m : Moment τ α) : Option (AgentRef × NewAgent τ) :=
  match m.what with
  | .asks (.create g) => some ((m.world.create g).1, g)
  | _ => none

/-- The agents that tasks make which a context executes, in order. -/
def births (c : ContextRef) (T : List (Moment τ α)) : List (AgentRef × NewAgent τ) :=
  T.filterMap fun m => if m.context = c then m.birth? else none

theorem births_append : births c (T ++ T') = births c T ++ births c T' := List.filterMap_append

theorem births_cons {m : Moment τ α} : births c (m :: T) =
    (if m.context = c then m.birth? else none).toList ++ births c T := by
  rw [births, List.filterMap_cons]
  cases if m.context = c then m.birth? else none <;> rfl

/-- The agent that is made of this. -/
def NewAgent.agent (g : NewAgent τ) : Agent τ :=
  ⟨g.name, g.cls, g.priority, {}, true, false, g.task⟩

/-- A new agent is alive. -/
theorem World.live?_create (w : World τ α) (g : NewAgent τ) :
    (w.create g).2.live? ⟨w.agents.size⟩ = some g.agent := by
  rw [live?_eq_some, agent?_create, if_pos rfl]
  exact ⟨rfl, rfl⟩

theorem World.agent?_of_agents {w v : World τ α} (h : v.agents = w.agents) (a : AgentRef) :
    v.agent? a = w.agent? a := by
  rw [agent?, agent?, h]

end Births

/-! ## Programs one after the other -/

namespace World

variable {τ α β δ : Type} [Behavior τ α] {nested : Nested τ α} {inner : NestedMoments τ α}
  {c : ContextRef} {w v u : World τ α} {ctx : Context} {new new' : List (AgentRef × NewAgent τ)}

/-- One program, then another: the second starts where the first ended. -/
theorem run_bind (p : Prog τ α β) (f : β → Prog τ α δ) (w : World τ α) :
    (p >>= f).run nested c w =
      (f (p.run nested c w).1).run nested c (p.run nested c w).2 := by
  induction p generalizing w with
  | done b => rfl
  | call r k ih => exact ih _ _

theorem programMoments_bind (p : Prog τ α β) (f : β → Prog τ α δ) (w : World τ α) :
    programMoments nested inner c (p >>= f) w = programMoments nested inner c p w ++
      programMoments nested inner c (f (p.run nested c w).1) (p.run nested c w).2 := by
  induction p generalizing w with
  | done b => rfl
  | call r k ih =>
    show _ :: (_ ++ programMoments nested inner c (k (w.answer nested c r).1 >>= f)
      (w.answer nested c r).2) = _
    rw [ih]
    simp [programMoments, Prog.run]

/-- How a program ends that runs no other task, and which agents it makes. -/
structure Does (nested : Nested τ α) (inner : NestedMoments τ α) (c : ContextRef)
    (p : Prog τ α β) (w : World τ α) (b : β) (v : World τ α)
    (new : List (AgentRef × NewAgent τ)) : Prop where
  ends : p.run nested c w = (b, v)
  births : births c (programMoments nested inner c p w) = new
  results : results c (programMoments nested inner c p w) = []

namespace Does

theorem pure (b : β) : Does nested inner c (Pure.pure b) w b w [] := ⟨rfl, rfl, rfl⟩

theorem bind {p : Prog τ α β} {f : β → Prog τ α δ} {b : β} {d : δ}
    (h : Does nested inner c p w b v new) (h' : Does nested inner c (f b) v d u new') :
    Does nested inner c (p >>= f) w d u (new ++ new') where
  ends := by rw [run_bind, h.ends, h'.ends]
  births := by rw [programMoments_bind, births_append, h.births, h.ends, h'.births]
  results := by rw [programMoments_bind, results_append, h.results, h.ends, h'.results]; rfl

/-- A request that runs no task. -/
theorem ask {r : Request τ α} (hp : r.phase? c = none) :
    Does nested inner c (Prog.ask r) w (w.answer nested c r).1 (w.answer nested c r).2
      (⟨c, .asks r, w⟩ : Moment τ α).birth?.toList := by
  have hmoments : programMoments nested inner c (Prog.ask r) w = [⟨c, .asks r, w⟩] := by
    simp [Prog.ask, programMoments, requestMoments_none inner w hp]
  refine ⟨rfl, ?_, ?_⟩
  · rw [hmoments, births_cons, if_pos rfl]
    exact List.append_nil _
  · rw [hmoments, results_cons, if_pos rfl]
    rfl

theorem contextId (hc : w.context? c = some ctx) :
    Does nested inner c Prog.contextId w ctx.id w [] := by
  have h : Does nested inner c Prog.contextId w (((w.context? c).map (·.id)).getD .invalid) w [] :=
    ask rfl
  rwa [hc] at h

theorem add (a : AgentRef) : Does nested inner c (Prog.add a) w () (w.addAgent c a) [] := ask rfl

theorem remove (a : AgentRef) :
    Does nested inner c (Prog.remove a) w () (w.removeAgent c a) [] := ask rfl

theorem bindName (name : String) (a : AgentRef) :
    Does nested inner c (Prog.bindName name a) w (w.bind c name a).1 (w.bind c name a).2 [] :=
  ask rfl

theorem lookup (name : String) :
    Does nested inner c (Prog.lookup name) w (w.lookup c name) w [] := ask rfl

theorem getStatic (cls name : String) :
    Does nested inner c (Prog.getStatic cls name) w (w.getStatic c cls name) w [] := ask rfl

theorem setStatic (cls name : String) (x : Value) :
    Does nested inner c (Prog.setStatic cls name x) w (w.setStatic c cls name x).1
      (w.setStatic c cls name x).2 [] := ask rfl

theorem create (g : NewAgent τ) : Does nested inner c (Prog.create g) w
    (w.create g).1 (w.create g).2 [((w.create g).1, g)] := ask rfl

theorem setApp (f : α → α) : Does nested inner c (Prog.setApp f) w ()
    { w with host := { w.host with app := f w.host.app } } [] := ask rfl

end Does

end World

/-! ## Counters -/

namespace Statics

/-- The live values with one more or another one. -/
def put (s : Statics) (cls name : String) (v : Value) : Statics :=
  { s with live := s.live.insert cls (((s.live.get? cls).getD .empty).insert name v) }

theorem get?_put (s : Statics) (cls name cls' name' : String) (v : Value) :
    (s.put cls name v).get? cls' name' =
      if cls' = cls ∧ name' = name then some v else s.get? cls' name' := by
  simp only [get?, put, SortedMap.get?_insert]
  by_cases hcls : cls' = cls
  · subst hcls
    by_cases hname : name' = name
    · simp [SortedMap.get?_insert, hname]
    · cases s.live.get? cls' <;> simp [SortedMap.get?_insert, hname]
  · simp [hcls]

theorem set_eq_put {s : Statics} {types : Hierarchy} {cls : String}
    (ht : types.contains cls = true) (name : String) (i : Int64) :
    s.set types cls name (.int i) = .ok (s.put cls name (.int i)) := by
  simp [set, ht, Value.isFinite, put]
  rfl

/-- The counters of an arena: the minions there were, told twice, and those that are alive. -/
structure Tallies (s : Statics) (ever alive : Nat) : Prop where
  waves : s.get? "Spawner" "waves" = some (.int (.ofNat ever))
  spawned : s.get? "Minion" "spawned" = some (.int (.ofNat ever))
  alive : s.get? "Minion" "alive" = some (.int (.ofNat alive))

end Statics

namespace Arena

/-- What the tasks of an arena need of its classes. -/
structure Staffed (types : Hierarchy) : Prop where
  spawner : types.contains "Spawner" = true
  minion : types.contains "Minion" = true
  champion : types.isValidInstanceName "champion" "Minion" = true

theorem staffed {types : Hierarchy} (h : Hierarchy.build declarations = .ok types) :
    Staffed types := by
  have hall : (Hierarchy.build declarations).toOption.any (fun types =>
      types.contains "Spawner" && types.contains "Minion" &&
        types.isValidInstanceName "champion" "Minion") = true := by decide +kernel
  rw [h] at hall
  simp [Except.toOption] at hall
  exact ⟨hall.1.1, hall.1.2, hall.2⟩

end Arena

namespace Context

/-- What tasks of the arena do to their context while it walks: they ask it for additions and
removals and they count; only one of the agents to be added may become the champion. -/
structure Asked (ctx : Context) (adds removes : List AgentRef) (ever alive : Nat)
    (ctx' : Context) : Prop where
  rest : ctx' = { ctx with
    statics := ctx'.statics
    registry := { ctx.registry with
      named := ctx'.registry.named
      pendingAdd := ctx.registry.pendingAdd ++ adds
      pendingRemove := ctx.registry.pendingRemove ++ removes } }
  champion : ∀ a, ctx'.registry.named.get? "champion" = some a →
    a ∈ adds ∨ ctx.registry.named.get? "champion" = some a
  tallies : ctx'.statics.Tallies ever alive

namespace Asked

variable {ctx ctx₁ ctx₂ : Context} {adds adds' removes removes' : List AgentRef}
  {ever ever' alive alive' : Nat}

theorem refl (h : ctx.statics.Tallies ever alive) : Asked ctx [] [] ever alive ctx where
  rest := by simp
  champion a ha := .inr ha
  tallies := h

theorem trans (h : Asked ctx adds removes ever alive ctx₁)
    (h' : Asked ctx₁ adds' removes' ever' alive' ctx₂) :
    Asked ctx (adds ++ adds') (removes ++ removes') ever' alive' ctx₂ where
  rest := by
    rw [h'.rest, h.rest]
    simp
  champion a ha := by
    rcases h'.champion a ha with hnew | hold
    · exact .inl (List.mem_append_right _ hnew)
    · exact (h.champion a hold).imp_left (List.mem_append_left _)
  tallies := h'.tallies

end Asked

end Context

namespace World

variable {τ α : Type} [Behavior τ α] (nested : Nested τ α) (inner : NestedMoments τ α)
  {c : ContextRef} {w v : World τ α} {ctx : Context} {a : AgentRef} {ever alive : Nat}

/-! ## The programs of the arena -/

/-- A counter of a declared class goes up or down. -/
theorem bump_does (cls name : String) {n : Int64} (delta : Int64) (hc : w.context? c = some ctx)
    (ht : ctx.types.contains cls = true) (hn : ctx.statics.get? cls name = some (.int n)) :
    ∃ v, v.agents = w.agents ∧ v.context? c = some
        { ctx with statics := ctx.statics.put cls name (.int (n + delta)) } ∧
      Does nested inner c (Arena.bump cls name delta) w () v [] := by
  have hget : w.getStatic c cls name = some (.int n) := by
    rw [World.getStatic, hc, Option.bind_some, hn]
  have hset : w.setStatic c cls name (.int (n + delta)) = (.ok (), w.modifyContext c fun ctx' =>
      { ctx' with statics := ctx.statics.put cls name (.int (n + delta)) }) := by
    simp only [World.setStatic, hc, Statics.set_eq_put ht]
  have hread : Does nested inner c _ w _ w [] := .getStatic cls name
  have hwrite : Does nested inner c _ w _ _ [] := .setStatic cls name (.int (n + delta))
  rw [hget] at hread
  rw [hset] at hwrite
  refine ⟨_, ?_, context?_modifyContext_self hc _, hread.bind (hwrite.bind (.pure ()))⟩
  rfl

omit [Behavior τ α] in
theorem removeAgent_waits (hc : w.context? c = some ctx) (hx : ctx.executing = true)
    (ha : w.alive a = true) : (w.removeAgent c a).agents = w.agents ∧
      (w.removeAgent c a).context? c = some (ctx.withRegistry fun r =>
        { r with pendingRemove := r.pendingRemove ++ [a] }) := by
  obtain ⟨agent, hl⟩ := alive_iff.1 ha
  simp only [removeAgent, hc, hl, hx, if_true]
  exact ⟨rfl, context?_modifyContext_self hc _⟩

omit [Behavior τ α] in
theorem addAgent_waits (hc : w.context? c = some ctx) (hx : ctx.executing = true)
    (ha : w.alive a = true) : (w.addAgent c a).agents = w.agents ∧
      (w.addAgent c a).context? c = some (ctx.withRegistry fun r =>
        { r with pendingAdd := r.pendingAdd ++ [a] }) := by
  obtain ⟨agent, hl⟩ := alive_iff.1 ha
  simp only [addAgent, hc, hl, hx, if_true]
  exact ⟨rfl, context?_modifyContext_self hc _⟩

end World

namespace Arena

/-- How a minion's step ends that has this many hit points. -/
def verdict (hp : Nat) : Status := if 1 < hp then .running else .failure

/-- The few hit points of a minion are counted as integers are. -/
theorem toInt_hitPoints {hp : Nat} (hmax : hp ≤ 7) : (Int64.ofNat hp).toInt = hp :=
  Int64.toInt_ofNat_of_lt (by omega)

theorem hit_eq {hp : Nat} (hpos : 0 < hp) (hmax : hp ≤ 7) :
    Int64.ofNat hp - 1 = .ofNat (hp - 1) ∧ (0 < Int64.ofNat hp - 1 ↔ 1 < hp) := by
  have hhit : Int64.ofNat hp - 1 = .ofNat (hp - 1) := (Int64.ofNat_sub hp 1 hpos).symm
  refine ⟨hhit, ?_⟩
  rw [hhit, Int64.lt_iff_toInt_lt, toInt_hitPoints (by omega), Int64.toInt_zero]
  omega

/-- The hit points of a task; a spawner has none. -/
def Task.hitPoints {γ : Type} : Arena.Task γ → Nat
  | .minion m => m.hp.toInt.toNat
  | .spawner _ => 0

theorem hitPoints_minion {γ : Type} {hp : Nat} (hmax : hp ≤ 7) :
    (Task.minion ⟨.ofNat hp⟩ : Arena.Task γ).hitPoints = hp := by
  rw [Task.hitPoints, toInt_hitPoints hmax, Int.toNat_natCast]

end Arena

namespace World

variable {τ α : Type} [Behavior τ α] (nested : Nested τ α) (inner : NestedMoments τ α)
  {c : ContextRef} {w v : World τ α} {ctx : Context} {a : AgentRef} {ever alive : Nat}

/-- A minion loses a hit point; with the last one it asks for its removal and is not counted any
more. -/
theorem minion_does {hp : Nat} (hpos : 0 < hp) (hmax : hp ≤ 7) (hc : w.context? c = some ctx)
    (hx : ctx.executing = true) (ht : Arena.Staffed ctx.types) (ha : w.alive a = true)
    (hn : ctx.statics.Tallies ever alive) (hsome : hp ≤ 1 → 0 < alive) :
    ∃ v ctx', Does nested inner c (Arena.Minion.exec a ⟨.ofNat hp⟩) w
        (Arena.verdict hp, ⟨.ofNat (hp - 1)⟩) v [] ∧
      v.agents = w.agents ∧ v.context? c = some ctx' ∧
      ctx.Asked [] (if 1 < hp then [] else [a]) ever (if 1 < hp then alive else alive - 1)
        ctx' := by
  obtain ⟨hhit, hleft⟩ := Arena.hit_eq hpos hmax
  simp only [Arena.Minion.exec, Arena.verdict, hhit] at hleft ⊢
  by_cases hp1 : 1 < hp
  · simp only [if_pos hp1, if_pos (hleft.2 hp1)]
    exact ⟨w, ctx, .pure _, rfl, hc, .refl hn⟩
  · simp only [if_neg hp1, if_neg fun h => hp1 (hleft.1 h)]
    obtain ⟨hagents, hasked⟩ := removeAgent_waits hc hx ha
    obtain ⟨v, hv, hcounted, hbump⟩ := bump_does nested inner "Minion" "alive" (-1) hasked
      ht.minion hn.alive
    refine ⟨v, _, (Does.remove a).bind (hbump.bind (.pure _)), hv.trans hagents, hcounted, ?_,
      fun b hb => .inr hb, ?_⟩
    · simp [Context.withRegistry]
    · have hdown : Int64.ofNat alive + -1 = .ofNat (alive - 1) := by
        have := hsome (by omega)
        obtain ⟨k, rfl⟩ : ∃ k, alive = k + 1 := ⟨alive - 1, by omega⟩
        rw [Int64.ofNat_add, Int64.add_assoc]
        simp
      rw [hdown]
      constructor <;> simp [Statics.get?_put, Context.withRegistry, hn.waves, hn.spawned]

/-- An agent that waits for its addition becomes the champion if there is none. -/
theorem crown_does {agent : Agent τ} (hc : w.context? c = some ctx)
    (ht : Arena.Staffed ctx.types) (hl : w.live? a = some agent) (hplace : agent.place = {})
    (hcls : agent.cls = "Minion") (ha : a ∈ ctx.registry.pendingAdd) :
    ∃ v named, v.agents = w.agents ∧
      v.context? c = some (ctx.withRegistry fun r => { r with named }) ∧
      (∀ b, named.get? "champion" = some b →
        b = a ∨ ctx.registry.named.get? "champion" = some b) ∧
      ∀ {β : Type} {f : Except AgentError Unit → Prog τ α β} {k : Prog τ α β} {b u new},
        f (.ok ()) = k → Does nested inner c k v b u new →
        Does nested inner c (Prog.lookup "champion" >>= fun found =>
          if found.isNone = true then Prog.bindName "champion" a >>= f else k) w b u new := by
  have halive : w.alive a = true := alive_of_live? hl
  have hlook : Does nested inner c _ w _ w [] := .lookup "champion"
  cases hfound : w.lookup c "champion" with
  | some champion =>
    rw [hfound] at hlook
    exact ⟨w, ctx.registry.named, rfl, hc, fun b hb => .inr hb, fun _ h => hlook.bind h⟩
  | none =>
    rw [hfound] at hlook
    rw [lookup_of_context hc, Option.filter_eq_none_iff] at hfound
    have hnot : ctx.registry.named.get? "champion" ≠ some a := fun h => hfound a h halive
    have hfault : w.bindFault? ctx "champion" a agent = none := by
      have hinvalid : ContextId.isValid .invalid = false := by decide
      have hwaits : ctx.registry.pendingAdd.contains a = true := List.contains_iff_mem.2 ha
      simp only [bindFault?, hcls, ht.champion, hplace, hinvalid, hwaits]
      cases hn : ctx.registry.named.get? "champion" with
      | none => simp
      | some other => simp [hfound other hn]
    have hbind : w.bind c "champion" a = (.ok (),
        (w.modifyRegistry c (·.setBinding "champion" a)).report
          (.instanceBound ctx.id "champion" agent.name)) := by
      simp only [bind, hc, hl, hfault, if_neg hnot]
    have hbinds : Does nested inner c _ w _ _ [] := .bindName "champion" a
    rw [hbind] at hbinds
    refine ⟨_, ctx.registry.named.insert "champion" a, ?_, context?_modifyContext_self hc _,
      fun b hb => ?_, fun hf h => hlook.bind (hbinds.bind (hf ▸ h))⟩
    · rfl
    · rw [SortedMap.get?_insert, if_pos rfl] at hb
      exact .inl (Option.some.inj hb).symm

/-- The three counters of a spawner. -/
theorem tally_does {β : Type} (b : β) (hc : w.context? c = some ctx)
    (ht : Arena.Staffed ctx.types) (hn : ctx.statics.Tallies ever alive) :
    ∃ v statics, v.agents = w.agents ∧ v.context? c = some { ctx with statics } ∧
      statics.Tallies (ever + 1) (alive + 1) ∧
      Does nested inner c (do
        Arena.bump "Spawner" "waves" 1
        Arena.bump "Minion" "spawned" 1
        Arena.bump "Minion" "alive" 1
        pure b) w b v [] := by
  have hup : ∀ n : Nat, Int64.ofNat n + 1 = .ofNat (n + 1) := fun n => (Int64.ofNat_add n 1).symm
  obtain ⟨w₁, ha₁, hc₁, hwaves⟩ := bump_does nested inner "Spawner" "waves" 1 hc ht.spawner
    hn.waves
  have hnext : (ctx.statics.put "Spawner" "waves" (.int (.ofNat ever + 1))).get? "Minion"
      "spawned" = some (.int (.ofNat ever)) := by
    simp [Statics.get?_put, hn.spawned]
  obtain ⟨w₂, ha₂, hc₂, hspawned⟩ := bump_does nested inner "Minion" "spawned" 1 hc₁ ht.minion
    hnext
  have hlast : ((ctx.statics.put "Spawner" "waves" (.int (.ofNat ever + 1))).put "Minion"
      "spawned" (.int (.ofNat ever + 1))).get? "Minion" "alive" = some (.int (.ofNat alive)) := by
    simp [Statics.get?_put, hn.alive]
  obtain ⟨w₃, ha₃, hc₃, halive⟩ := bump_does nested inner "Minion" "alive" 1 hc₂ ht.minion hlast
  simp only [hup] at hc₃
  refine ⟨w₃, _, ha₃.trans (ha₂.trans ha₁), hc₃, ?_,
    hwaves.bind (hspawned.bind (halive.bind (.pure b)))⟩
  constructor <;> simp [Statics.get?_put]

end World

/-- Minions are made with three to seven hit points. -/
def Arena.FairDraws (γ : Type) [Arena.Draws γ] : Prop :=
  ∀ g : γ, 3 ≤ (Arena.Draws.hitPoints g).1.toInt ∧ (Arena.Draws.hitPoints g).1.toInt ≤ 7

/-- One of five numbers is less than five. -/
theorem Arena.oneOfFive_lt (tries : Nat) (g : Arena.Generator) : (g.oneOfFive tries).1 < 5 := by
  have hword (x : UInt64) : x.toNat * 5 / Arena.Generator.wordCount < 5 := by
    have hlt := x.toNat_lt
    rw [Nat.div_lt_iff_lt_mul (by decide), Arena.Generator.wordCount]
    omega
  induction tries generalizing g with
  | zero => exact hword _
  | succ tries ih =>
    rw [Arena.Generator.oneOfFive]
    dsimp only
    split
    · exact hword _
    · exact ih _

/-- The generator draws three to seven hit points. -/
theorem Arena.fairDraws_generator : Arena.FairDraws Arena.Generator := by
  intro g
  have hlt := oneOfFive_lt 1000 g
  have hall : ∀ n : Fin 5, 3 ≤ (Int64.ofNat (3 + n.val)).toInt ∧
      (Int64.ofNat (3 + n.val)).toInt ≤ 7 := by decide
  exact hall ⟨_, hlt⟩

namespace Arena.Spawner

variable {τ α γ : Type} [Draws γ]

/-- What a spawner makes its next minion of. -/
def recruit (minionTask : Minion → τ) (context : ContextId) (s : Spawner γ) : NewAgent τ where
  name := "minion-" ++ toString context.number.toInt ++ "-" ++ toString (s.spawned + 1).toNat
  cls := "Minion"
  priority := 1
  task := minionTask ⟨(Draws.hitPoints (Draws.spawns s.draws).2).1⟩

/-- The spawner after a step that makes a minion. -/
def spent (s : Spawner γ) : Spawner γ :=
  { s with draws := (Draws.hitPoints (Draws.spawns s.draws).2).2, spawned := s.spawned + 1 }

/-- The spawner after a step that makes none. -/
def rested (s : Spawner γ) : Spawner γ := { s with draws := (Draws.spawns s.draws).2 }

/-- A minion is made with the hit points that were drawn. -/
theorem recruit_task (hdraws : FairDraws γ) (s : Spawner γ) (id : ContextId) :
    ∃ hp : Nat, 3 ≤ hp ∧ hp ≤ 7 ∧
      (s.recruit (Arena.Task.minion (γ := γ)) id).task = .minion ⟨.ofNat hp⟩ := by
  obtain ⟨hlow, hhigh⟩ := hdraws (Draws.spawns s.draws).2
  refine ⟨(Draws.hitPoints (Draws.spawns s.draws).2).1.toInt.toNat, by omega, by omega, ?_⟩
  have hnat : Int64.ofNat (Draws.hitPoints (Draws.spawns s.draws).2).1.toInt.toNat =
      (Draws.hitPoints (Draws.spawns s.draws).2).1 := by
    rw [← Int64.ofInt_eq_ofNat, Int.toNat_of_nonneg (by omega), Int64.ofInt_toInt]
  rw [hnat]
  rfl

end Arena.Spawner

namespace World

variable {τ α γ : Type} [Behavior τ α] [Arena.Draws γ] (nested : Nested τ α)
  (inner : NestedMoments τ α) {c : ContextRef} {w v : World τ α} {ctx : Context}
  {s : Arena.Spawner γ} {ever alive : Nat} (minionTask : Arena.Minion → τ)
  (keep : String → AgentRef → α → α)

theorem spawner_idles (hdraw : (Arena.Draws.spawns s.draws).1 = false) :
    Does nested inner c (s.exec minionTask keep) w (.running, s.rested) w [] := by
  simp only [Arena.Spawner.exec, hdraw, Bool.not_false, if_true]
  exact .pure _

/-- A spawner makes one minion, asks for its addition and counts it. -/
theorem spawner_spawns (hdraw : (Arena.Draws.spawns s.draws).1 = true)
    (hc : w.context? c = some ctx) (hx : ctx.executing = true) (ht : Arena.Staffed ctx.types)
    (hn : ctx.statics.Tallies ever alive) :
    ∃ v ctx', Does nested inner c (s.exec minionTask keep) w (.success, s.spent) v
        [(⟨w.agents.size⟩, s.recruit minionTask ctx.id)] ∧
      v.agents = (w.create (s.recruit minionTask ctx.id)).2.agents ∧ v.context? c = some ctx' ∧
      ctx.Asked [⟨w.agents.size⟩] [] (ever + 1) (alive + 1) ctx' := by
  have hborn := w.live?_create (s.recruit minionTask ctx.id)
  have hc₁ : (w.create (s.recruit minionTask ctx.id)).2.context? c = some ctx := hc
  obtain ⟨hadd, hc₂⟩ := addAgent_waits hc₁ hx (alive_of_live? hborn)
  obtain ⟨w₃, named, ha₃, hc₃, hchampion, hcrown⟩ := crown_does nested inner
    hc₂ ht ((live?_congr (agent?_of_agents hadd _)).trans hborn) rfl rfl
    (by simp [Context.withRegistry])
  obtain ⟨u, statics, hu, hc₄, htallies, htally⟩ := tally_does nested inner
    (w := { w₃ with host := { w₃.host with app := keep s.pool ⟨w.agents.size⟩ w₃.host.app } })
    ((.success, s.spent) : Status × Arena.Spawner γ) hc₃ ht hn
  refine ⟨u, _, ?_, hu.trans (ha₃.trans hadd), hc₄, ?_, ?_, htallies⟩
  · simp only [Arena.Spawner.exec, hdraw, Bool.not_true, Bool.false_eq_true, if_false]
    exact (Does.contextId hc).bind ((Does.create (s.recruit minionTask ctx.id)).bind
      ((Does.add _).bind (hcrown rfl ((Does.setApp _).bind htally))))
  · simp [Context.withRegistry]
  · intro b hb
    exact (hchampion b hb).imp_left List.mem_singleton.2

end World

end AgentScheduler
