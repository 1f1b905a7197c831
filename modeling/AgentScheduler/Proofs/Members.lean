/-
The members of a directory at the end of a run. A member is marked as made by the
directory exactly if it was made for an id that was asked for, and as handed over
exactly if it was (`Made`, `HandedOver`); cleaning up ends the ones and gives back
the others (`directory_owned`).
-/
import AgentScheduler.Proofs.Ownership
import Mathlib.Data.List.Induction

namespace AgentScheduler

open World

namespace Application

variable {τ α ο : Type} [Behavior τ α] {s : Application τ α ο} {a : Act τ α ο}
  {id : ContextId} {c : ContextRef} {acts : List (Act τ α ο)}

/-! ## Runs -/

theorem owned_play (hs : s.Owned) (h : AllAllowed acts s) : (play acts s).Owned := by
  induction acts generalizing s with
  | nil => exact hs
  | cons a acts ih => exact ih (hs.step (steps_act hs h.1)) h.2

theorem allAllowed_append {acts' : List (Act τ α ο)} :
    AllAllowed (acts ++ acts') s ↔ AllAllowed acts s ∧ AllAllowed acts' (play acts s) := by
  induction acts generalizing s with
  | nil => exact (and_iff_right trivial).symm
  | cons a acts ih => exact (and_congr_right' ih).trans and_assoc.symm

theorem play_append (acts acts' : List (Act τ α ο)) (s : Application τ α ο) :
    play (acts ++ acts') s = play acts' (play acts s) := List.foldl_append

/-- A context keeps its maker as long as it exists. -/
theorem maker_play (hs : s.Owned) (h : AllAllowed acts s) (hlt : c.index < s.world.contexts.size)
    {ctx' : Context} (hctx' : (play acts s).world.context? c = some ctx') :
    ∃ ctx, s.world.context? c = some ctx ∧
      ctx.createdByDirectory = ctx'.createdByDirectory := by
  induction acts generalizing s with
  | nil => exact ⟨ctx', hctx', rfl⟩
  | cons a acts ih =>
    have hstep := steps_act hs h.1
    have hsize : s.world.contexts.size ≤ (s.act a).world.contexts.size := by
      rw [← run_actDeeds]
      exact size_le_points _ _ _ (run_mem_points _ _)
    obtain ⟨ctx₁, hctx₁, hmaker₁⟩ :=
      ih (hs.step hstep) h.2 (Nat.lt_of_lt_of_le hlt hsize) hctx'
    rcases hstep.old c hlt with hmark | ⟨-, hnone⟩
    · obtain ⟨ctx, hctx, -, hmaker⟩ := Context.exists_of_mark_eq hmark.symm hctx₁
      exact ⟨ctx, hctx, hmaker.trans hmaker₁⟩
    · rw [hnone] at hctx₁
      cases hctx₁

/-- The directory made the member when it was asked for an absent id. -/
def Made (acts : List (Act τ α ο)) (s : Application τ α ο) (id : ContextId) (c : ContextRef) :
    Prop :=
  ∃ before a after, acts = before ++ a :: after ∧ a.AsksFor id ∧
    (play before s).workspace.find? id = none ∧
      ((play before s).act a).workspace.find? id = some c

/-- The member was handed over. -/
def HandedOver (acts : List (Act τ α ο)) (s : Application τ α ο) (id : ContextId)
    (c : ContextRef) : Prop :=
  ∃ before after, acts = before ++ .insert c :: after ∧
    (play before s).workspace.find? id = none ∧
      ((play before s).act (.insert c)).workspace.find? id = some c

theorem Made.append {acts' : List (Act τ α ο)} (h : Made acts s id c) :
    Made (acts ++ acts') s id c := by
  obtain ⟨before, a, after, rfl, h⟩ := h
  exact ⟨before, a, after ++ acts', by simp, h⟩

theorem HandedOver.append {acts' : List (Act τ α ο)} (h : HandedOver acts s id c) :
    HandedOver (acts ++ acts') s id c := by
  obtain ⟨before, after, rfl, h⟩ := h
  exact ⟨before, after ++ acts', by simp, h⟩

/-- The mark that a context gets on entering stays. -/
theorem made_of_entered {before after : List (Act τ α ο)} (hs : s.Owned)
    (h : AllAllowed (before ++ a :: after) s) (hnone : (play before s).workspace.find? id = none)
    (hc : ((play before s).act a).workspace.find? id = some c) {ctx : Context}
    (hctx : (play (before ++ a :: after) s).world.context? c = some ctx) :
    a.AsksFor id ∧ ctx.createdByDirectory = true ∨
      a = .insert c ∧ ctx.createdByDirectory = false := by
  obtain ⟨hbefore, hfirst, hafter⟩ := allAllowed_append.1 h
  have hthen := owned_play hs hbefore
  have hstep := steps_act hthen hfirst
  have hnow := hthen.step hstep
  obtain ⟨-, ctx₁, hctx₁, -, hhow⟩ := hstep.entered id c hnone hc
  rw [play_append] at hctx
  obtain ⟨ctx₂, hctx₂, hmaker⟩ := maker_play hnow hafter (hnow.index_lt hc) hctx
  rw [hctx₁] at hctx₂
  cases hctx₂
  rw [← hmaker]
  exact hhow.imp (fun h => ⟨h.1, h.2.2⟩) fun h => ⟨h.1, h.2.2⟩

/-- Every member was made or handed over. -/
theorem origin (hs : s.Owned) (hempty : s.workspace.directory = .empty) (h : AllAllowed acts s)
    (hc : (play acts s).workspace.find? id = some c) :
    Made acts s id c ∨ HandedOver acts s id c := by
  induction acts using List.reverseRecOn generalizing id c with
  | nil =>
    have hnone : s.workspace.find? id = none := by rw [Workspace.find?, hempty, SortedMap.get?_empty]
    exact absurd (hnone.symm.trans hc) (Option.some_ne_none c).symm
  | append_singleton acts a ih =>
    obtain ⟨hacts, ha, -⟩ := allAllowed_append.1 h
    have hstep := steps_act (owned_play hs hacts) ha
    rw [play_append] at hc
    cases hbefore : (play acts s).workspace.find? id with
    | some c' =>
      obtain rfl := hstep.stayed id c' c hbefore hc
      exact (ih hacts hbefore).imp .append .append
    | none =>
      obtain ⟨-, -, -, -, ⟨hask, -⟩ | ⟨rfl, -⟩⟩ := hstep.entered id c hbefore hc
      · exact .inl ⟨acts, a, [], rfl, hask, hbefore, hc⟩
      · exact .inr ⟨acts, [], rfl, hbefore, hc⟩

omit [Behavior τ α] in
/-- Agents that name the id are those of the member, if it has one: each has an entry under it, and
no context outside the directory has any. -/
structure Exclusive (s : Application τ α ο) (id : ContextId) : Prop where
  outside : ∀ c ctx, s.world.context? c = some ctx → ctx.id = id → c ∉ s.members →
    ctx.registry.entries = []
  entered : ∀ a agent, s.world.live? a = some agent → agent.place.context = id →
    ∃ c ctx p, s.world.context? c = some ctx ∧ ctx.id = id ∧
      (p, agent.place.id, a) ∈ ctx.registry.entries

omit [Behavior τ α] in
theorem Owned.exclusive (h : s.Owned) (hd : s.world.DistinctIds) (hcoh : s.world.Coherent)
    (hc : s.workspace.find? id = some c) : s.Exclusive id := by
  obtain ⟨hid, ctx, hctx, rfl⟩ := h.listed id c hc
  refine ⟨fun c' ctx' hctx' hsame hout => ?_, fun a agent hl hplace => ?_⟩
  · obtain rfl := hd.unique c' c ctx' ctx hctx' hctx hsame
    exact absurd (mem_members.2 ⟨_, hc⟩) hout
  · have hentry := (hcoh.entered c ctx a agent hctx hl agent.priority agent.place.id).2
      ⟨by rw [← hplace], rfl⟩
    exact ⟨c, ctx, agent.priority, hctx, rfl, hentry⟩

/-- What the directory is at the end of a run, and what cleaning up does then. -/
structure OwnsDirectory (acts : List (Act τ α ο)) (s₀ s : Application τ α ο) : Prop where
  /-- The mark of a member says how it came into the directory. -/
  members : ∀ id c, s.workspace.find? id = some c → id.isConcrete = true ∧
    ∃ ctx, s.world.context? c = some ctx ∧ ctx.id = id ∧
      (ctx.createdByDirectory = true ↔ Made acts s₀ id c) ∧
      (ctx.createdByDirectory = false ↔ HandedOver acts s₀ id c)
  /-- A new member was asked for and made, or existed and was handed over. -/
  entered : ∀ a, s.Allowed a → ∀ id c, s.workspace.find? id = none →
    (s.act a).workspace.find? id = some c →
      a.AsksFor id ∧ s.world.contexts.size ≤ c.index ∨
        a = .insert c ∧ c.index < s.world.contexts.size
  refused : ∀ obs id, ¬(id = .all ∨ id.isConcrete = true) →
    s.workspace.cleanup obs id s.observed s.world =
      (.error (.invalidContextId id), s.workspace, s.observed, s.world)
  cleaned : ∀ obs id, id = .all ∨ id.isConcrete = true →
    s.workspace.CleansUp obs id s.observed s.world
  ascending : ∀ id, (s.workspace.affected id).keys.Pairwise fun i j => i.number < j.number
  /-- Nothing is left in a context that is returned. -/
  emptied : ∀ obs id returned, (s.workspace.cleanup obs id s.observed s.world).1 = .ok returned →
    ∀ c ∈ returned, ∃ ctx, (s.act (.cleanup obs id)).world.context? c = some ctx ∧
      ctx.createdByDirectory = false ∧ ctx.registry = { lastId := ctx.registry.lastId } ∧
      ctx.statics.baselines = .empty
  /-- Living agents that name the id of a context that leaves lose their place. -/
  unregistered : ∀ obs id, id = .all ∨ id.isConcrete = true →
    ∀ i ∈ (s.workspace.affected id).keys, s.Exclusive i →
      ∀ a agent, s.world.live? a = some agent → agent.place.context = i →
        (s.act (.cleanup obs id)).world.agent? a = some { agent with place := {} }
  exclusive : (∀ v ∈ points (deeds acts s₀) s₀.world, v.DistinctIds) →
    ∀ id c, s.workspace.find? id = some c → s.Exclusive id

omit [Behavior τ α] in
theorem not_asksFor_insert : ¬(Act.insert c : Act τ α ο).AsksFor id := by
  rintro (h | ⟨obs, h⟩) <;> cases h

omit [Behavior τ α] in
theorem Owned.cleansUp (h : s.Owned) (obs : Observer ο α) (hid : id = .all ∨ id.isConcrete = true) :
    s.workspace.CleansUp obs id s.observed s.world :=
  Workspace.cleanup_cleansUp h.unique hid obs s.observed s.world

theorem Owned.emptied (h : s.Owned) (obs : Observer ο α) {returned : List ContextRef}
    (hreturned : (s.workspace.cleanup obs id s.observed s.world).1 = .ok returned)
    (hc : c ∈ returned) :
    ∃ ctx, (s.act (.cleanup obs id)).world.context? c = some ctx ∧
      ctx.createdByDirectory = false ∧ ctx.registry = { lastId := ctx.registry.lastId } ∧
      ctx.statics.baselines = .empty := by
  by_cases hid : id = .all ∨ id.isConcrete = true
  · have hclean := h.cleansUp obs hid
    rw [hclean.returned] at hreturned
    cases hreturned
    obtain ⟨hmem, hmade⟩ := List.mem_filter.1 hc
    replace hmade : s.world.madeByDirectory c = false := by simpa using hmade
    obtain ⟨j, hj⟩ := mem_affected.1 hmem
    obtain ⟨-, ctx, hctx, -⟩ := h.listed j c hj.2
    have hafter := hclean.cleared.returned c hmem hmade
    rw [hctx, Option.map_some] at hafter
    rw [madeByDirectory, hctx] at hmade
    exact ⟨ctx.released, hafter, hmade, rfl, rfl⟩
  · simp only [Workspace.cleanup, s.workspace.targets_refused hid] at hreturned
    cases hreturned

/-- At the end of every run the directory is right about its members, and gives back all that it did
not make. -/
theorem directory_owned (h : Host α) (ws : Workspace α) (o : ο) (acts : List (Act τ α ο))
    (hempty : ws.directory = .empty) (hacts : AllAllowed acts ⟨ws, o, { host := h }⟩) :
    OwnsDirectory acts ⟨ws, o, { host := h }⟩ (play acts ⟨ws, o, { host := h }⟩) := by
  obtain ⟨s₀, hs₀⟩ : ∃ s₀ : Application τ α ο, s₀ = ⟨ws, o, { host := h }⟩ := ⟨_, rfl⟩
  have hstart : s₀.Owned := by
    rw [hs₀]
    refine ⟨fun id c hc => ?_, fun c ctx hctx _ => by cases hctx⟩
    rw [Workspace.find?, hempty, SortedMap.get?_empty] at hc
    cases hc
  have hbegin : s₀.workspace.directory = .empty := by rw [hs₀, hempty]
  rw [← hs₀] at hacts ⊢
  have howned := owned_play hstart hacts
  refine ⟨fun id c hc => ?_, fun a ha id c hnone hc => ?_, fun obs id hid => ?_,
    fun obs id hid => howned.cleansUp obs hid, fun id => ?_,
    fun obs id returned hreturned c hc => howned.emptied obs hreturned hc,
    fun obs id hid i hi hex a agent hl hplace => ?_, fun hd id c hc => ?_⟩
  · obtain ⟨hid, ctx, hctx, hctxid⟩ := howned.listed id c hc
    have hmade : Made acts s₀ id c → ctx.createdByDirectory = true := by
      rintro ⟨before, a, after, rfl, hask, hnone, hin⟩
      rcases made_of_entered hstart hacts hnone hin hctx with ⟨-, hmade⟩ | ⟨rfl, -⟩
      · exact hmade
      · exact absurd hask not_asksFor_insert
    have hgiven : HandedOver acts s₀ id c → ctx.createdByDirectory = false := by
      rintro ⟨before, after, rfl, hnone, hin⟩
      rcases made_of_entered hstart hacts hnone hin hctx with ⟨hask, -⟩ | ⟨-, hgiven⟩
      · exact absurd hask not_asksFor_insert
      · exact hgiven
    have horigin := origin hstart hbegin hacts hc
    exact ⟨hid, ctx, hctx, hctxid,
      ⟨fun h => horigin.resolve_right fun h' => Bool.false_ne_true ((hgiven h').symm.trans h),
        hmade⟩,
      ⟨fun h => horigin.resolve_left fun h' => Bool.false_ne_true (h.symm.trans (hmade h')),
        hgiven⟩⟩
  · obtain ⟨-, ctx, -, -, hhow⟩ := (steps_act howned ha).entered id c hnone hc
    exact hhow.imp (fun h => ⟨h.1, h.2.1⟩) fun h => ⟨h.1, h.2.1⟩
  · simp only [Workspace.cleanup, (play acts s₀).workspace.targets_refused hid]
  · exact SortedMap.ids_ascend _
  · -- the context that has the agent's entry is the member that leaves
    obtain ⟨c, ctx, p, hctx, hctxid, hentry⟩ := hex.entered a agent hl hplace
    have hmember : c ∈ (play acts s₀).members := by
      refine Classical.byContradiction fun hout => ?_
      rw [hex.outside c ctx hctx hctxid hout] at hentry
      cases hentry
    obtain ⟨j, hj⟩ := mem_members.1 hmember
    obtain ⟨-, ctx', hctx', hctxid'⟩ := howned.listed j c hj
    obtain rfl : ctx = ctx' := Option.some.inj (hctx.symm.trans hctx')
    obtain rfl : i = j := hctxid.symm.trans hctxid'
    have hcalled : (id.isAll || i == id) = true := by
      rw [SortedMap.mem_keys, Workspace.affected, SortedMap.get?_filter] at hi
      obtain ⟨c', hc'⟩ := Option.isSome_iff_exists.1 hi
      exact (Option.filter_eq_some_iff.1 hc').2
    exact (howned.cleansUp obs hid).cleared.unregistered c (mem_affected.2 ⟨i, hcalled, hj⟩) a
      agent ⟨ctx, p, _, hctx, hentry⟩ hl
  · have hpoint : (play acts s₀).world ∈ points (deeds acts s₀) s₀.world := by
      rw [← run_deeds]
      exact run_mem_points _ _
    refine howned.exclusive (hd _ hpoint) ?_ hc
    rw [hs₀] at hd hpoint
    rw [hs₀]
    exact coherent_points h _ hd _ hpoint

section Sample

/-- A member is made, another one handed over and a third one made by a tick; all go, and the first
id is asked for again. -/
def handingActs : List (Act Routine Unit Unit) :=
  [.context ⟨1⟩, .deed (.newContext ⟨2⟩ {} 10), .insert ⟨1⟩,
    .deed (.create ⟨"first", "Agent", 0, ⟨[.here .clock]⟩⟩),
    .deed (.create ⟨"second", "Agent", 0, ⟨[.there ⟨1⟩ .release]⟩⟩),
    .deed (.on ⟨0⟩ (.task (.add ⟨0⟩))), .deed (.on ⟨1⟩ (.task (.add ⟨1⟩))),
    .tick Observer.none ⟨3⟩, .tick Observer.none .all, .logStates .all,
    .cleanup Observer.none ⟨1⟩, .context ⟨1⟩, .deed (.on ⟨3⟩ (.task (.add ⟨0⟩)))]

/-- The empty workspace in which they begin. -/
def handingStart : Workspace Unit := { config := {}, types := {}, sink := Sink.reporting }

theorem directory_owned_sample :
    AllAllowed handingActs ⟨handingStart, (), { host := { app := () } }⟩ ∧
      OwnsDirectory handingActs ⟨handingStart, (), { host := { app := () } }⟩
        (play handingActs ⟨handingStart, (), { host := { app := () } }⟩) := by
  have hacts : AllAllowed handingActs ⟨handingStart, (), { host := { app := () } }⟩ := by
    decide +kernel
  exact ⟨hacts, directory_owned { app := () } handingStart () handingActs rfl hacts⟩

/-- Then all are cleaned up: the one that was handed over comes back. -/
example :
    let s := play handingActs ⟨handingStart, (), { host := { app := () } }⟩
    let (result, ws, _, w) := s.workspace.cleanup Observer.none .all () s.world
    (s.workspace.contextIds, result, ws.contextIds) = ([⟨1⟩, ⟨2⟩, ⟨3⟩], .ok [⟨1⟩], []) ∧
      (w.agent? ⟨0⟩).map (·.place) = some {} := by
  decide +kernel

end Sample

end Application

end AgentScheduler
