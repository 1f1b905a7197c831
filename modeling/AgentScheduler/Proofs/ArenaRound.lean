/-
What comes after the walk of a round of an arena: those that wait to join are registered, those
that wait to leave are not any more. A round of a context that a census describes leaves one again
(`Census.tick`), with the minions that are left and the one that was made, if one was; and it says
which tasks ran in it and how they ended.
-/
import AgentScheduler.Proofs.ArenaWalk
import Mathlib.Data.List.Sort

namespace AgentScheduler

namespace World

/-! ## The order after a walk -/

section Order

variable {τ α : Type} {w u : World τ α} {c : ContextRef} {ctx left : Context} {inUse : Bool}
  {p : Int32}

/-- A living agent has one entry. -/
theorem Coherent.entry_unique (hw : w.Coherent) (hc : w.context? c = some ctx) {q q' : Int32}
    {i i' : AgentId} {a : AgentRef} (ha : w.alive a = true) (he : (q, i, a) ∈ ctx.registry.entries)
    (he' : (q', i', a) ∈ ctx.registry.entries) : (q, i) = (q', i') := by
  obtain ⟨agent, hl⟩ := alive_iff.1 ha
  obtain ⟨hplace, rfl⟩ := (hw.entered c ctx a agent hc hl q i).1 he
  obtain ⟨hplace', rfl⟩ := (hw.entered c ctx a agent hc hl q' i').1 he'
  rw [hplace] at hplace'
  cases hplace'
  rfl

namespace Finished

variable (h : Finished c inUse ctx left w u) (hw : w.DistinctIds ∧ w.Coherent) (hu : u.Coherent)
  (hc : w.context? c = some ctx)

include h

theorem id_eq : left.id = ctx.id := (Context.parts_of_setting h.setting).1

include hu

/-- The first agent that was added gets the next id. -/
theorem entry_joins {a : AgentRef} {agent : Agent τ}
    (ha : (w.newcomers ctx.registry.pendingAdd)[0]? = some a)
    (hstay : a ∉ ctx.registry.pendingRemove) (hl : w.live? a = some agent) :
    (agent.priority, ⟨.ofNat (ctx.registry.lastId.toNat + 1)⟩, a) ∈ left.registry.entries := by
  obtain ⟨agent', hl', hafter⟩ := h.joins 0 a ha hstay
  obtain rfl := Option.some.inj (hl.symm.trans hl')
  refine (hu.entered c left a _ h.here hafter _ _).2 ⟨?_, rfl⟩
  rw [h.id_eq]

include hc

/-- An agent that nobody asked to remove keeps its entry. -/
theorem entry_stays (hw : w.DistinctIds ∧ w.Coherent) {q : Int32} {i : AgentId} {a : AgentRef}
    (he : (q, i, a) ∈ ctx.registry.entries) (ha : w.alive a = true)
    (hr : a ∉ ctx.registry.pendingRemove) : (q, i, a) ∈ left.registry.entries := by
  obtain ⟨agent, hl⟩ := alive_iff.1 ha
  obtain ⟨hplace, hprio⟩ := (hw.2.entered c ctx a agent hc hl q i).1 he
  have hnot : a ∉ w.newcomers ctx.registry.pendingAdd := by
    intro hm
    have hinvalid := (mem_distinctAt.1 hm).2
    rw [isAt_eq hl, hplace, beq_iff_eq] at hinvalid
    exact hw.1.valid c ctx hc hinvalid
  exact (hu.entered c left a agent h.here ((h.stays a hnot hr).trans hl) q i).2
    ⟨by rw [hplace, h.id_eq], hprio⟩

include hw

/-- After a walk in which one agent was added at most, of a priority that none exceeds, the agents
come as before, without those that were to go, and that one last. -/
theorem entries_eq (hfew : (w.newcomers ctx.registry.pendingAdd).length ≤ 1)
    (hstay : ∀ a ∈ w.newcomers ctx.registry.pendingAdd, a ∉ ctx.registry.pendingRemove)
    (hprio : ∀ a ∈ w.newcomers ctx.registry.pendingAdd, ∀ agent, w.live? a = some agent →
      agent.priority = p)
    (hlow : ∀ e ∈ ctx.registry.entries, e.1 ≤ p)
    (hlive : ∀ e ∈ ctx.registry.entries, w.alive e.2.2 = true) :
    left.registry.entries =
      (ctx.registry.entries.filter fun e => e.2.2 ∉ ctx.registry.pendingRemove) ++
        (w.newcomers ctx.registry.pendingAdd).map fun a =>
          (p, ⟨.ofNat (ctx.registry.lastId.toNat + 1)⟩, a) := by
  have hjoined : ∀ a ∈ w.newcomers ctx.registry.pendingAdd,
      (p, ⟨.ofNat (ctx.registry.lastId.toNat + 1)⟩, a) ∈ left.registry.entries := by
    intro a ha
    obtain ⟨k, hk⟩ := List.mem_iff_getElem?.1 ha
    obtain ⟨hlt, -⟩ := List.getElem?_eq_some_iff.1 hk
    obtain rfl : k = 0 := by omega
    obtain ⟨agent, hl, -⟩ := h.joins 0 a hk (hstay a ha)
    rw [← hprio a ha agent hl]
    exact h.entry_joins hu hk (hstay a ha) hl
  have hnew : (w.newcomers ctx.registry.pendingAdd).Pairwise fun _ _ => False := by
    rw [List.pairwise_iff_getElem]
    intro i j hi hj hij
    omega
  refine Registry.entries_pairwise.eq_of_mem_iff (List.pairwise_append.2
    ⟨Registry.entries_pairwise.filter _, ?_, fun e he e' he' => ?_⟩) fun (q, i, a) => ?_
  · rw [List.pairwise_map]
    exact hnew.imp fun h => h.elim
  · -- the one that was added has the greatest priority and the greatest id
    obtain ⟨a, ha, rfl⟩ := List.mem_map.1 he'
    have hold := (List.mem_filter.1 he).1
    have hissued := ((hw.2.sound c ctx hc).issued _ _ _ hold).2
    have hfits := left.registry.lastId.toNat_lt
    rw [h.lastId] at hfits
    have hpos := List.length_pos_of_mem ha
    rcases Int32.lt_or_eq_of_le (hlow e hold) with hlt | heq
    · exact .inl hlt
    · have hsize : ctx.registry.lastId.toNat + 1 < UInt32.size := by
        show _ < 4294967296
        omega
      refine .inr ⟨heq, ?_⟩
      rw [UInt32.lt_iff_toNat_lt, UInt32.toNat_ofNat_of_lt' hsize]
      exact Nat.lt_succ_of_le hissued
  · rw [List.mem_append, List.mem_filter, List.mem_map]
    constructor
    · intro he
      have halive : u.alive a = true := (h.alive a).trans (h.entries q i a he)
      have hat : u.isAt left.id a = true := (isAt_iff_entry hu h.here).2 ⟨halive, q, i, he⟩
      rw [h.id_eq] at hat
      obtain ⟨hold | hjoin, hr⟩ := (h.isAt a).1 hat
      · obtain ⟨ha, q', i', he'⟩ := (isAt_iff_entry hw.2 hc).1 hold
        cases hu.entry_unique h.here halive he (h.entry_stays hu hc hw he' ha hr)
        exact .inl ⟨he', by simpa using hr⟩
      · cases hu.entry_unique h.here halive he (hjoined a hjoin)
        exact .inr ⟨a, hjoin, rfl⟩
    · intro he
      rcases he with ⟨he, hr⟩ | ⟨b, hb, heq⟩
      · exact h.entry_stays hu hc hw he (hlive _ he) (by simpa using hr)
      · cases heq
        exact hjoined a hb

end Finished

end Order

/-! ## A round -/

section Round

open Arena

variable {γ : Type} {w v u : World (Arena.Task γ) Keep} {c : ContextRef} {ctx ended left : Context}
  {ever : Nat} {spawner : AgentRef} {fs : List Fighter} {inUse : Bool}
  {new : List (AgentRef × NewAgent (Arena.Task γ))}

/-- A new minion with the hit points that it is made with. -/
def enlist (e : AgentRef × NewAgent (Arena.Task γ)) : Fighter := ⟨e.1, e.2.task.hitPoints⟩

/-- A minion that was just made is registered nowhere. -/
theorem Litter.newcomers (h : Litter w v new) :
    v.newcomers (new.map Prod.fst) = new.map Prod.fst := by
  have hat : ∀ a ∈ new.map Prod.fst, v.isAt .invalid a = true := by
    intro a ha
    obtain ⟨e, he, rfl⟩ := List.mem_map.1 ha
    rw [isAt_eq (live?_eq_some.2 ⟨h.born e he, rfl⟩)]
    rfl
  have hfew := h.few
  rw [World.newcomers, distinctAt, List.filter_eq_self.2 hat]
  cases new with
  | nil => rfl
  | cons e rest =>
    obtain rfl : rest = [] := List.length_eq_zero_iff.1 (by simpa using hfew)
    rfl

theorem Litter.nodup (h : Litter w v new) : (new.map Prod.fst).Nodup := by
  have hfew := h.few
  rw [List.nodup_iff_pairwise_ne, List.pairwise_iff_getElem]
  intro i j hi hj hij
  rw [List.length_map] at hj
  omega

namespace Walked

variable (hw : Walked c spawner ever fs new w v ctx ended) (h : Census c spawner ever fs w ctx)

include hw

/-- Nobody knew the minion that was made. -/
theorem not_new {a : AgentRef} {task : Arena.Task γ} (hrest : w.Rests a task) :
    a ∉ new.map Prod.fst := by
  intro ha
  obtain ⟨e, he, rfl⟩ := List.mem_map.1 ha
  exact hrest.known (hw.litter.unknown e he)

theorem live_new {e : AgentRef × NewAgent (Arena.Task γ)} (he : e ∈ new) :
    v.live? e.1 = some e.2.agent := live?_eq_some.2 ⟨hw.litter.born e he, rfl⟩

include h

/-- What waits at the end of the walk, and what has stood still. -/
theorem waits : ended.registry.pendingAdd = new.map Prod.fst ∧
    ended.registry.pendingRemove = fallen fs ∧ ended.registry.entries = ctx.registry.entries ∧
    ended.registry.lastId = ctx.registry.lastId := by
  obtain ⟨hadd, hremove⟩ := h.coherent.2.quiet c ctx h.here h.idle
  rw [hw.asked.rest]
  refine ⟨?_, ?_, rfl, rfl⟩
  · show ctx.registry.pendingAdd ++ _ = _
    rw [hadd, List.nil_append]
  · show ctx.registry.pendingRemove ++ _ = _
    rw [hremove, List.nil_append]

theorem newcomers : v.newcomers ended.registry.pendingAdd = new.map Prod.fst := by
  rw [(hw.waits h).1, hw.litter.newcomers]

/-- The minion that was made is not one of those that leave. -/
theorem stays_new {a : AgentRef} (ha : a ∈ new.map Prod.fst) : a ∉ fallen fs := by
  intro hr
  obtain ⟨f, hf, -, rfl⟩ := mem_fallen.1 hr
  exact hw.not_new (h.fighters f hf) ha

theorem alive {a : AgentRef} (ha : a ∈ ctx.registry.walkOrder) : v.alive a = true := by
  rw [h.order, List.mem_cons] at ha
  rcases ha with rfl | ha
  · obtain ⟨_, ⟨agent, hl, -⟩, -⟩ := hw.leader
    exact alive_of_live? hl
  · obtain ⟨f, hf, rfl⟩ := List.mem_map.1 ha
    obtain ⟨agent, hl, -⟩ := hw.fighters f hf
    exact alive_of_live? hl

variable (hv : v.DistinctIds ∧ v.Coherent) (hu : u.DistinctIds ∧ u.Coherent)
  (hf : Finished c inUse ended left v u)

include hf

/-- Every minion has one hit point less, but for the one that was made. -/
theorem fighters_after {f : Fighter} (hmem : f ∈ wane fs ++ new.map enlist) :
    u.Rests f.ref (.minion ⟨.ofNat f.hp⟩) ∧ 0 < f.hp ∧ f.hp ≤ 7 := by
  have hnodup := (List.nodup_cons.1 h.distinct).2
  obtain ⟨-, hremove, -⟩ := hw.waits h
  have hnew := hw.newcomers h
  rcases List.mem_append.1 hmem with hold | hjoin
  · have hleft : f.ref ∈ (wane fs).map (·.ref) := List.mem_map_of_mem hold
    rw [refs_wane hnodup] at hleft
    obtain ⟨hpos, hbefore⟩ := mem_wane.1 hold
    refine ⟨(hw.fighters _ hbefore).congr (hf.stays _ ?_ ?_), hpos,
      Nat.le_of_succ_le (h.hp _ hbefore).2⟩
    · rw [hnew]
      exact hw.not_new (h.fighters _ hbefore)
    · rw [hremove]
      simpa using (List.mem_filter.1 hleft).2
  · obtain ⟨e, he, rfl⟩ := List.mem_map.1 hjoin
    obtain ⟨-, hp, hlow, hhigh, htask⟩ := hw.litter.fit e he
    have hin : e.1 ∈ new.map Prod.fst := List.mem_map_of_mem he
    obtain ⟨k, hk⟩ := List.mem_iff_getElem?.1 (hnew ▸ hin)
    obtain ⟨agent, hl, hl'⟩ := hf.joins k e.1 hk (hremove ▸ hw.stays_new h hin)
    rw [hw.live_new he] at hl
    cases hl
    have hhp : (enlist e).hp = hp := by rw [enlist, htask, hitPoints_minion hhigh]
    rw [hhp]
    exact ⟨⟨_, hl', rfl, htask⟩, by omega, hhigh⟩

include hv

/-- A champion that leaves is one no more. -/
theorem champion {a : AgentRef} (ha : left.registry.named.get? "champion" = some a) :
    a ∈ (wane fs).map (·.ref) ++ new.map Prod.fst := by
  obtain ⟨-, hremove, hentries, -⟩ := hw.waits h
  obtain ⟨hnamed, -, -, hleft⟩ := (hf.named _ _).1 ha
  rw [List.mem_append]
  rcases hw.asked.champion a hnamed with hjoin | hold
  · exact .inr hjoin
  · have hmem := h.champion a hold
    rw [refs_wane (List.nodup_cons.1 h.distinct).2, List.mem_filter]
    refine .inl ⟨hmem, decide_eq_true fun hm => hleft ?_⟩
    have hlisted : a ∈ ctx.registry.walkOrder := by
      rw [h.order]
      exact List.mem_cons_of_mem _ hmem
    obtain ⟨p, i, hentry⟩ := Registry.mem_walkOrder.1 hlisted
    have hat : v.isAt ended.id a = true := (isAt_iff_entry hv.2 hw.here).2
      ⟨hw.alive h hlisted, p, i, hentries ▸ hentry⟩
    rw [leavers, List.mem_eraseDups, List.mem_filter, hat, hremove]
    exact ⟨hm, rfl⟩

include hu

/-- The minion that was made comes last. -/
theorem entries : left.registry.entries =
    (ctx.registry.entries.filter fun e => e.2.2 ∉ fallen fs) ++
      (new.map Prod.fst).map fun a => (1, ⟨.ofNat (ctx.registry.lastId.toNat + 1)⟩, a) := by
  obtain ⟨-, hremove, hentries, hlast⟩ := hw.waits h
  have hnew := hw.newcomers h
  have hlisted := hf.entries_eq (p := 1) hv hu.2 hw.here
  rw [hnew, hremove, hentries, hlast] at hlisted
  refine hlisted ?_ (fun a ha => hw.stays_new h ha) (fun a ha agent hl => ?_) h.priorities
    fun e he => hw.alive h (List.mem_map_of_mem he)
  · rw [List.length_map]
    exact hw.litter.few
  · obtain ⟨e, he, rfl⟩ := List.mem_map.1 ha
    rw [hw.live_new he] at hl
    cases hl
    exact (hw.litter.fit e he).1

theorem order : left.registry.walkOrder = spawner :: (wane fs ++ new.map enlist).map (·.ref) := by
  obtain ⟨hfirst, hnodup⟩ := List.nodup_cons.1 h.distinct
  have hspawner : spawner ∉ fallen fs := by
    intro hm
    obtain ⟨f, hf, -, href⟩ := mem_fallen.1 hm
    exact hfirst (href ▸ List.mem_map_of_mem hf)
  have hold : (ctx.registry.entries.filter fun e => e.2.2 ∉ fallen fs).map (·.2.2) =
      spawner :: (wane fs).map (·.ref) := by
    rw [refs_wane hnodup, ← List.filter_cons_of_pos (by simpa using hspawner), ← h.order,
      Registry.walkOrder, List.filter_map]
    rfl
  rw [Registry.walkOrder, hw.entries h hv hu hf, List.map_append, hold, List.map_append]
  simp [enlist, Function.comp_def]

/-- What comes after the walk makes a census of its end. -/
theorem census : Census c spawner (ever + new.length) (wane fs ++ new.map enlist) u left := by
  obtain ⟨hfirst, hnodup⟩ := List.nodup_cons.1 h.distinct
  obtain ⟨-, hremove, -, hlast⟩ := hw.waits h
  have hnew := hw.newcomers h
  obtain ⟨s, hs, -⟩ := h.leader
  have hrefs : (wane fs ++ new.map enlist).map (·.ref) =
      (wane fs).map (·.ref) ++ new.map Prod.fst := by
    rw [List.map_append, List.map_map]
    rfl
  constructor
  case coherent => exact hu
  case here => exact hf.here
  case idle => exact (Context.parts_of_setting hf.setting).2.2.1
  case staffed =>
    have htypes := congrArg Context.types hf.setting
    show Staffed left.setting.types
    rw [htypes]
    exact hw.asked.types ▸ h.staffed
  case order => exact hw.order h hv hu hf
  case distinct =>
    have hold : ∀ b ∈ (wane fs).map (·.ref), b ∈ fs.map (·.ref) := by
      rw [refs_wane hnodup]
      exact fun b hb => List.mem_of_mem_filter hb
    have hfresh : ∀ b ∈ fs.map (·.ref), b ∉ new.map Prod.fst := by
      intro b hb
      obtain ⟨f, hf, rfl⟩ := List.mem_map.1 hb
      exact hw.not_new (h.fighters f hf)
    rw [hrefs, List.nodup_cons, List.mem_append, not_or, List.nodup_append]
    refine ⟨⟨fun hm => hfirst (hold _ hm), hw.not_new hs⟩, ?_, hw.litter.nodup,
      fun b hb b' hb' he => hfresh b (hold b hb) (he ▸ hb')⟩
    rw [refs_wane hnodup]
    exact hnodup.filter _
  case priorities =>
    intro e he
    rw [hw.entries h hv hu hf, List.mem_append, List.mem_filter, List.mem_map] at he
    rcases he with ⟨he, -⟩ | ⟨a, -, rfl⟩
    · exact h.priorities e he
    · exact Int32.le_refl _
  case lastId =>
    rw [hf.lastId, hnew, hlast, h.lastId, List.length_map]
    omega
  case tallies =>
    have hstatics := congrArg Context.statics hf.setting
    have hlen := length_wane fs
    have hcount : (wane fs ++ new.map enlist).length =
        fs.length + new.length - (fallen fs).length := by
      rw [List.length_append, List.length_map]
      omega
    show left.setting.statics.Tallies _ _
    rw [hstatics, hcount]
    exact hw.asked.tallies
  case leader =>
    obtain ⟨s', hs', hspawned⟩ := hw.leader
    refine ⟨s', hs'.congr (hf.stays _ (hnew ▸ hw.not_new hs) ?_), hspawned⟩
    intro hm
    rw [hremove] at hm
    obtain ⟨f, hf, -, href⟩ := mem_fallen.1 hm
    exact hfirst (href ▸ List.mem_map_of_mem hf)
  case fighters => exact fun f hmem => (hw.fighters_after h hf hmem).1
  case hp => exact fun f hmem => (hw.fighters_after h hf hmem).2
  case champion => exact fun a ha => hrefs ▸ hw.champion h hv hf ha

end Walked

/-- A round of an arena leads from one census to the next. -/
theorem Census.tick [Draws γ] (h : Census c spawner ever fs w ctx) (hdraws : FairDraws γ) (n : Nat)
    (hroom : ever + (births c (w.tickMoments n c)).length + 1 < AgentId.invalid.number.toNat) :
    ∃ status left, results c (w.tickMoments n c) =
        (spawner, status) :: fs.map (fun f => (f.ref, verdict f.hp)) ∧
      Litter w (w.walkEnd n c ctx) (births c (w.tickMoments n c)) ∧
      Census c spawner (ever + (births c (w.tickMoments n c)).length)
        (wane fs ++ (births c (w.tickMoments n c)).map enlist)
        (w.tickWith (nested n) c).2 left := by
  obtain ⟨new, status, ended, hbirths, hresults, hwalked⟩ := h.walked hdraws n
  rw [hbirths] at hroom ⊢
  have hv := coherent_walkWorlds n h.coherent h.here h.idle (w.walkEnd n c ctx)
    (List.mem_append_right _ List.mem_cons_self)
  have hu := (coherent_durable.happens (tickWith_happens (c := c) (w := w) (traced_nested n))
    h.coherent).1
  obtain ⟨-, e, hafter⟩ := tickWith_parts n h.here h.idle
  obtain ⟨-, left, hf⟩ := finishWalk_finished ctx.inUse hv hwalked.here (by
    rw [hwalked.newcomers h, (hwalked.waits h).2.2.2, h.lastId, List.length_map]
    omega)
  rw [hafter] at hu ⊢
  refine ⟨status, left, hresults, hwalked.litter, ?_⟩
  generalize w.walkEnd n c ctx = v at *
  generalize (v.finishWalk c ctx.inUse).2 = u at *
  have hreported : Finished c ctx.inUse ended left v (u.report e) := { hf with }
  exact hwalked.census h hv hu hreported

end Round

end World

end AgentScheduler
