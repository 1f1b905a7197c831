/-
What comes of the requests of a tick. Its tasks ask for additions and removals
while the context walks; after the walk the context has the agents that it had
and those that came, without those that were to go (`requests_served`).
-/
import AgentScheduler.Proofs.Bindings
import AgentScheduler.Proofs.Drain
import AgentScheduler.Proofs.WalkOrder

namespace AgentScheduler.World

variable {τ α : Type} {c : ContextRef} {ctx : Context}

/-- How requests are served when the walk of the context `ctx` ends in `v`, where the context is
`ended`, and its tick in `u`, where it is `left`. -/
structure Served (c : ContextRef) (ctx ended left : Context) (adds removes : List AgentRef)
    (v u : World τ α) (report : TickReport) : Prop where
  /-- The agents of the context are the living ones that it had, or that were asked for and are
  in no other context, unless they were to go. -/
  registered : ∀ a, (∃ p i, (p, i, a) ∈ left.registry.entries) ↔ u.alive a = true ∧
    ((∃ p i, (p, i, a) ∈ ctx.registry.entries) ∨
      a ∈ adds ∧ ∀ d, d ≠ c → v.containsAgent d a = false) ∧ a ∉ removes
  /-- Who stays keeps its id. -/
  kept : ∀ p i a, (p, i, a) ∈ ctx.registry.entries → u.alive a = true → a ∉ removes →
    (p, i, a) ∈ left.registry.entries
  /-- Who comes lives and was in no context. -/
  joined : ∀ a, a ∈ v.newcomers adds ↔
    a ∈ adds ∧ v.alive a = true ∧ ∀ d, v.containsAgent d a = false
  inOrder : (v.newcomers adds).Pairwise fun a b => adds.idxOf a < adds.idxOf b
  /-- Each that comes takes the next id, and has it afterwards unless it was to go. -/
  numbered : ∀ (k : Nat) a, (v.newcomers adds)[k]? = some a → a ∉ removes →
    ∃ agent, v.live? a = some agent ∧ (agent.priority,
      ⟨.ofNat (ctx.registry.lastId.toNat + k + 1)⟩, a) ∈ left.registry.entries
  lastId : left.registry.lastId.toNat = ctx.registry.lastId.toNat + (v.newcomers adds).length
  /-- Who leaves was in the context at the end of the walk, or has just come. -/
  gone : ∀ a, a ∈ v.leavers ctx.id adds removes ↔
    a ∈ removes ∧ (v.containsAgent c a = true ∨ a ∈ v.newcomers adds)
  once : (v.leavers ctx.id adds removes).Nodup
  added : report.added = (v.newcomers adds).length
  removed : report.removed = (v.leavers ctx.id adds removes).length
  /-- What is left is alive. -/
  alive : ∀ a, u.alive a = v.alive a
  living : ∀ p i a, (p, i, a) ∈ left.registry.entries → u.alive a = true
  /-- A name goes if its agent is gone, has left, or was refused. -/
  named : ∀ name a, left.registry.named.get? name = some a ↔
    ended.registry.named.get? name = some a ∧ u.alive a = true ∧
      ¬(a ∈ adds ∧ ∃ d, d ≠ c ∧ v.containsAgent d a = true) ∧
      a ∉ v.leavers ctx.id adds removes
  /-- No request waits, and one more tick is complete. -/
  quiet : left.registry.pendingAdd = [] ∧ left.registry.pendingRemove = []
  idle : left.executing = false ∧ left.inUse = ctx.inUse
  clock : left.clock = ctx.clock.advance
  frame : report.frame = ctx.clock.advance.frames

/-- The end of a walk serves the requests that wait then. -/
theorem Finished.served {ended left : Context} {v u : World τ α} {report : TickReport}
    (h : Finished c ctx.inUse ended left v u) (hv : v.DistinctIds ∧ v.Coherent) (hu : u.Coherent)
    (hended : v.context? c = some ended) (hid : ended.id = ctx.id)
    (hclock : ended.clock = ctx.clock) (hlast : ended.registry.lastId = ctx.registry.lastId)
    (hentries : ended.registry.entries = ctx.registry.entries)
    (hadded : report.added = (v.newcomers ended.registry.pendingAdd).length)
    (hremoved : report.removed = (v.leavers ctx.id ended.registry.pendingAdd
      ended.registry.pendingRemove).length)
    (hframe : report.frame = left.clock.frames) :
    Served c ctx ended left ended.registry.pendingAdd ended.registry.pendingRemove v u report := by
  obtain ⟨hleft, hadvance, hidle, hfree, hadd, hrem⟩ := Context.parts_of_setting h.setting
  replace hleft : left.id = ctx.id := hleft.trans hid
  replace hadvance : left.clock = ctx.clock.advance := hclock ▸ hadvance
  have hhere : ∀ a, u.isAt ctx.id a = true ↔ u.alive a = true ∧
      ∃ p i, (p, i, a) ∈ left.registry.entries := fun a => hleft ▸ isAt_iff_entry hu h.here
  have hthere : ∀ a, v.isAt ctx.id a = true ↔ v.alive a = true ∧
      ∃ p i, (p, i, a) ∈ ctx.registry.entries := fun a =>
    hid ▸ hentries ▸ isAt_iff_entry hv.2 hended
  have hcontains : ∀ a, v.containsAgent c a = v.isAt ctx.id a := fun a =>
    hid ▸ containsAgent_eq hv.2 hended
  have hjoined : ∀ a, a ∈ v.newcomers ended.registry.pendingAdd ↔ a ∈ ended.registry.pendingAdd ∧
      v.alive a = true ∧ ∀ d, v.containsAgent d a = false := fun a => by
    rw [newcomers, mem_distinctAt, isAt_invalid_iff hv]
  have hat := hid ▸ h.isAt
  refine ⟨fun a => ⟨?_, ?_⟩, fun p i a he ha hr => ?_, hjoined, pairwise_eraseDups _ _,
    fun k a hk hr => ?_, hlast ▸ h.lastId, fun a => ?_, ?_, hadded, hremoved, h.alive,
    fun p i a he => (h.alive a).trans (h.entries p i a he), fun name a => ?_,
    ⟨hadd, hrem⟩, ⟨hidle, hfree⟩, hadvance, hframe.trans (congrArg Clock.frames hadvance)⟩
  · rintro ⟨p, i, he⟩
    have ha : u.alive a = true := (h.alive a).trans (h.entries p i a he)
    obtain ⟨hor, hr⟩ := (hat a).1 ((hhere a).2 ⟨ha, p, i, he⟩)
    refine ⟨ha, hor.imp (fun hold => ((hthere a).1 hold).2) fun hnew => ?_, hr⟩
    obtain ⟨hm, -, hno⟩ := (hjoined a).1 hnew
    exact ⟨hm, fun d _ => hno d⟩
  · rintro ⟨ha, hor, hr⟩
    have hva : v.alive a = true := (h.alive a).symm.trans ha
    refine ((hhere a).1 ((hat a).2 ⟨?_, hr⟩)).2
    by_cases hold : v.isAt ctx.id a = true
    · exact .inl hold
    rcases hor with hor | ⟨hm, hno⟩
    · exact absurd ((hthere a).2 ⟨hva, hor⟩) hold
    refine .inr ((hjoined a).2 ⟨hm, hva, fun d => ?_⟩)
    by_cases hd : d = c
    · rw [hd, hcontains]
      exact Bool.eq_false_iff.2 hold
    · exact hno d hd
  · obtain ⟨agent, hl⟩ := alive_iff.1 ((h.alive a).symm.trans ha)
    obtain ⟨hplace, hprio⟩ := (hv.2.entered c ended a agent hended hl p i).1 (hentries ▸ he)
    have hnot : a ∉ v.newcomers ended.registry.pendingAdd := fun hm => by
      have hinvalid := (mem_distinctAt.1 hm).2
      rw [isAt_eq hl, hplace, beq_iff_eq] at hinvalid
      exact hv.1.valid c ended hended hinvalid
    refine (hu.entered c left a agent h.here ((h.stays a hnot hr).trans hl) p i).2 ⟨?_, hprio⟩
    rw [hplace, hleft, hid]
  · obtain ⟨agent, hl, hl'⟩ := h.joins k a hk hr
    refine ⟨agent, hl, (hu.entered c left a _ h.here hl' _ _).2 ⟨?_, rfl⟩⟩
    rw [hleft, hid, hlast]
  · rw [leavers, List.mem_eraseDups, List.mem_filter, Bool.or_eq_true, List.contains_iff_mem,
      hcontains]
  · refine (pairwise_eraseDups _ _).imp fun hlt => ?_
    rintro rfl
    omega
  · rw [h.named, h.alive, isElsewhere_iff hv hended, hid]

variable [Behavior τ α]

/-- Requests are served after the walk of a tick, whatever its tasks do, as long as ids last. -/
theorem requests_served (n : Nat) (w : World τ α) (c : ContextRef) (ctx : Context)
    (hids : w.DistinctIds) (hcoh : w.Coherent) (hc : w.context? c = some ctx)
    (hx : ctx.executing = false) (hT : TaskOpsOnly c (w.tickMoments n c))
    (hroom : ctx.registry.lastId.toNat +
      ((w.walkEnd n c ctx).newcomers (additions c (w.tickMoments n c))).length <
        AgentId.invalid.number.toNat) :
    ∃ ended left, (w.walkEnd n c ctx).context? c = some ended ∧
      (w.tickWith (nested n) c).2.context? c = some left ∧
      Served c ctx ended left (additions c (w.tickMoments n c)) (removals c (w.tickMoments n c))
        (w.walkEnd n c ctx) (w.tickWith (nested n) c).2 (w.tickWith (nested n) c).1 := by
  -- at the end of the walk the requests wait in the order in which they were made
  have hstart := context?_modifyContext_self hc
    fun ctx => { ctx with executing := true, inUse := true }
  obtain ⟨ended, hended, hcore, hadd, hrem⟩ := (tickWalk_during n hc hx hT).queued _ hstart rfl rfl
  obtain ⟨hqadd, hqrem⟩ := hcoh.quiet c ctx hc hx
  replace hadd : ended.registry.pendingAdd = additions c (w.tickMoments n c) := by
    rw [hadd]
    show ctx.registry.pendingAdd ++ _ = _
    rw [hqadd, List.nil_append]
  replace hrem : ended.registry.pendingRemove = removals c (w.tickMoments n c) := by
    rw [hrem]
    show ctx.registry.pendingRemove ++ _ = _
    rw [hqrem, List.nil_append]
  obtain ⟨hid, -, hclock, -, -, hlast, hbuckets, -⟩ := Context.parts_of_core hcore
  have hentries : ended.registry.entries = ctx.registry.entries := by
    rw [Registry.entries, hbuckets]
    rfl
  have hv := coherent_walkWorlds n ⟨hids, hcoh⟩ hc hx (w.walkEnd n c ctx)
    (List.mem_append_right _ List.mem_cons_self)
  obtain ⟨hreport, e, hafter⟩ := tickWith_parts n hc hx
  obtain ⟨hcounts, left, hf⟩ := finishWalk_finished ctx.inUse hv hended (by
    rw [hlast, hadd]
    exact hroom)
  have hu := Coherent.edits ((finishWalk_edits hended).report e)
    (coherent_settle hv ctx.inUse hended)
  rw [hafter, hreport]
  -- the worlds and the requests are now any that are so related
  generalize additions c (w.tickMoments n c) = adds at *
  generalize removals c (w.tickMoments n c) = removes at *
  generalize w.walkEnd n c ctx = v at *
  generalize v.finishWalk c ctx.inUse = r at *
  generalize ((w.startWalk c).walk (nested n) c ctx.registry.walkOrder).1 = visits at *
  subst hadd hrem
  replace hid : ended.id = ctx.id := hid
  rw [hid] at hcounts
  have hadded : (tickReport visits r.1 c r.2).added = _ := congrArg Prod.fst hcounts
  have hremoved : (tickReport visits r.1 c r.2).removed = _ := congrArg Prod.snd hcounts
  have hframe : (tickReport visits r.1 c r.2).frame = left.clock.frames := by
    show ((r.2.context? c).map _).getD 0 = _
    rw [hf.here]
    rfl
  have hreported : Finished c ctx.inUse ended left v (r.2.report e) := { hf with }
  exact ⟨ended, left, hended, hf.here,
    hreported.served hv hu.2 hended hid hclock hlast hentries hadded hremoved hframe⟩

/-- A tick of the first of two contexts asks for four agents, for one of them twice. The second
context takes one of the four meanwhile, one is given up, and one is to go again at once, as is
an agent that the first context has. -/
def requestDeeds : List (Deed Routine Unit) :=
  let first : ContextRef := ⟨0⟩
  let second : ContextRef := ⟨1⟩
  [.newContext ⟨1⟩ sampleTypes 10, .newContext ⟨2⟩ sampleTypes 10,
    .create ⟨"asking", "Agent", 0, ⟨[.here (.add ⟨2⟩), .here (.add ⟨3⟩), .here (.add ⟨2⟩),
      .here (.bind "Boss" ⟨3⟩), .here (.bind "Hand" ⟨2⟩), .there second (.task (.add ⟨3⟩)),
      .here (.remove ⟨4⟩), .here (.add ⟨4⟩), .here (.add ⟨5⟩), .disown ⟨5⟩,
      .here (.remove ⟨1⟩)]⟩⟩,
    .create ⟨"leaving", "Agent", 3, ⟨[]⟩⟩, .create ⟨"joining", "Worker", 3, ⟨[]⟩⟩,
    .create ⟨"taken", "Worker", 0, ⟨[]⟩⟩, .create ⟨"passing", "Agent", 0, ⟨[]⟩⟩,
    .create ⟨"brief", "Agent", 0, ⟨[]⟩⟩,
    .on first (.task (.add ⟨0⟩)), .on first (.task (.add ⟨1⟩))]

/-- The world before such a tick. -/
def requestWorld : World Routine Unit := run requestDeeds { host := { app := () } }

theorem requests_served_sample : ∃ ctx ended left, requestWorld.context? ⟨0⟩ = some ctx ∧
    (requestWorld.tickWith (nested 2) ⟨0⟩).2.context? ⟨0⟩ = some left ∧
    Served ⟨0⟩ ctx ended left (additions ⟨0⟩ (requestWorld.tickMoments 2 ⟨0⟩))
      (removals ⟨0⟩ (requestWorld.tickMoments 2 ⟨0⟩)) (requestWorld.walkEnd 2 ⟨0⟩ ctx)
      (requestWorld.tickWith (nested 2) ⟨0⟩).2 (requestWorld.tickWith (nested 2) ⟨0⟩).1 := by
  have hids : ∀ v ∈ points requestDeeds ({ host := { app := () } } : World Routine Unit),
      v.contextIds.Nodup ∧ .invalid ∉ v.contextIds := by decide +kernel
  have hd : ∀ v ∈ points requestDeeds ({ host := { app := () } } : World Routine Unit),
      v.DistinctIds := fun v hv => .of_contextIds (hids v hv)
  have hlast : requestWorld ∈ points requestDeeds { host := { app := () } } := run_mem_points ..
  have hT : TaskOpsOnly ⟨0⟩ (requestWorld.tickMoments 2 ⟨0⟩) := by decide +kernel
  have hready : (requestWorld.context? ⟨0⟩).any (fun ctx => !ctx.executing &&
      decide (ctx.registry.lastId.toNat + ((requestWorld.walkEnd 2 ⟨0⟩ ctx).newcomers
        (additions ⟨0⟩ (requestWorld.tickMoments 2 ⟨0⟩))).length <
          AgentId.invalid.number.toNat)) = true := by decide +kernel
  obtain ⟨ctx, hc, hctx⟩ := (Option.any_eq_true _ _).1 hready
  rw [Bool.and_eq_true, Bool.not_eq_true', decide_eq_true_eq] at hctx
  obtain ⟨ended, left, -, hleft, hserved⟩ := requests_served 2 requestWorld ⟨0⟩ ctx (hd _ hlast)
    (coherent_points _ requestDeeds hd _ hlast) hc hctx.1 hT hctx.2
  exact ⟨ctx, ended, left, hc, hleft, hserved⟩

end AgentScheduler.World
