/-
How the requests of a tick are applied. `drain_additions` and `drain_removals`
say what comes of a queue of requests, whatever is in it: agents asked for
several times, agents that are gone, agents of other contexts. `Finished` puts
the two together with what follows them.
-/
import AgentScheduler.Proofs.Coherence
import Mathlib.Data.List.Basic

namespace AgentScheduler

/-- A context apart from its agents and names. -/
def Context.setting (ctx : Context) : Context :=
  { ctx with registry :=
      { pendingAdd := ctx.registry.pendingAdd, pendingRemove := ctx.registry.pendingRemove } }

theorem Context.parts_of_setting {ctx ctx' : Context} (h : ctx'.setting = ctx.setting) :
    ctx'.id = ctx.id ∧ ctx'.clock = ctx.clock ∧ ctx'.executing = ctx.executing ∧
      ctx'.inUse = ctx.inUse ∧ ctx'.registry.pendingAdd = ctx.registry.pendingAdd ∧
      ctx'.registry.pendingRemove = ctx.registry.pendingRemove := by
  simp only [Context.setting, Context.mk.injEq, Registry.mk.injEq] at h
  obtain ⟨hid, -, ⟨-, -, -, -, hadd, hrem⟩, -, hclock, hx, hu, -⟩ := h
  exact ⟨hid, hclock, hx, hu, hadd, hrem⟩

/-- Without repetitions, agents come in the order in which they first occur. -/
theorem pairwise_eraseDups (l : List AgentRef) (p : AgentRef → Bool) :
    (l.filter p).eraseDups.Pairwise fun a b => l.idxOf a < l.idxOf b := by
  induction l generalizing p with
  | nil => exact List.Pairwise.nil
  | cons x l ih =>
    have hlift : ∀ q : AgentRef → Bool, q x = false → (l.filter q).eraseDups.Pairwise fun a b =>
        (x :: l).idxOf a < (x :: l).idxOf b := by
      intro q hq
      have hmem : ∀ {b}, b ∈ (l.filter q).eraseDups → x ≠ b := by
        rintro b hb rfl
        rw [List.mem_eraseDups, List.mem_filter, hq] at hb
        cases hb.2
      refine (ih q).imp_of_mem fun ha hb hab => ?_
      rw [List.idxOf_cons_ne l (hmem ha), List.idxOf_cons_ne l (hmem hb)]
      omega
    by_cases hp : p x = true
    · rw [List.filter_cons_of_pos hp, List.eraseDups_cons, List.filter_filter, List.pairwise_cons]
      refine ⟨fun b hb => ?_, hlift _ (by simp)⟩
      rw [List.mem_eraseDups, List.mem_filter] at hb
      have hbx : x ≠ b := by
        rintro rfl
        simp at hb
      rw [List.idxOf_cons_ne l hbx, List.idxOf_cons_self]
      omega
    · rw [List.filter_cons_of_neg hp]
      exact hlift p (Bool.eq_false_iff.2 hp)

namespace World

variable {τ α : Type} {w v : World τ α} {c : ContextRef} {a b : AgentRef} {ctx ctx' : Context}
  {agent : Agent τ} {l : List AgentRef} {id : ContextId}

/-! ## Where agents are -/

/-- The agent lives and names this context, or none if it is the invalid one. -/
def isAt (w : World τ α) (id : ContextId) (a : AgentRef) : Bool :=
  (w.live? a).any (·.place.context == id)

/-- The agent lives and is registered in another context. -/
def isElsewhere (w : World τ α) (id : ContextId) (a : AgentRef) : Bool :=
  (w.live? a).any fun agent => agent.place.context != .invalid && agent.place.context != id

/-- The agents of a list that name a context, each once, in the order in which they first
occur. -/
def distinctAt (w : World τ α) (id : ContextId) (l : List AgentRef) : List AgentRef :=
  (l.filter (w.isAt id)).eraseDups

theorem isAt_eq (hl : w.live? a = some agent) : w.isAt id a = (agent.place.context == id) := by
  rw [isAt, hl, Option.any_some]

theorem isElsewhere_eq (hl : w.live? a = some agent) : w.isElsewhere id a =
    (agent.place.context != .invalid && agent.place.context != id) := by
  rw [isElsewhere, hl, Option.any_some]

theorem isAt_of_gone (hl : w.live? a = none) : w.isAt id a = false := by
  rw [isAt, hl, Option.any_none]

theorem isElsewhere_of_gone (hl : w.live? a = none) : w.isElsewhere id a = false := by
  rw [isElsewhere, hl, Option.any_none]

theorem isAt_congr (h : v.live? a = w.live? a) : v.isAt id a = w.isAt id a := by
  rw [isAt, isAt, h]

theorem isElsewhere_congr (h : v.live? a = w.live? a) :
    v.isElsewhere id a = w.isElsewhere id a := by
  rw [isElsewhere, isElsewhere, h]

section Move

variable {place : Registration} (hl : w.live? a = some agent)
  (ha : ∀ b, v.agent? b = if b = a then some { agent with place } else w.agent? b)

include hl ha

theorem isAt_move (b : AgentRef) :
    v.isAt id b = if b = a then place.context == id else w.isAt id b := by
  rw [isAt, live?_move hl ha]
  split <;> rfl

theorem isElsewhere_move (b : AgentRef) : v.isElsewhere id b =
    if b = a then place.context != .invalid && place.context != id else w.isElsewhere id b := by
  rw [isElsewhere, live?_move hl ha]
  split <;> rfl

end Move

theorem mem_distinctAt : a ∈ w.distinctAt id l ↔ a ∈ l ∧ w.isAt id a = true := by
  rw [distinctAt, List.mem_eraseDups, List.mem_filter]

theorem distinctAt_congr (h : ∀ b, v.isAt id b = w.isAt id b) :
    v.distinctAt id l = w.distinctAt id l := by
  rw [distinctAt, distinctAt, show v.isAt id = w.isAt id from funext h]

theorem distinctAt_cons_of_not (h : w.isAt id a = false) :
    w.distinctAt id (a :: l) = w.distinctAt id l := by
  rw [distinctAt, List.filter_cons_of_neg (by simp [h]), distinctAt]

/-- Once the first agent is away, the list goes on with the others. -/
theorem distinctAt_cons (h : w.isAt id a = true)
    (hv : ∀ b, v.isAt id b = (w.isAt id b && b != a)) :
    w.distinctAt id (a :: l) = a :: v.distinctAt id l := by
  rw [distinctAt, List.filter_cons_of_pos h, List.eraseDups_cons, List.filter_filter, distinctAt]
  refine congrArg (fun l => a :: List.eraseDups l) (List.filter_congr fun b _ => ?_)
  rw [hv b, Bool.and_comm]
  rfl

theorem containsAgent_eq (hw : w.Coherent) (hc : w.context? c = some ctx) :
    w.containsAgent c a = w.isAt ctx.id a := by
  cases hl : w.live? a with
  | none =>
    rw [isAt_of_gone hl]
    simp only [containsAgent, hc, hl]
  | some agent =>
    rw [isAt_eq hl, Bool.eq_iff_iff, containsAgent_iff hc hl, hw.holds_iff_place hc hl, beq_iff_eq]

theorem containsAgent_of_none (hc : w.context? c = none) : w.containsAgent c a = false := by
  simp only [containsAgent, hc]

theorem isAt_iff_entry (hw : w.Coherent) (hc : w.context? c = some ctx) :
    w.isAt ctx.id a = true ↔ w.alive a = true ∧ ∃ p i, (p, i, a) ∈ ctx.registry.entries := by
  cases hl : w.live? a with
  | none => simp [isAt_of_gone hl, alive, hl]
  | some agent =>
    rw [isAt_eq hl, beq_iff_eq, ← hw.holds_iff_place hc hl, hw.holds_iff hc hl,
      and_iff_right (alive_of_live? hl)]

/-- An agent is elsewhere if another context says that it holds it. -/
theorem isElsewhere_iff (hw : w.DistinctIds ∧ w.Coherent) (hc : w.context? c = some ctx) :
    w.isElsewhere ctx.id a = true ↔ ∃ d, d ≠ c ∧ w.containsAgent d a = true := by
  rw [isElsewhere, Option.any_eq_true]
  constructor
  · rintro ⟨agent, hl, hp⟩
    rw [Bool.and_eq_true, bne_iff_ne, bne_iff_ne] at hp
    obtain ⟨d, x, hx, hid⟩ := hw.2.housed a agent hl hp.1
    refine ⟨d, ?_, ?_⟩
    · rintro rfl
      rw [hc] at hx
      cases hx
      exact hp.2 hid.symm
    · rw [containsAgent_eq hw.2 hx, isAt_eq hl, hid, beq_self_eq_true]
  · rintro ⟨d, hd, hx⟩
    cases hdx : w.context? d with
    | none =>
      rw [containsAgent_of_none hdx] at hx
      cases hx
    | some x =>
      rw [containsAgent_eq hw.2 hdx, isAt, Option.any_eq_true] at hx
      obtain ⟨agent, hl, hp⟩ := hx
      rw [beq_iff_eq] at hp
      refine ⟨agent, hl, ?_⟩
      rw [Bool.and_eq_true, bne_iff_ne, bne_iff_ne, hp]
      exact ⟨hw.1.valid d x hdx, fun he => hd (hw.1.unique d c x ctx hdx hc he).symm⟩

/-- An agent is at no context if none says that it holds it. -/
theorem isAt_invalid_iff (hw : w.DistinctIds ∧ w.Coherent) :
    w.isAt .invalid a = true ↔ w.alive a = true ∧ ∀ d, w.containsAgent d a = false := by
  cases hl : w.live? a with
  | none => simp [isAt_of_gone hl, alive, hl]
  | some agent =>
    rw [isAt_eq hl, beq_iff_eq, and_iff_right (alive_of_live? hl)]
    constructor
    · intro hp d
      cases hd : w.context? d with
      | none => exact containsAgent_of_none hd
      | some x =>
        rw [containsAgent_eq hw.2 hd, isAt_eq hl, hp]
        exact beq_false_of_ne (hw.1.valid d x hd).symm
    · intro hnone
      refine Classical.byContradiction fun hp => ?_
      obtain ⟨d, x, hd, hid⟩ := hw.2.housed a agent hl hp
      have hx := hnone d
      rw [containsAgent_eq hw.2 hd, isAt_eq hl, hid, beq_self_eq_true] at hx
      cases hx

/-! ## Additions -/

/-- What becomes of requested additions: the agents `new` are registered in turn, and names of
agents of other contexts go. -/
structure Enrolled (c : ContextRef) (l new : List AgentRef) (w v : World τ α)
    (ctx ctx' : Context) : Prop where
  here : v.context? c = some ctx'
  setting : ctx'.setting = ctx.setting
  lastId : ctx'.registry.lastId.toNat = ctx.registry.lastId.toNat + new.length
  others : ∀ b, b ∉ new → v.agent? b = w.agent? b
  ids : ∀ k b agent, new[k]? = some b → w.agent? b = some agent → v.agent? b =
    some { agent with place := ⟨ctx.id, ⟨.ofNat (ctx.registry.lastId.toNat + k + 1)⟩⟩ }
  named : ∀ name b, ctx'.registry.named.get? name = some b ↔
    ctx.registry.named.get? name = some b ∧ ¬(b ∈ l ∧ w.isElsewhere ctx.id b = true)

namespace Enrolled

variable {new : List AgentRef} {u : World τ α}

theorem nil (hc : w.context? c = some ctx) : Enrolled c [] [] w w ctx ctx := by
  refine ⟨hc, rfl, rfl, fun _ _ => rfl, fun k b agent hk => (by cases hk), fun name b => ?_⟩
  simp

/-- An agent that is gone, or in the context, is asked for in vain. -/
theorem skip (helse : w.isElsewhere ctx.id a = false) (h : Enrolled c l new w v ctx ctx') :
    Enrolled c (a :: l) new w v ctx ctx' := by
  refine ⟨h.here, h.setting, h.lastId, h.others, h.ids, fun name b => ?_⟩
  rw [h.named, List.mem_cons]
  refine and_congr_right fun _ => not_congr ⟨fun hb => ⟨.inr hb.1, hb.2⟩, ?_⟩
  rintro ⟨rfl | hb, hb'⟩
  · rw [helse] at hb'; cases hb'
  · exact ⟨hb, hb'⟩

/-- An agent that is in no context is registered. -/
theorem join {i : AgentId} (hl : w.live? a = some agent) (hp : agent.place.context = .invalid)
    (hn : ctx.registry.nextId? = some i)
    (ha : ∀ b, u.agent? b = if b = a then some { agent with place := ⟨ctx.id, i⟩ }
      else w.agent? b) (hnot : a ∉ new)
    (h : Enrolled c l new u v (ctx.withRegistry (·.register a agent.priority i)) ctx') :
    Enrolled c (a :: l) (a :: new) w v ctx ctx' := by
  have hi := (Registry.nextId?_eq_some hn).1
  have hother : ∀ b, b ≠ a → u.agent? b = w.agent? b := fun b hb => by rw [ha, if_neg hb]
  have hlast : ctx'.registry.lastId.toNat = i.number.toNat + new.length := h.lastId
  refine ⟨h.here, h.setting, ?_, fun b hb => ?_, fun k b x hk hb => ?_, fun name b => ?_⟩
  · rw [hlast, hi, List.length_cons]
    omega
  · rw [List.mem_cons, not_or] at hb
    rw [h.others b hb.2, hother b hb.1]
  · cases k with
    | zero =>
      obtain rfl : a = b := Option.some.inj hk
      rw [(live?_eq_some.1 hl).1] at hb
      cases hb
      rw [h.others a hnot, ha, if_pos rfl, Nat.add_zero, ← hi, UInt32.ofNat_toNat]
    | succ k =>
      have hne : b ≠ a := fun he => hnot (he ▸ List.mem_of_getElem? hk)
      have hk' : ctx.registry.lastId.toNat + (k + 1) + 1 = i.number.toNat + k + 1 := by omega
      rw [hk']
      exact h.ids k b x hk ((hother b hne).trans hb)
  · refine (h.named name b).trans (and_congr_right fun _ => not_congr ?_)
    show b ∈ l ∧ u.isElsewhere ctx.id b = true ↔ _
    rw [isElsewhere_move hl ha, List.mem_cons]
    by_cases hb : b = a
    · subst hb
      simp [isElsewhere_eq hl, hp]
    · simp [hb]

/-- An agent of another context is refused, and its names go. -/
theorem refuse (helse : w.isElsewhere ctx.id a = true) (ha : ∀ b, u.agent? b = w.agent? b)
    (h : Enrolled c l new u v (ctx.withRegistry (·.unbindAgent a)) ctx') :
    Enrolled c (a :: l) new w v ctx ctx' := by
  refine ⟨h.here, h.setting, h.lastId, fun b hb => (h.others b hb).trans (ha b),
    fun k b x hk hb => h.ids k b x hk ((ha b).trans hb), fun name b => (h.named name b).trans ?_⟩
  show (ctx.registry.unbindAgent a).named.get? name = some b ∧
    ¬(b ∈ l ∧ u.isElsewhere ctx.id b = true) ↔ _
  rw [isElsewhere_congr (live?_congr (ha b)), Registry.named_unbindAgent, and_assoc, List.mem_cons]
  refine and_congr_right fun _ => ⟨?_, fun hb => ⟨?_, fun hb' => hb ⟨.inr hb'.1, hb'.2⟩⟩⟩
  · rintro ⟨hne, hb⟩ ⟨hb', hb''⟩
    exact hb ⟨hb'.resolve_left hne, hb''⟩
  · rintro rfl
    exact hb ⟨.inl rfl, helse⟩

end Enrolled

/-- With room for one more agent, only agents of other contexts are refused. -/
theorem elsewhere_of_refused (hw : w.Coherent) (hc : w.context? c = some ctx)
    (hl : w.live? a = some agent) (hroom : ctx.registry.lastId.toNat +
      (w.distinctAt .invalid (a :: l)).length < AgentId.invalid.number.toNat)
    (he : (∃ owner, ctx.entry agent.place = .elsewhere owner) ∨
      ctx.entry agent.place = .exhausted) :
    agent.place.context ≠ .invalid ∧ agent.place.context ≠ ctx.id := by
  rcases he with ⟨owner, he⟩ | he
  · exact Context.entry_elsewhere he
  have hp := hw.free_of_entry hc hl (by simp [he]) (by simp [he])
  have hmem : a ∈ w.distinctAt .invalid (a :: l) :=
    mem_distinctAt.2 ⟨List.mem_cons_self, by rw [isAt_eq hl, hp, beq_self_eq_true]⟩
  have hpos := List.length_pos_of_mem hmem
  have hnone := Context.nextId?_of_exhausted he
  rw [Registry.nextId?, if_pos (by omega)] at hnone
  cases hnone

/-- Requested additions register each agent that is in no context, if ids last. -/
theorem drain_additions (hw : w.DistinctIds ∧ w.Coherent) (hc : w.context? c = some ctx)
    (hx : ctx.executing = false)
    (hroom : ctx.registry.lastId.toNat + (w.distinctAt .invalid l).length <
      AgentId.invalid.number.toNat) :
    (w.drain (drainAddition c) l).1 = (w.distinctAt .invalid l).length ∧ ∃ ctx',
      Enrolled c l (w.distinctAt .invalid l) w (w.drain (drainAddition c) l).2 ctx ctx' := by
  induction l generalizing w ctx with
  | nil => exact ⟨rfl, ctx, .nil hc⟩
  | cons a l ih =>
    have hstep := drainAddition_cases (a := a) hc
    have hw' := Coherent.edits (drainAddition_edits (a := a) (idle_of hc hx)) hw
    simp only [drain]
    generalize w.drainAddition c a = r at hstep hw'
    have hvalid : ctx.id ≠ .invalid := hw.1.valid c ctx hc
    cases hstep with
    | gone hl =>
      rw [distinctAt_cons_of_not (isAt_of_gone hl)] at hroom ⊢
      obtain ⟨hcount, ctx', h⟩ := ih hw hc hx hroom
      exact ⟨hcount, ctx', h.skip (isElsewhere_of_gone hl)⟩
    | already hl he =>
      have hp := (hw.2.holds_iff_place hc hl).1 (Context.entry_alreadyHere he)
      have hat : w.isAt .invalid a = false := by
        rw [isAt_eq hl, hp]
        exact beq_false_of_ne hvalid
      rw [distinctAt_cons_of_not hat] at hroom ⊢
      obtain ⟨hcount, ctx', h⟩ := ih hw hc hx hroom
      exact ⟨hcount, ctx', h.skip (by rw [isElsewhere_eq hl, hp]; simp)⟩
    | @fresh agent i v hl he hv ha =>
      obtain ⟨hp, hn⟩ := hw.2.fresh_invalid hc hl he
      have hi := (Registry.nextId?_eq_some hn).1
      have hat : w.isAt .invalid a = true := by rw [isAt_eq hl, hp, beq_self_eq_true]
      have hrest : ∀ b, v.isAt .invalid b = (w.isAt .invalid b && b != a) := by
        intro b
        rw [isAt_move hl ha]
        by_cases hb : b = a <;> simp [hb, hvalid]
      have hnot : a ∉ v.distinctAt .invalid l := fun hm => by
        have := (mem_distinctAt.1 hm).2
        rw [hrest] at this
        simp at this
      rw [distinctAt_cons hat hrest] at hroom ⊢
      rw [List.length_cons] at hroom
      obtain ⟨hcount, ctx', h⟩ := ih (w := v) hw' hv.self hx (by
        show i.number.toNat + _ < _
        omega)
      exact ⟨by rw [if_pos rfl, hcount, List.length_cons], ctx', h.join hl hp hn ha hnot⟩
    | @refused agent v hl he hv ha =>
      have hp := elsewhere_of_refused hw.2 hc hl hroom he
      have hat : w.isAt .invalid a = false := by
        rw [isAt_eq hl]
        exact beq_false_of_ne hp.1
      rw [distinctAt_cons_of_not hat,
        ← distinctAt_congr (v := v) fun b => isAt_congr (live?_congr (ha b))] at hroom ⊢
      obtain ⟨hcount, ctx', h⟩ := ih (w := v) hw' hv.self hx hroom
      exact ⟨hcount, ctx', h.refuse (by rw [isElsewhere_eq hl]; simpa using hp) ha⟩

namespace Enrolled

variable (h : Enrolled c l (w.distinctAt .invalid l) w v ctx ctx')

include h

/-- A new agent, and the place it is given. -/
theorem live_new {k : Nat} (hk : (w.distinctAt .invalid l)[k]? = some a) :
    ∃ agent, w.live? a = some agent ∧ v.live? a = some { agent with
      place := ⟨ctx.id, ⟨.ofNat (ctx.registry.lastId.toNat + k + 1)⟩⟩ } := by
  have hat := (mem_distinctAt.1 (List.mem_of_getElem? hk)).2
  rw [isAt, Option.any_eq_true] at hat
  obtain ⟨agent, hl, -⟩ := hat
  obtain ⟨hag, halive⟩ := live?_eq_some.1 hl
  exact ⟨agent, hl, live?_eq_some.2 ⟨h.ids k a agent hk hag, halive⟩⟩

theorem live_other (ha : a ∉ w.distinctAt .invalid l) : v.live? a = w.live? a :=
  live?_congr (h.others a ha)

theorem alive : v.alive a = w.alive a := by
  by_cases ha : a ∈ w.distinctAt .invalid l
  · obtain ⟨k, hk⟩ := List.mem_iff_getElem?.1 ha
    obtain ⟨agent, hl, hl'⟩ := h.live_new hk
    rw [World.alive, World.alive, hl, hl']
    rfl
  · rw [World.alive, World.alive, h.live_other ha]

theorem isAt_iff : v.isAt ctx.id a = true ↔
    w.isAt ctx.id a = true ∨ a ∈ w.distinctAt .invalid l := by
  by_cases ha : a ∈ w.distinctAt .invalid l
  · obtain ⟨k, hk⟩ := List.mem_iff_getElem?.1 ha
    obtain ⟨agent, -, hl'⟩ := h.live_new hk
    rw [isAt_eq hl']
    simp [ha]
  · rw [isAt_congr (h.live_other ha)]
    simp [ha]

end Enrolled

/-! ## Removals -/

/-- What becomes of requested removals: the agents `gone` are unregistered, and their names go. -/
structure Dismissed (c : ContextRef) (gone : List AgentRef) (w v : World τ α)
    (ctx ctx' : Context) : Prop where
  here : v.context? c = some ctx'
  setting : ctx'.setting = ctx.setting
  lastId : ctx'.registry.lastId = ctx.registry.lastId
  agents : ∀ b, v.agent? b = (w.agent? b).map fun agent =>
    if b ∈ gone then { agent with place := {} } else agent
  named : ∀ name b, ctx'.registry.named.get? name = some b ↔
    ctx.registry.named.get? name = some b ∧ b ∉ gone

namespace Dismissed

variable {gone : List AgentRef} {u : World τ α}

theorem nil (hc : w.context? c = some ctx) : Dismissed c [] w w ctx ctx := by
  refine ⟨hc, rfl, rfl, fun b => ?_, fun name b => ?_⟩
  · simp
  · simp

/-- An agent of the context is unregistered, and its names go. -/
theorem leave {i : AgentId} {priority : Int32} (hl : w.live? a = some agent)
    (ha : ∀ b, u.agent? b = if b = a then some { agent with place := {} } else w.agent? b)
    (h : Dismissed c gone u v
      (ctx.withRegistry fun r => (r.unregister priority i).unbindAgent a) ctx') :
    Dismissed c (a :: gone) w v ctx ctx' := by
  refine ⟨h.here, h.setting, h.lastId, fun b => ?_, fun name b => (h.named name b).trans ?_⟩
  · rw [h.agents, ha]
    by_cases hb : b = a
    · rw [hb, if_pos rfl, (live?_eq_some.1 hl).1]
      simp
    · simp [hb]
  · show ((ctx.registry.unregister priority i).unbindAgent a).named.get? name = some b ∧ b ∉ _ ↔ _
    rw [Registry.named_unbindAgent, and_assoc, List.mem_cons, not_or]
    rfl

end Dismissed

/-- Requested removals unregister each agent of the context. -/
theorem drain_removals (hw : w.DistinctIds ∧ w.Coherent) (hc : w.context? c = some ctx)
    (hx : ctx.executing = false) :
    (w.drain (drainRemoval c) l).1 = (w.distinctAt ctx.id l).length ∧
      ∃ ctx', Dismissed c (w.distinctAt ctx.id l) w (w.drain (drainRemoval c) l).2 ctx ctx' := by
  induction l generalizing w ctx with
  | nil => exact ⟨rfl, ctx, .nil hc⟩
  | cons a l ih =>
    have hstep := drainRemoval_cases (a := a) hc
    have hw' := Coherent.edits (drainRemoval_edits (a := a) (idle_of hc hx)) hw
    simp only [drain]
    generalize w.drainRemoval c a = r at hstep hw'
    have hvalid : ctx.id ≠ .invalid := hw.1.valid c ctx hc
    cases hstep with
    | gone hl =>
      rw [distinctAt_cons_of_not (isAt_of_gone hl)]
      exact ih hw hc hx
    | absent hl he =>
      have hat : w.isAt ctx.id a = false := by
        rw [isAt_eq hl]
        refine beq_false_of_ne fun hp => ?_
        rw [(hw.2.holds_iff_place hc hl).2 hp] at he
        cases he
      rw [distinctAt_cons_of_not hat]
      exact ih hw hc hx
    | @left agent priority v hl hp _ hv ha =>
      have hat : w.isAt ctx.id a = true := by rw [isAt_eq hl, hp, beq_self_eq_true]
      have hrest : ∀ b, v.isAt ctx.id b = (w.isAt ctx.id b && b != a) := by
        intro b
        rw [isAt_move hl ha]
        by_cases hb : b = a <;> simp [hb, hvalid.symm]
      rw [distinctAt_cons hat hrest]
      obtain ⟨hcount, ctx', h⟩ := ih (w := v) hw' hv.self hx
      change _ = (v.distinctAt ctx.id l).length at hcount
      change Dismissed c (v.distinctAt ctx.id l) v _ _ ctx' at h
      exact ⟨by rw [if_pos rfl, hcount, List.length_cons], ctx', h.leave hl ha⟩

namespace Dismissed

variable (h : Dismissed c (w.distinctAt ctx.id l) w v ctx ctx')

include h

theorem live : v.live? a = (w.live? a).map fun agent =>
    if a ∈ w.distinctAt ctx.id l then { agent with place := {} } else agent :=
  live?_map (fun _ => by split <;> rfl) (h.agents a)

theorem alive : v.alive a = w.alive a := by
  rw [World.alive, World.alive, h.live, Option.isSome_map]

theorem live_other (ha : a ∉ l) : v.live? a = w.live? a := by
  have hn : a ∉ w.distinctAt ctx.id l := fun hm => ha (mem_distinctAt.1 hm).1
  rw [h.live]
  simp [hn]

theorem isAt_iff (hid : ctx.id ≠ .invalid) : v.isAt ctx.id a = true ↔
    w.isAt ctx.id a = true ∧ a ∉ l := by
  by_cases ha : a ∈ w.distinctAt ctx.id l
  · have hm := (mem_distinctAt.1 ha).1
    have hat : v.isAt ctx.id a = false := by
      rw [isAt, h.live, Option.any_map, Option.any_eq_false]
      intro agent _
      simpa [ha] using hid.symm
    simp [hat, hm]
  · rw [isAt_congr (v := v) (w := w) (by rw [h.live]; simp [ha])]
    refine (and_iff_left_of_imp fun hat hm => ?_).symm
    exact ha (mem_distinctAt.2 ⟨hm, hat⟩)

end Dismissed

/-! ## The end of a walk -/

/-- The end of a walk: additions, then removals, then what is gone goes and the clock advances. -/
theorem finishWalk_drains (inUse : Bool) (hw : w.DistinctIds ∧ w.Coherent)
    (hc : w.context? c = some ctx) (hroom : ctx.registry.lastId.toNat +
      (w.distinctAt .invalid ctx.registry.pendingAdd).length < AgentId.invalid.number.toNat) :
    ∃ v u ctx₁ ctx₂,
      Enrolled c ctx.registry.pendingAdd
        ((w.settle c inUse).distinctAt .invalid ctx.registry.pendingAdd)
        (w.settle c inUse) v (ctx.settled inUse) ctx₁ ∧
      Dismissed c (v.distinctAt ctx₁.id ctx.registry.pendingRemove) v u ctx₁ ctx₂ ∧
      (w.finishWalk c inUse).1 = ((w.distinctAt .invalid ctx.registry.pendingAdd).length,
        (v.distinctAt ctx₁.id ctx.registry.pendingRemove).length) ∧
      (w.finishWalk c inUse).2.context? c = some { ctx₂.withRegistry (·.prune u.alive) with
        clock := ctx₂.clock.advance } ∧
      ∀ a, (w.finishWalk c inUse).2.agent? a = u.agent? a := by
  have hw₀ : (w.settle c inUse).DistinctIds ∧ (w.settle c inUse).Coherent :=
    coherent_settle hw inUse hc
  have hc₀ : (w.settle c inUse).context? c = some (ctx.settled inUse) := context?_settle_self hc
  have hi : (w.settle c inUse).Idle c := idle_settle inUse hc
  obtain ⟨hadded, ctx₁, h₁⟩ := drain_additions (l := ctx.registry.pendingAdd) hw₀ hc₀ rfl hroom
  have hedits := drain_edits (drainAddition c) (fun _ _ => drainAddition_edits)
    ctx.registry.pendingAdd hi
  obtain ⟨hremoved, ctx₂, h₂⟩ := drain_removals (l := ctx.registry.pendingRemove)
    (Coherent.edits hedits hw₀) h₁.here ((hedits.idle hi) _ h₁.here)
  have hleft := context?_modifyContext_self (becomes_prune h₂.here).self
    fun ctx => { ctx with clock := ctx.clock.advance }
  rw [finishWalk_eq hc]
  exact ⟨_, _, ctx₁, ctx₂, h₁, h₂, Prod.ext hadded hremoved, hleft, fun a => agent?_prune⟩

/-- The agents that requested additions register, in the order of the requests: those that live
and are in no context. -/
def newcomers (w : World τ α) (adds : List AgentRef) : List AgentRef := w.distinctAt .invalid adds

/-- The agents that requested removals unregister: those of the context, and its newcomers. -/
def leavers (w : World τ α) (id : ContextId) (adds removes : List AgentRef) : List AgentRef :=
  (removes.filter fun a => w.isAt id a || (w.newcomers adds).contains a).eraseDups

/-- What the end of the walk of `ctx` comes to, which is `left` then. -/
structure Finished (c : ContextRef) (inUse : Bool) (ctx left : Context) (w u : World τ α) :
    Prop where
  here : u.context? c = some left
  setting : left.setting =
    { ctx.settled inUse with clock := ctx.clock.advance : Context }.setting
  lastId : left.registry.lastId.toNat =
    ctx.registry.lastId.toNat + (w.newcomers ctx.registry.pendingAdd).length
  alive : ∀ a, u.alive a = w.alive a
  stays : ∀ a, a ∉ w.newcomers ctx.registry.pendingAdd → a ∉ ctx.registry.pendingRemove →
    u.live? a = w.live? a
  joins : ∀ (k : Nat) a, (w.newcomers ctx.registry.pendingAdd)[k]? = some a →
    a ∉ ctx.registry.pendingRemove → ∃ agent, w.live? a = some agent ∧ u.live? a = some
      { agent with place := ⟨ctx.id, ⟨.ofNat (ctx.registry.lastId.toNat + k + 1)⟩⟩ }
  isAt : ∀ a, u.isAt ctx.id a = true ↔
    (w.isAt ctx.id a = true ∨ a ∈ w.newcomers ctx.registry.pendingAdd) ∧
      a ∉ ctx.registry.pendingRemove
  entries : ∀ p i a, (p, i, a) ∈ left.registry.entries → w.alive a = true
  named : ∀ name a, left.registry.named.get? name = some a ↔
    ctx.registry.named.get? name = some a ∧ w.alive a = true ∧
      ¬(a ∈ ctx.registry.pendingAdd ∧ w.isElsewhere ctx.id a = true) ∧
      a ∉ w.leavers ctx.id ctx.registry.pendingAdd ctx.registry.pendingRemove

/-- The counts of the end of a walk, and what it comes to. -/
theorem finishWalk_finished (inUse : Bool) (hw : w.DistinctIds ∧ w.Coherent)
    (hc : w.context? c = some ctx) (hroom : ctx.registry.lastId.toNat +
      (w.newcomers ctx.registry.pendingAdd).length < AgentId.invalid.number.toNat) :
    (w.finishWalk c inUse).1 = ((w.newcomers ctx.registry.pendingAdd).length,
        (w.leavers ctx.id ctx.registry.pendingAdd ctx.registry.pendingRemove).length) ∧
      ∃ left, Finished c inUse ctx left w (w.finishWalk c inUse).2 := by
  obtain ⟨v, u, ctx₁, ctx₂, h₁, h₂, hcounts, hleft, hag⟩ := finishWalk_drains inUse hw hc hroom
  generalize w.finishWalk c inUse = r at hcounts hleft hag
  have hid : ctx₁.id = ctx.id := (Context.parts_of_setting h₁.setting).1
  have hnew : ctx₁.id ≠ .invalid := hid ▸ hw.1.valid c ctx hc
  have hlive : ∀ a, r.2.live? a = u.live? a := fun a => live?_congr (hag a)
  have hat : ∀ a, v.isAt ctx.id a = true ↔
      w.isAt ctx.id a = true ∨ a ∈ w.newcomers ctx.registry.pendingAdd := by
    intro a
    have h := h₁.isAt_iff (a := a)
    exact h
  -- an agent that joins is in the context when removals are applied
  have hgone : v.distinctAt ctx₁.id ctx.registry.pendingRemove =
      w.leavers ctx.id ctx.registry.pendingAdd ctx.registry.pendingRemove := by
    rw [hid, distinctAt, leavers]
    refine congrArg List.eraseDups (List.filter_congr fun a _ => ?_)
    rw [Bool.eq_iff_iff, hat, Bool.or_eq_true, List.contains_iff_mem]
  have halive : ∀ a, u.alive a = w.alive a := fun a => h₂.alive.trans h₁.alive
  refine ⟨hgone ▸ hcounts, _, hleft, ?_, ?_, fun a => ?_, fun a hn hr => ?_, fun k a hk hr => ?_,
    fun a => ?_, fun p i a he => ?_, fun name a => ?_⟩
  · have h := congrArg (fun x : Context => { x with clock := x.clock.advance })
      (h₂.setting.trans h₁.setting)
    simp only [Context.setting, Context.withRegistry, Registry.pendingAdd_prune,
      Registry.pendingRemove_prune] at h ⊢
    exact h
  · show (ctx₂.registry.prune u.alive).lastId.toNat = _
    rw [Registry.lastId_prune, h₂.lastId]
    exact h₁.lastId
  · rw [World.alive, hlive, ← World.alive, halive]
  · rw [hlive, h₂.live_other hr]
    exact h₁.live_other hn
  · obtain ⟨agent, hl, hl'⟩ := h₁.live_new hk
    refine ⟨agent, hl, ?_⟩
    rw [hlive, h₂.live_other hr, hl']
    rfl
  · rw [isAt_congr (hlive a), ← hid, h₂.isAt_iff hnew, hid, hat]
  · have he := (Registry.mem_entries_prune.1 he).2
    rw [← halive, he]
  · show (ctx₂.registry.prune u.alive).named.get? name = some a ↔ _
    rw [Registry.named_prune, h₂.named, h₁.named, hgone, halive]
    show ((ctx.registry.named.get? name = some a ∧ ¬(a ∈ ctx.registry.pendingAdd ∧
      w.isElsewhere ctx.id a = true)) ∧ _) ∧ _ ↔ _
    tauto

end World

end AgentScheduler
