/-
What comes after the walk of a tick. The requests of the walk are taken out of
the registry (`settle`) and applied one after the other, then agents that are
gone are dropped and the clock advances. Apart from the first step all of it is
a chain of edits (`finishWalk_edits`).
-/
import AgentScheduler.Proofs.Moments

namespace AgentScheduler

/-- The context between ticks, with no requests left. -/
def Context.settled (inUse : Bool) (ctx : Context) : Context :=
  { ctx with
    executing := false
    inUse
    registry := { ctx.registry with pendingAdd := [], pendingRemove := [] } }

namespace World

variable {τ α : Type} {w v : World τ α} {c c' : ContextRef} {a : AgentRef} {ctx : Context}
  {inUse : Bool}

/-- The walk of a context is over, and its requests are taken out. -/
def settle (c : ContextRef) (inUse : Bool) (w : World τ α) : World τ α :=
  (w.modifyContext c fun ctx => { ctx with executing := false, inUse }).modifyRegistry c fun r =>
    { r with pendingAdd := [], pendingRemove := [] }

theorem context?_settle : (w.settle c inUse).context? c' =
    if c' = c then (w.context? c').map (Context.settled inUse) else w.context? c' := by
  rw [settle, modifyRegistry, context?_modifyContext, context?_modifyContext]
  split
  · rw [Option.map_map]; rfl
  · rfl

theorem context?_settle_self (hc : w.context? c = some ctx) :
    (w.settle c inUse).context? c = some (ctx.settled inUse) := by
  rw [context?_settle, if_pos rfl, hc, Option.map_some]

theorem becomes_settle (inUse : Bool) (hc : w.context? c = some ctx) :
    Becomes c (ctx.settled inUse) w (w.settle c inUse) := by
  intro c'
  rw [context?_settle]
  split
  · next he => rw [he, hc, Option.map_some]
  · rfl

/-- The end of a walk as its parts. -/
theorem finishWalk_eq (hc : w.context? c = some ctx) : w.finishWalk c inUse =
    let (added, v) := (w.settle c inUse).drain (drainAddition c) ctx.registry.pendingAdd
    let (removed, u) := v.drain (drainRemoval c) ctx.registry.pendingRemove
    ((added, removed), (u.prune c).modifyContext c fun ctx =>
      { ctx with clock := ctx.clock.advance }) := by
  have hc' := context?_modifyContext_self hc fun ctx => { ctx with executing := false, inUse }
  simp only [finishWalk, drainRequests, hc']
  rfl

/-! ## As edits -/

/-- The context is between ticks, if it exists. -/
def Idle (w : World τ α) (c : ContextRef) : Prop :=
  ∀ ctx, w.context? c = some ctx → ctx.executing = false

theorem idle_of (hc : w.context? c = some ctx) (hx : ctx.executing = false) : w.Idle c := by
  intro ctx' hc'
  rw [hc] at hc'
  cases hc'
  exact hx

theorem idle_settle (inUse : Bool) (hc : w.context? c = some ctx) : (w.settle c inUse).Idle c :=
  idle_of (context?_settle_self hc) rfl

theorem Edits.idle (h : Edits c w v) (hi : w.Idle c) : v.Idle c := by
  intro ctx hc
  have hs := h.shell c
  rw [hc, Option.map_some, eq_comm, Option.map_eq_some_iff] at hs
  obtain ⟨ctx₀, hc₀, hs⟩ := hs
  have : ctx₀.shell.executing = ctx.shell.executing := by rw [hs]
  exact this.symm.trans (hi ctx₀ hc₀)

/-- All that applying one requested addition can do. -/
inductive Addition (c : ContextRef) (ctx : Context) (a : AgentRef) (w : World τ α) :
    Bool × World τ α → Prop
  | gone (hl : w.live? a = none) : Addition c ctx a w (false, w)
  | already {agent : Agent τ} (hl : w.live? a = some agent)
      (he : ctx.entry agent.place = .alreadyHere) : Addition c ctx a w (false, w)
  | fresh {agent : Agent τ} {id : AgentId} {v : World τ α} (hl : w.live? a = some agent)
      (he : ctx.entry agent.place = .fresh id)
      (hv : Becomes c (ctx.withRegistry (·.register a agent.priority id)) w v)
      (ha : ∀ b, v.agent? b =
        if b = a then some { agent with place := ⟨ctx.id, id⟩ } else w.agent? b) :
      Addition c ctx a w (true, v)
  | refused {agent : Agent τ} {v : World τ α} (hl : w.live? a = some agent)
      (he : (∃ owner, ctx.entry agent.place = .elsewhere owner) ∨
        ctx.entry agent.place = .exhausted)
      (hv : Becomes c (ctx.withRegistry (·.unbindAgent a)) w v)
      (ha : ∀ b, v.agent? b = w.agent? b) : Addition c ctx a w (false, v)

theorem drainAddition_cases (hc : w.context? c = some ctx) :
    Addition c ctx a w (w.drainAddition c a) := by
  cases hl : w.live? a with
  | none =>
    simp only [drainAddition, hc, hl]
    exact .gone hl
  | some agent =>
    have hrefused : ∀ (u : World τ α) (e : Event) (n : Nat), SameContexts w u →
        (∀ b, u.agent? b = w.agent? b) →
        ((∃ owner, ctx.entry agent.place = .elsewhere owner) ∨
          ctx.entry agent.place = .exhausted) →
        Addition c ctx a w (false, if n = 0 then u.modifyRegistry c (·.unbindAgent a)
          else (u.modifyRegistry c (·.unbindAgent a)).report e) := by
      intro u e n hu hag he
      have hv : Becomes c (ctx.withRegistry (·.unbindAgent a)) w
          (u.modifyRegistry c (·.unbindAgent a)) := fun c' => by
        rw [becomes_modifyRegistry ((hu c).trans hc) (·.unbindAgent a) c', hu c']
      split
      · exact .refused hl he hv hag
      · exact .refused hl he hv hag
    cases he : ctx.entry agent.place with
    | alreadyHere =>
      simp only [drainAddition, insertNow, hc, hl, he]
      exact .already hl he
    | elsewhere owner =>
      simp only [drainAddition, insertNow, hc, hl, he]
      exact hrefused _ _ _ (fun _ => rfl) (fun _ => rfl) (.inl ⟨owner, he⟩)
    | exhausted =>
      simp only [drainAddition, insertNow, hc, hl, he]
      exact hrefused _ _ _ (fun _ => rfl) (fun _ => rfl) (.inr he)
    | fresh id =>
      simp only [drainAddition, insertNow, hc, hl, he]
      refine .fresh hl he (becomes_modifyContext hc _) fun b => ?_
      rw [agent?_report, setPlace, agent?_modifyAgent]
      split
      · next hb => rw [hb, agent?_modifyRegistry, (live?_eq_some.1 hl).1, Option.map_some]
      · rfl

theorem drainAddition_edits (hi : w.Idle c) : Edits c w (w.drainAddition c a).2 := by
  cases hc : w.context? c with
  | none =>
    simp only [drainAddition, hc]
    exact .refl
  | some ctx =>
    have h := drainAddition_cases (a := a) hc
    generalize w.drainAddition c a = r at h
    cases h with
    | gone | already => exact .refl
    | fresh hl he hv ha => exact .single (.enroll a _ hc (hi ctx hc) hl he hv ha)
    | refused hl he hv ha =>
      refine .single (.set ctx.statics ctx.clock _ hc (fun n b hb => .inl ?_) hv fun b => ?_)
      · exact (Registry.named_unbindAgent.1 hb).1
      · rw [ha b]

/-- All that applying one requested removal can do. -/
inductive Removal (c : ContextRef) (ctx : Context) (a : AgentRef) (w : World τ α) :
    Bool × World τ α → Prop
  | gone (hl : w.live? a = none) : Removal c ctx a w (false, w)
  | absent {agent : Agent τ} (hl : w.live? a = some agent) (he : ctx.holds agent.place = false) :
      Removal c ctx a w (false, w)
  | left {agent : Agent τ} {priority : Int32} {v : World τ α} (hl : w.live? a = some agent)
      (hp : agent.place.context = ctx.id)
      (hi : ctx.registry.index.get? agent.place.id = some priority)
      (hv : Becomes c
        (ctx.withRegistry fun r => (r.unregister priority agent.place.id).unbindAgent a) w v)
      (ha : ∀ b, v.agent? b = if b = a then some { agent with place := {} } else w.agent? b) :
      Removal c ctx a w (true, v)

theorem drainRemoval_cases (hc : w.context? c = some ctx) :
    Removal c ctx a w (w.drainRemoval c a) := by
  cases hl : w.live? a with
  | none =>
    simp only [drainRemoval, hc, hl]
    exact .gone hl
  | some agent =>
    simp only [drainRemoval, removeNow, hc, hl]
    by_cases hp : agent.place.context = ctx.id
    · rw [if_pos hp]
      cases hi : ctx.registry.index.get? agent.place.id with
      | none =>
        have hh : ctx.holds agent.place = false := by
          simp [Context.holds, SortedMap.contains, hi]
        rw [hh]
        exact .absent hl hh
      | some priority =>
        have hh : ctx.holds agent.place = true := by
          simp [Context.holds, SortedMap.contains, hi, hp]
        rw [hh]
        obtain ⟨hsame, hag⟩ := views_foldl_report (w := w.modifyRegistry c fun r =>
          (r.unregister priority agent.place.id).unbindAgent a)
          (.bindingDropped ctx.id ·) (ctx.registry.namesOf a)
        refine .left hl hp hi (fun c' => ?_) fun b => ?_
        · rw [context?_report, context?_setPlace, hsame c']
          exact becomes_modifyContext hc _ c'
        · rw [agent?_report, setPlace, agent?_modifyAgent, hag b, agent?_modifyRegistry]
          split
          · next hb => rw [hb, (live?_eq_some.1 hl).1, Option.map_some]
          · rfl
    · have hh : ctx.holds agent.place = false := by simp [Context.holds, hp]
      rw [if_neg hp, hh]
      exact .absent hl hh

theorem drainRemoval_edits (hi : w.Idle c) : Edits c w (w.drainRemoval c a).2 := by
  cases hc : w.context? c with
  | none =>
    simp only [drainRemoval, hc]
    exact .refl
  | some ctx =>
    have h := drainRemoval_cases (a := a) hc
    generalize w.drainRemoval c a = r at h
    cases h with
    | gone | absent => exact .refl
    | left hl hp hx hv ha => exact .single (.dismiss a hc (hi ctx hc) hl hp hx hv ha)

theorem drain_edits (apply : AgentRef → World τ α → Bool × World τ α)
    (happly : ∀ (w : World τ α) a, w.Idle c → Edits c w (apply a w).2) (l : List AgentRef)
    (hi : w.Idle c) : Edits c w (w.drain apply l).2 := by
  induction l generalizing w with
  | nil => exact .refl
  | cons a l ih =>
    have h := happly w a hi
    exact h.trans (ih (h.idle hi))

/-- What comes after a walk is a chain of edits, once the requests are taken out. -/
theorem finishWalk_edits (hc : w.context? c = some ctx) :
    Edits c (w.settle c inUse) (w.finishWalk c inUse).2 := by
  rw [finishWalk_eq hc]
  have hi : (w.settle c inUse).Idle c := idle_settle inUse hc
  have hadd := drain_edits (drainAddition c) (fun _ _ => drainAddition_edits)
    ctx.registry.pendingAdd hi
  have hrem := drain_edits (drainRemoval c) (fun _ _ => drainRemoval_edits)
    ctx.registry.pendingRemove (hadd.idle hi)
  exact (((hadd.trans hrem).trans prune_edits).trans (setRest_edits _ fun _ => rfl))

/-- The end of the walk of a context that is gone changes nothing. -/
theorem finishWalk_none (hc : w.context? c = none) : Edits c w (w.finishWalk c inUse).2 := by
  have h₁ := sameContexts_modifyContext hc fun ctx => { ctx with executing := false, inUse }
  have hc' := (h₁ c).trans hc
  simp only [finishWalk, drainRequests, hc']
  exact .head (.rest h₁ (.refl w)) (prune_edits.trans (setRest_edits _ fun _ => rfl))

/-- The end of a walk changes no other context. -/
theorem finishWalk_other (hne : c' ≠ c) :
    (w.finishWalk c inUse).2.context? c' = w.context? c' := by
  cases hc : w.context? c with
  | none => exact (finishWalk_none hc).other hne
  | some ctx => rw [(finishWalk_edits hc).other hne, context?_settle, if_neg hne]

end World

end AgentScheduler
