/-
The registries of a run by themselves. Each one lists the same registrations in
its index and in its buckets, and gave out every id that it lists, at every
point of every run (`sound_points`). Nothing is asked of the ids of contexts
here, and nothing is said of the places that agents record.
-/
import AgentScheduler.Proofs.Coherence
import AgentScheduler.Proofs.Isolation

namespace AgentScheduler.World

variable {τ α : Type} {w v : World τ α} {c : ContextRef} {ctx ctx' : Context}

/-- Every registry lists the same registrations in its index and in its buckets. -/
def Sound (w : World τ α) : Prop := ∀ c ctx, w.context? c = some ctx → ctx.registry.Sound

namespace Sound

theorem becomes (h : w.Sound) (hv : Becomes c ctx' w v) (hs : ctx'.registry.Sound) :
    v.Sound := by
  intro c' x hx
  rcases hv.cases hx with ⟨rfl, rfl⟩ | ⟨-, hx⟩
  · exact hs
  · exact h c' x hx

/-- One context changes apart from its registrations. -/
theorem reseat (h : w.Sound) (hc : w.context? c = some ctx) (hv : Becomes c ctx' w v)
    (hseat : ctx'.seat = ctx.seat) : v.Sound :=
  h.becomes hv (sound_of_seat hseat (h c ctx hc))

theorem of_contexts (h : w.Sound)
    (hc : ∀ c ctx, v.context? c = some ctx → w.context? c = some ctx) : v.Sound :=
  fun c ctx hx => h c ctx (hc c ctx hx)

/-- A change of a context apart from its registrations. -/
theorem modifyContext (h : w.Sound) (f : Context → Context)
    (hseat : ∀ ctx, (f ctx).seat = ctx.seat) : (w.modifyContext c f).Sound := by
  intro c' x hx
  rw [context?_modifyContext] at hx
  split at hx
  · obtain ⟨ctx, hc, rfl⟩ := Option.map_eq_some_iff.1 hx
    exact sound_of_seat (hseat ctx) (h c' ctx hc)
  · exact h c' x hx

theorem edit (h : w.Sound) (he : Edit c w v) : v.Sound := by
  cases he with
  | rest hc => exact h.of_contexts fun c' ctx hx => hc c' ▸ hx
  | set _ _ _ hc _ hv => exact h.reseat hc hv rfl
  | wait _ _ hc _ _ hv => exact h.reseat hc hv rfl
  | enroll a id hc _ _ he hv =>
    exact h.becomes hv ((h c _ hc).register (Context.nextId?_of_fresh he))
  | dismiss a hc _ _ _ hi hv =>
    have hs := (h c _ hc).unregister hi
    exact h.becomes hv ⟨hs.indexed, hs.filled, hs.issued, hs.valid⟩
  | prune hc hv => exact h.becomes hv (h c _ hc).prune
  | clear hc hv => exact h.becomes hv (h c _ hc).clear

theorem settle (h : w.Sound) (inUse : Bool) (hc : w.context? c = some ctx) :
    (w.settle c inUse).Sound :=
  h.reseat hc (becomes_settle inUse hc) rfl

theorem edits (h : w.Sound) (he : Edits c w v) : v.Sound := by
  induction he with
  | refl => exact h
  | tail _ he ih => exact ih.edit he

theorem newContext (h : w.Sound) (id : ContextId) (types : Hierarchy) (stepMillis : UInt32) :
    (w.addContext (.new id types stepMillis)).2.Sound := by
  intro c ctx hx
  rw [context?_addContext] at hx
  split at hx
  · cases hx
    exact .empty
  · exact h c ctx hx

end Sound

theorem sound_durable : Durable (World.Sound : World τ α → Prop) where
  edit he h := h.edit he
  fade hc _ h := h.of_contexts fun c ctx hx => hc c ▸ hx
  create _ h := h
  close hc _ _ h := h.of_contexts fun c' ctx hx => by
    rw [hc] at hx
    split at hx
    · cases hx
    · exact hx
  flags f hf h := h.modifyContext f fun ctx => by rw [hf ctx]; rfl
  startWalk _ _ h := h.modifyContext _ fun _ => rfl
  finishWalk {c w} inUse h := by
    cases hc : w.context? c with
    | none => exact h.edits (finishWalk_none hc)
    | some ctx => exact (h.settle inUse hc).edits (finishWalk_edits hc)

variable [Behavior τ α]

/-- Registries are sound at every point of a run that starts with sound ones. -/
theorem Sound.points (h : w.Sound) (ds : List (Deed τ α)) : ∀ v ∈ points ds w, v.Sound :=
  sound_durable.always (fun id types stepMillis h => h.newContext id types stepMillis) ds h

theorem sound_points (h : Host α) (ds : List (Deed τ α)) :
    ∀ v ∈ points ds ({ host := h } : World τ α), v.Sound :=
  Sound.points (fun c ctx hc => by cases hc) ds

/-- They are sound when the turns of waiting requests come. -/
theorem Sound.waitingTurns (h : w.Sound) (n : Nat) (hi : w.Idle c) :
    ∀ turn ∈ w.waitingTurns n c, turn.2.Sound :=
  waitingTurns_durable sound_durable (fun inUse hc h => h.settle inUse hc) n hi h

end AgentScheduler.World
