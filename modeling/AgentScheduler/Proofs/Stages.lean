/-
The stages of a run: every world that it passes through, change by change. They
are finer than its points: the requests that waited for the end of a walk are
applied one at a time, each with a stage of its own. Whatever holds of each
single change (`Passes`) links the stages of a whole run into a chain
(`Passes.stages_arrive`), and every point is one of them (`points_subset_stages`).
-/
import AgentScheduler.Proofs.Invariance
import AgentScheduler.Proofs.WalkEnd
import Mathlib.Data.List.Chain

namespace AgentScheduler.World

variable {τ α : Type} {R : World τ α → World τ α → Prop} {w v u : World τ α} {c : ContextRef}
  {a : AgentRef} {S S' : List (World τ α)}

/-! ## Chains -/

/-- A chain of changes from one world to another, with the worlds it comes to. -/
inductive Arrives (R : World τ α → World τ α → Prop) :
    World τ α → List (World τ α) → World τ α → Prop
  | stay {w : World τ α} : Arrives R w [] w
  | step {w v u : World τ α} {S : List (World τ α)} (h : R w v) (rest : Arrives R v S u) :
      Arrives R w (v :: S) u

namespace Arrives

theorem single (h : R w v) : Arrives R w [v] v := .step h .stay

theorem append (h : Arrives R w S v) (h' : Arrives R v S' u) : Arrives R w (S ++ S') u := by
  induction h with
  | stay => exact h'
  | step h _ ih => exact .step h (ih h')

theorem snoc (h : Arrives R w S v) (h' : R v u) : Arrives R w (S ++ [u]) u := h.append (.single h')

/-- A chain ends in the last of its worlds. -/
theorem last (h : Arrives R w S v) : v = w ∨ v ∈ S := by
  induction h with
  | stay => exact .inl rfl
  | step _ _ ih =>
    rcases ih with rfl | ih
    · exact .inr List.mem_cons_self
    · exact .inr (List.mem_cons_of_mem _ ih)

/-- Each world of a chain is related to the next, and what the changes keep holds of both. -/
theorem chain {P : World τ α → Prop} (hP : ∀ {w v}, P w → R w v → P v) (h : Arrives R w S v)
    (hw : P w) : (w :: S).IsChain fun w v => P w ∧ R w v := by
  induction h with
  | stay => exact .singleton _
  | step h _ ih => exact .cons_cons ⟨hw, h⟩ (ih (hP hw h))

end Arrives

variable [Behavior τ α]

/-! ## The stages of a tick -/

/-- The stages of requests that run tasks. -/
structure NestedStages (τ α : Type) where
  exec : ContextRef → AgentRef → World τ α → List (World τ α)
  tick : ContextRef → World τ α → List (World τ α)

/-- The stages while a request is served. -/
def answerStages (nested : Nested τ α) (inner : NestedStages τ α) (c : ContextRef)
    (w : World τ α) : Request τ α → List (World τ α)
  | .here .tick => inner.tick c w
  | .there other .tick =>
    match w.context? other with
    | none => []
    | some ctx => if ctx.inUse then [] else inner.tick other w
  | .exec a => inner.exec c a w
  | r => [(w.answer nested c r).2]

/-- The stages of a program. -/
def programStages (nested : Nested τ α) (inner : NestedStages τ α) (c : ContextRef) {β : Type} :
    Prog τ α β → World τ α → List (World τ α)
  | .done _, _ => []
  | .call r k, w =>
    let (answer, v) := w.answer nested c r
    answerStages nested inner c w r ++ programStages nested inner c (k answer) v

/-- The stages while an agent's task runs. -/
def taskStages (nested : Nested τ α) (inner : NestedStages τ α) (c : ContextRef) (a : AgentRef)
    (w : World τ α) : List (World τ α) :=
  match w.live? a with
  | none => []
  | some agent =>
    if agent.running then []
    else w.startTask a :: (programStages nested inner c (Behavior.exec a agent.task) (w.startTask a)
      ++ [(w.runTask nested c a).2])

/-- The stages of a walk. -/
def walkStages (nested : Nested τ α) (inner : NestedStages τ α) (c : ContextRef) :
    List AgentRef → World τ α → List (World τ α)
  | [], _ => []
  | a :: as, w =>
    let v := (w.visit nested c a).2
    taskStages nested inner c a w ++ v :: walkStages nested inner c as v

/-- The stages while requests are applied one after the other. -/
def drainStages (apply : AgentRef → World τ α → Bool × World τ α) :
    List AgentRef → World τ α → List (World τ α)
  | [], _ => []
  | a :: as, w => (apply a w).2 :: drainStages apply as (apply a w).2

/-- The stages from the end of a walk until all its requests are applied. -/
def requestStages (c : ContextRef) (inUse : Bool) (w : World τ α) : List (World τ α) :=
  match w.context? c with
  | none => []
  | some ctx =>
    let v := w.settle c inUse
    v :: (drainStages (drainAddition c) ctx.registry.pendingAdd v ++
      drainStages (drainRemoval c) ctx.registry.pendingRemove
        (v.drain (drainAddition c) ctx.registry.pendingAdd).2)

/-- The stages of a tick. -/
def tickStagesWith (nested : Nested τ α) (inner : NestedStages τ α) (c : ContextRef)
    (w : World τ α) : List (World τ α) :=
  match w.context? c with
  | none => []
  | some ctx =>
    if ctx.executing then [(w.tickWith nested c).2]
    else
      let v := w.startWalk c
      v :: (walkStages nested inner c ctx.registry.walkOrder v ++
        (requestStages c ctx.inUse (v.walk nested c ctx.registry.walkOrder).2 ++
          [(w.tickWith nested c).2]))

/-- The stages of requests that run tasks, as `nested` serves them. -/
def nestedStages : Nat → NestedStages τ α
  | 0 => { exec := fun _ _ _ => [], tick := fun _ _ => [] }
  | n + 1 =>
    { exec := taskStages (nested n) (nestedStages n)
      tick := tickStagesWith (nested n) (nestedStages n) }

/-- The stages of a deed. -/
def deedStages (w : World τ α) : Deed τ α → List (World τ α)
  | .on c .tick => tickStagesWith (nested nestingLimit) (nestedStages nestingLimit) c w
  | .exec c a =>
    match w.context? c with
    | none => []
    | some _ =>
      let v := w.modifyContext c fun ctx => { ctx with inUse := true }
      v :: (taskStages (nested nestingLimit) (nestedStages nestingLimit) c a v ++
        [w.perform (.exec c a)])
  | d => [w.perform d]

/-- The stages of a run after its first world. -/
def laterStages : List (Deed τ α) → World τ α → List (World τ α)
  | [], _ => []
  | d :: ds, w => w.deedStages d ++ laterStages ds (w.perform d)

/-- Every world that a run passes through. -/
def stages (ds : List (Deed τ α)) (w : World τ α) : List (World τ α) := w :: laterStages ds w

/-! ## What links them -/

/-- Whatever happens changes a world step by step, each related to the one before. -/
structure Passes (R : World τ α → World τ α → Prop) : Prop where
  refl : ∀ w, R w w
  report : ∀ w e, R w (w.report e)
  answer : ∀ {nested c r w}, r.phase? c = none → R w (w.answer nested c r).2
  startTask : ∀ {w a agent}, w.live? a = some agent → R w (w.startTask a)
  endTask : ∀ {w a} (task : τ), R w (w.endTask a task)
  flags : ∀ {c w} (f : Context → Context), (∀ ctx, f ctx = { ctx with
    executing := (f ctx).executing, inUse := (f ctx).inUse }) → R w (w.modifyContext c f)
  settle : ∀ {c w ctx} (inUse : Bool), w.context? c = some ctx → R w (w.settle c inUse)
  addition : ∀ c a w, R w (w.drainAddition c a).2
  removal : ∀ c a w, R w (w.drainRemoval c a).2
  /-- What comes after the requests. -/
  close : ∀ {c w} (e : Event), R w (((w.prune c).modifyContext c fun ctx =>
    { ctx with clock := ctx.clock.advance }).report e)
  gone : ∀ {c w} (inUse : Bool) (e : Event), w.context? c = none →
    R w ((w.finishWalk c inUse).2.report e)
  /-- A deed that runs no task. -/
  perform : ∀ {w} {d : Deed τ α}, (∀ c, d ≠ .on c .tick) → (∀ c a, d ≠ .exec c a) →
    R w (w.perform d)

/-- Requests that run tasks come by their stages. -/
structure Staged (R : World τ α → World τ α → Prop) (nested : Nested τ α)
    (inner : NestedStages τ α) : Prop where
  exec : ∀ c a w, Arrives R w (inner.exec c a w) (nested.exec c a w).2
  tick : ∀ c w, Arrives R w (inner.tick c w) (nested.tick c w).2

namespace Passes

variable (hR : Passes R) {nested : Nested τ α} {inner : NestedStages τ α}

include hR

theorem answer_arrives (hs : Staged R nested inner) (r : Request τ α) :
    Arrives R w (answerStages nested inner c w r) (w.answer nested c r).2 := by
  unfold answerStages
  split
  · exact hs.tick c w
  · next other =>
    cases hc : w.context? other with
    | none =>
      simp only [World.answer, hc]
      exact .stay
    | some ctx =>
      by_cases hu : ctx.inUse = true
      · simp only [World.answer, hc, hu, if_true]
        exact .stay
      · simp only [World.answer, hc, hu, Bool.false_eq_true, if_false]
        exact hs.tick other w
  · next b => exact hs.exec c b w
  · next htick hthere hexec =>
    refine .single (hR.answer ?_)
    unfold Request.phase?
    split
    · exact absurd rfl htick
    · next other => exact absurd rfl (hthere other)
    · next b => exact absurd rfl (hexec b)
    · rfl

theorem program_arrives (hs : Staged R nested inner) {β : Type} (p : Prog τ α β) :
    Arrives R w (programStages nested inner c p w) (p.run nested c w).2 := by
  induction p generalizing w with
  | done b => exact .stay
  | call r k ih => exact (hR.answer_arrives hs r).append (ih _)

theorem task_arrives (hs : Staged R nested inner) :
    Arrives R w (taskStages nested inner c a w) (w.runTask nested c a).2 := by
  unfold taskStages
  cases hl : w.live? a with
  | none =>
    simp only [runTask, hl]
    exact .stay
  | some agent =>
    cases hr : agent.running with
    | true =>
      simp only [runTask, hl, hr, if_true]
      exact .stay
    | false =>
      simp only [hr, Bool.false_eq_true, if_false]
      refine .step (hR.startTask hl) ((hR.program_arrives hs _).snoc ?_)
      rw [runTask_eq hl hr]
      exact hR.endTask _

/-- A stop of a walk is the task that it runs, or a report, or nothing. -/
theorem visit_arrives (hs : Staged R nested inner) : Arrives R w
    (taskStages nested inner c a w ++ [(w.visit nested c a).2]) (w.visit nested c a).2 := by
  refine (hR.task_arrives hs).snoc ?_
  unfold visit
  split
  · next hdead =>
    have hl : w.live? a = none := by simpa [alive] using hdead
    simp only [runTask, hl]
    exact hR.refl w
  · cases h : w.runTask nested c a with
    | mk status v =>
      cases status with
      | some status => exact hR.refl v
      | none => exact hR.report v _

theorem walk_arrives (hs : Staged R nested inner) (l : List AgentRef) :
    Arrives R w (walkStages nested inner c l w) (w.walk nested c l).2 := by
  induction l generalizing w with
  | nil => exact .stay
  | cons a l ih =>
    have h := (hR.visit_arrives (c := c) (a := a) hs).append (ih (w := (w.visit nested c a).2))
    rw [List.append_assoc, List.singleton_append] at h
    exact h

omit hR [Behavior τ α] in
theorem drain_arrives {apply : AgentRef → World τ α → Bool × World τ α}
    (happly : ∀ a w, R w (apply a w).2) (l : List AgentRef) :
    Arrives R w (drainStages apply l w) (w.drain apply l).2 := by
  induction l generalizing w with
  | nil => exact .stay
  | cons a l ih => exact .step (happly a w) ih

/-- What comes after a walk: the requests, and the rest. -/
theorem finish_arrives (inUse : Bool) (e : Event) :
    Arrives R w (requestStages c inUse w ++ [(w.finishWalk c inUse).2.report e])
      ((w.finishWalk c inUse).2.report e) := by
  unfold requestStages
  cases hc : w.context? c with
  | none => exact .single (hR.gone inUse e hc)
  | some ctx =>
    rw [finishWalk_eq hc]
    refine .step (hR.settle inUse hc) (Arrives.snoc ?_ (hR.close e))
    exact (drain_arrives (hR.addition c) _).append (drain_arrives (hR.removal c) _)

theorem tick_arrives (hs : Staged R nested inner) :
    Arrives R w (tickStagesWith nested inner c w) (w.tickWith nested c).2 := by
  unfold tickStagesWith
  cases hc : w.context? c with
  | none =>
    simp only [tickWith, hc]
    exact .stay
  | some ctx =>
    cases hx : ctx.executing with
    | true =>
      simp only [tickWith, hc, hx, if_true]
      exact .single (hR.report w _)
    | false =>
      rw [tickWith_eq hc hx]
      simp only [hx, Bool.false_eq_true, if_false]
      refine .step (hR.flags _ fun _ => rfl) ?_
      exact (hR.walk_arrives hs _).append (hR.finish_arrives ctx.inUse _)

theorem staged_nested (n : Nat) : Staged R (World.nested n) (nestedStages n) := by
  induction n with
  | zero => exact ⟨fun _ _ _ => .stay, fun _ _ => .stay⟩
  | succ n ih => exact ⟨fun _ _ _ => hR.task_arrives ih, fun _ _ => hR.tick_arrives ih⟩

theorem deed_arrives (d : Deed τ α) : Arrives R w (w.deedStages d) (w.perform d) := by
  unfold deedStages
  split
  · exact hR.tick_arrives (hR.staged_nested nestingLimit)
  · next c a =>
    cases hc : w.context? c with
    | none =>
      simp only [World.perform, World.exec, hc]
      exact .stay
    | some ctx =>
      refine .step (hR.flags _ fun _ => rfl)
        ((hR.task_arrives (hR.staged_nested nestingLimit)).snoc ?_)
      simp only [World.perform, World.exec, hc]
      exact hR.flags _ fun _ => rfl
  · next htick hexec => exact .single (hR.perform htick hexec)

theorem laterStages_arrive (ds : List (Deed τ α)) :
    Arrives R w (laterStages ds w) (run ds w) := by
  induction ds generalizing w with
  | nil => exact .stay
  | cons d ds ih => exact (hR.deed_arrives d).append ih

end Passes

/-! ## Moments and points -/

/-- Anything follows on anything. -/
theorem passes_any : Passes fun _ _ : World τ α => True := by
  constructor <;> intros <;> trivial

/-- The moments of requests that run tasks are among their stages, or at their beginning. -/
structure Shown (moments : NestedMoments τ α) (inner : NestedStages τ α) : Prop where
  exec : ∀ c a w, ∀ m ∈ moments.exec c a w, m.world ∈ inner.exec c a w
  tick : ∀ c w, ∀ m ∈ moments.tick c w, m.world ∈ inner.tick c w

namespace Shown

variable {nested : Nested τ α} {moments : NestedMoments τ α} {inner : NestedStages τ α}
  (h : Shown moments inner) (hs : Staged (fun _ _ => True) nested inner)

include h

theorem answer (r : Request τ α) :
    ∀ m ∈ requestMoments moments c w r, m.world ∈ answerStages nested inner c w r := by
  intro m hm
  unfold requestMoments at hm
  split at hm
  · exact h.tick c w m hm
  · next other =>
    split at hm
    · cases hm
    · next ctx hc =>
      split at hm
      · cases hm
      · next hu =>
        simp only [answerStages, hc, if_neg hu]
        exact h.tick other w m hm
  · next b => exact h.exec c b w m hm
  · cases hm

include hs

theorem program {β : Type} (p : Prog τ α β) : ∀ m ∈ programMoments nested moments c p w,
    m.world = w ∨ m.world ∈ programStages nested inner c p w := by
  induction p generalizing w with
  | done b => exact fun m hm => by cases hm
  | call r k ih =>
    have hlast := (passes_any.answer_arrives (c := c) (w := w) hs r).last
    refine List.forall_mem_cons.2 ⟨.inl rfl, List.forall_mem_append.2 ⟨fun m hm => ?_,
      fun m hm => ?_⟩⟩
    · exact .inr (List.mem_append_left _ (h.answer r m hm))
    · rcases ih _ m hm with he | hm
      · exact hlast.imp he.trans fun hv => List.mem_append_left _ (he ▸ hv)
      · exact .inr (List.mem_append_right _ hm)

theorem task : ∀ m ∈ taskMoments nested moments c a w,
    m.world ∈ taskStages nested inner c a w := by
  intro m hm
  unfold taskMoments at hm
  split at hm
  · next agent status v hl hrun =>
    have hr : agent.running = false := by
      cases hr : agent.running with
      | false => rfl
      | true => simp [runTask, hl, hr] at hrun
    simp only [taskStages, hl, hr, Bool.false_eq_true, if_false, hrun]
    rcases List.mem_append.1 hm with hm | hm
    · rcases h.program hs _ m hm with he | hm
      · exact he ▸ List.mem_cons_self
      · exact List.mem_cons_of_mem _ (List.mem_append_left _ hm)
    · obtain rfl := List.mem_singleton.1 hm
      exact List.mem_cons_of_mem _ (List.mem_append_right _ List.mem_cons_self)
  · cases hm

theorem walk (l : List AgentRef) : ∀ m ∈ walkMoments nested moments c l w,
    m.world = w ∨ m.world ∈ walkStages nested inner c l w := by
  induction l generalizing w with
  | nil => exact fun m hm => by cases hm
  | cons a l ih =>
    have htask := h.task (c := c) (a := a) (w := w) hs
    refine List.forall_mem_append.2 ⟨fun m hm => ?_, fun m hm => ?_⟩
    · unfold visitMoments at hm
      split at hm
      · exact .inl (congrArg Moment.world (List.mem_singleton.1 hm))
      · split at hm
        · exact .inl (congrArg Moment.world (List.mem_singleton.1 hm))
        · rcases List.mem_cons.1 hm with rfl | hm
          · exact .inl rfl
          · exact .inr (List.mem_append_left _ (htask m hm))
    · rcases ih m hm with he | hm
      · exact .inr (List.mem_append_right _ (he ▸ List.mem_cons_self))
      · exact .inr (List.mem_append_right _ (List.mem_cons_of_mem _ hm))

theorem tickWith : ∀ m ∈ tickMomentsWith nested moments c w,
    m.world ∈ tickStagesWith nested inner c w := by
  intro m hm
  unfold tickMomentsWith at hm
  split at hm
  · cases hm
  · next ctx hc =>
    split at hm
    · cases hm
    · next hx =>
      simp only [tickStagesWith, hc, hx, Bool.false_eq_true, if_false]
      rcases h.walk hs _ m hm with he | hm
      · exact he ▸ List.mem_cons_self
      · exact List.mem_cons_of_mem _ (List.mem_append_left _ hm)

end Shown

theorem shown_nested (n : Nat) : Shown (nestedMoments n : NestedMoments τ α) (nestedStages n) := by
  induction n with
  | zero => exact ⟨fun _ _ _ _ hm => (by cases hm), fun _ _ _ hm => (by cases hm)⟩
  | succ n ih =>
    have hs := passes_any.staged_nested (τ := τ) (α := α) n
    exact ⟨fun _ _ _ => ih.task hs, fun _ _ => ih.tickWith hs⟩

theorem deedMoments_staged (d : Deed τ α) :
    ∀ m ∈ w.deedMoments d, m.world ∈ w.deedStages d := by
  have hs := passes_any.staged_nested (τ := τ) (α := α) nestingLimit
  intro m hm
  unfold deedMoments at hm
  split at hm
  · exact (shown_nested nestingLimit).tickWith hs m hm
  · next c a =>
    split at hm
    · cases hm
    · next ctx hc =>
      simp only [deedStages, hc]
      refine List.mem_cons_of_mem _ (List.mem_append_left _ ?_)
      exact (shown_nested nestingLimit).task hs m hm
  · cases hm

/-- Every point of a run is a stage. -/
theorem points_subset_stages (ds : List (Deed τ α)) : points ds w ⊆ stages ds w := by
  induction ds generalizing w with
  | nil => exact fun v hv => hv
  | cons d ds ih =>
    intro v hv
    rcases List.mem_cons.1 hv with rfl | hv
    · exact List.mem_cons_self
    rcases List.mem_append.1 hv with hv | hv
    · obtain ⟨m, hm, rfl⟩ := List.mem_map.1 hv
      exact List.mem_cons_of_mem _ (List.mem_append_left _ (deedMoments_staged d m hm))
    · rcases List.mem_cons.1 (ih hv) with hfirst | hv
      · rw [hfirst]
        rcases (passes_any.deed_arrives (w := w) d).last with he | hmem
        · rw [he]
          exact List.mem_cons_self
        · exact List.mem_cons_of_mem _ (List.mem_append_left _ hmem)
      · exact List.mem_cons_of_mem _ (List.mem_append_right _ hv)

end AgentScheduler.World
