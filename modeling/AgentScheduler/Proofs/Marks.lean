/-
What a context keeps for life: its id, and whether a directory made it. Whatever
happens that neither makes a context nor marks one, the contexts that do not end
keep their marks (`Keeps.happens`, `Keeps.run`).
-/
import AgentScheduler.Proofs.Walking
import AgentScheduler.Proofs.WorkspaceRuns

namespace AgentScheduler

/-- What a context keeps for life: its id, and whether a directory made it. -/
def Context.mark (ctx : Context) : ContextId × Bool := (ctx.id, ctx.createdByDirectory)

/-- Where marks are the same there is a context with the same id and the same maker. -/
theorem Context.exists_of_mark_eq {x y : Option Context} {ctx : Context}
    (h : y.map mark = x.map mark) (hx : x = some ctx) :
    ∃ ctx', y = some ctx' ∧ ctx'.id = ctx.id ∧
      ctx'.createdByDirectory = ctx.createdByDirectory := by
  rw [hx, Option.map_some, Option.map_eq_some_iff] at h
  obtain ⟨ctx', hy, hmark⟩ := h
  exact ⟨ctx', hy, congrArg Prod.fst hmark, congrArg Prod.snd hmark⟩

/-- The context that a task wants to end. -/
def Happening.ended? {τ α : Type} : Happening τ α → Option ContextRef
  | .asks (.dropContext c) => some c
  | _ => none

/-- The context that a deed ends. -/
def Deed.ended? {τ α : Type} : Deed τ α → Option ContextRef
  | .dropContext c => some c
  | _ => none

/-- Makes no context and marks none. -/
def Deed.Tame {τ α : Type} : Deed τ α → Prop
  | .newContext _ _ _ | .setCreated _ _ => False
  | _ => True

namespace World

variable {τ α : Type} {w v u : World τ α} {c : ContextRef} {ctx : Context}
  {D D' : ContextRef → Prop} {T : List (Moment τ α)}

/-- Contexts keep their marks, and those that end are among `D`. -/
def Keeps (D : ContextRef → Prop) (w v : World τ α) : Prop :=
  ∀ c, (v.context? c).map Context.mark = (w.context? c).map Context.mark ∨
    D c ∧ v.context? c = none

namespace Keeps

theorem refl (D : ContextRef → Prop) (w : World τ α) : Keeps D w w := fun _ => .inl rfl

theorem trans (h : Keeps D w v) (h' : Keeps D v u) : Keeps D w u := by
  intro c
  rcases h' c with h' | h'
  · rcases h c with h | ⟨hD, hv⟩
    · exact .inl (h'.trans h)
    · rw [hv, Option.map_none, Option.map_eq_none_iff] at h'
      exact .inr ⟨hD, h'⟩
  · exact .inr h'

theorem report (h : Keeps D w v) (e : Event) : Keeps D w (v.report e) := fun c => h c

theorem of_same (h : SameContexts w v) : Keeps D w v := fun c => .inl (by rw [h c])

theorem of_edits (h : Edits c w v) : Keeps D w v := by
  intro c'
  have hmark := congrArg (·.map Context.mark) (h.shell c')
  simp only [Option.map_map] at hmark
  exact .inl hmark

theorem modifyContext {f : Context → Context} (hf : ∀ ctx, (f ctx).mark = ctx.mark) :
    Keeps D w (w.modifyContext c f) := by
  intro c'
  rw [context?_modifyContext]
  refine .inl ?_
  split
  · next h =>
    rw [h, Option.map_map]
    exact congrArg (fun g => Option.map g (w.context? c)) (funext hf)
  · rfl

theorem dropContext (hD : D c) : Keeps D w (w.dropContext c) := by
  intro c'
  by_cases h : c' = c
  · subst h
    exact .inr ⟨hD, context?_dropContext_self w c'⟩
  · exact .inl (by rw [context?_dropContext c' h])

theorem finishWalk (inUse : Bool) : Keeps D w (w.finishWalk c inUse).2 := by
  cases hc : w.context? c with
  | none => exact .of_edits (finishWalk_none hc)
  | some ctx =>
    have hsettle : Keeps D w (w.settle c inUse) := by
      intro c'
      rw [context?_settle]
      split
      · next h =>
        rw [h, Option.map_map]
        exact .inl rfl
      · exact .inl rfl
    exact hsettle.trans (.of_edits (finishWalk_edits hc))

variable [Behavior τ α]

theorem answer (nested : Nested τ α) {r : Request τ α} (hp : r.phase? c = none)
    (hD : ∀ c ∈ (Happening.asks r).ended?, D c) : Keeps D w (w.answer nested c r).2 := by
  have hop {other : ContextRef} (op : ContextOp α) (hop : op ≠ .tick) :
      Keeps D w (w.answerContextOp nested other op).2 :=
    .of_edits (answerContextOp_edits nested op hop)
  cases r with
  | here op => exact hop op fun he => by subst he; cases hp
  | there other op =>
    simp only [World.answer]
    split
    · exact .refl D w
    · split
      · exact .refl D w
      · exact hop op fun he => by subst he; cases hp
  | dropContext other =>
    simp only [World.answer]
    split
    · exact .refl D w
    · split
      · exact .refl D w
      · exact .dropContext (hD other rfl)
  | loadTask b state => exact .of_same (loadTask_edits state).1
  | exec b => cases hp
  | create | disown | view | saveTask | describeTask | app | setApp | report => exact .refl D w

theorem happens {p : Phase} (h : Happens p w T v) (hD : ∀ m ∈ T, ∀ c ∈ m.what.ended?, D c) :
    Keeps D w v := by
  induction h with
  | done | noExec | finish | refuse | noTick => exact .refl D _
  | serve nested hp _ ih =>
    obtain ⟨hr, hT⟩ := List.forall_mem_cons.1 hD
    exact (answer nested hp hr).trans (ih hT)
  | call _ _ _ ih ih' =>
    obtain ⟨hT, hT'⟩ := List.forall_mem_append.1 (List.forall_mem_cons.1 hD).2
    exact (ih hT).trans (ih' hT')
  | exec _ _ _ ih => exact ih (List.forall_mem_append.1 hD).1
  | pass _ _ ih | skip _ _ _ _ ih => exact ih (List.forall_mem_cons.1 hD).2
  | visit _ _ _ _ ih ih' =>
    obtain ⟨hT, hT'⟩ := List.forall_mem_append.1 (List.forall_mem_cons.1 hD).2
    exact Keeps.trans (ih hT) (ih' (List.forall_mem_cons.1 hT').2)
  | @tick c w v T ctx _ _ _ e ih =>
    have hstart : Keeps D w (w.startWalk c) := .modifyContext fun _ => rfl
    have hfinish : Keeps D v (v.finishWalk c ctx.inUse).2 := .finishWalk ctx.inUse
    exact ((hstart.trans (ih hD)).trans hfinish).report e

/-- Deeds that make and mark no context. -/
theorem perform {d : Deed τ α} (hd : d.Tame) (hend : ∀ c ∈ d.ended?, D c)
    (hD : ∀ m ∈ w.deedMoments d, ∀ c ∈ m.what.ended?, D c) : Keeps D w (w.perform d) := by
  cases d with
  | newContext | setCreated => exact hd.elim
  | create | disown | host => exact .refl D w
  | loadTask a state => exact .of_same (loadTask_edits state).1
  | dropContext c => exact .dropContext (hend c rfl)
  | on c op =>
    by_cases hop : op = .tick
    · subst hop
      have htick : Happens (.tick c) w (w.tickMoments nestingLimit c) (w.tick c).2 :=
        tickWith_happens (traced_nested nestingLimit)
      exact happens htick hD
    · exact .of_edits (answerContextOp_edits _ op hop)
  | exec c a =>
    simp only [World.perform, World.exec]
    cases hc : w.context? c with
    | none => exact .refl D w
    | some ctx =>
      simp only [deedMoments, hc] at hD
      have hbegin : Keeps D w (w.modifyContext c fun ctx => { ctx with inUse := true }) :=
        .modifyContext fun _ => rfl
      refine Keeps.trans (hbegin.trans ?_) (.modifyContext fun _ => rfl)
      exact happens (task_happens (traced_nested nestingLimit)) hD

theorem run {ds : List (Deed τ α)} (hds : ∀ d ∈ ds, d.Tame ∧ d.ended? = none)
    (hD : ∀ m ∈ moments ds w, ∀ c ∈ m.what.ended?, D c) : Keeps D w (World.run ds w) := by
  induction ds generalizing w with
  | nil => exact .refl D w
  | cons d ds ih =>
    obtain ⟨⟨htame, hend⟩, hds⟩ := List.forall_mem_cons.1 hds
    obtain ⟨hfirst, hrest⟩ := List.forall_mem_append.1 hD
    refine Keeps.trans (perform htame (fun c hc => ?_) hfirst) (ih hds hrest)
    rw [hend] at hc
    cases hc

end Keeps

end World

end AgentScheduler
