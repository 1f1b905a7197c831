/-
The directory of a workspace along a run. Every context in it is there under its
own id (`Workspace.Listed`): that is so when it enters, and nothing changes the id
of a context or gives its place to another one.
-/
import AgentScheduler.Proofs.Continuity
import AgentScheduler.Proofs.WorkspaceRuns

namespace AgentScheduler

open World

namespace Workspace

variable {τ α ο : Type} {ws : Workspace α} {w : World τ α} {obs : Observer ο α} {o : ο}

/-- The directory has contexts that exist or existed, each under its own id. -/
def Listed (ws : Workspace α) (w : World τ α) : Prop :=
  ∀ id c, ws.find? id = some c → c.index < w.contexts.size ∧
    ∀ ctx, w.context? c = some ctx → ctx.id = id

theorem Listed.mono {ws' : Workspace α} (h : ws.Listed w)
    (hfind : ∀ id c, ws'.find? id = some c → ws.find? id = some c) : ws'.Listed w :=
  fun id c hc => h id c (hfind id c hc)

/-! ## What enters and what leaves -/

theorem Listed.enter {ws' : Workspace α} {id : ContextId} {c : ContextRef} (h : ws.Listed w)
    (hdir : ws'.directory = ws.directory.insert id c) (hi : c.index < w.contexts.size)
    (hid : ∀ ctx, w.context? c = some ctx → ctx.id = id) : ws'.Listed w := by
  intro id' c' hc
  rw [find?, hdir, SortedMap.get?_insert] at hc
  split at hc
  · next he =>
    cases hc
    exact ⟨hi, he ▸ hid⟩
  · exact h id' c' hc

/-- A context that is made on request comes under the id that was asked for. -/
theorem Listed.context {id : ContextId} (h : ws.Listed (ws.context id w).2.2) :
    (ws.context id w).2.1.Listed (ws.context id w).2.2 := by
  revert h
  unfold Workspace.context
  split
  · exact fun h => h
  · split
    · exact fun h => h
    · refine fun h => h.enter rfl ?_ fun ctx hc => ?_
      · simp [addContext, World.report]
      · have hnew := (context?_addContext (w := w) (c := ⟨w.contexts.size⟩) _).symm.trans hc
        rw [if_pos rfl] at hnew
        cases hnew
        rfl

/-- A context that is handed over comes under its id. -/
theorem Listed.insert {c : ContextRef} (h : ws.Listed (ws.insert c w).2.2) :
    (ws.insert c w).2.1.Listed (ws.insert c w).2.2 := by
  revert h
  unfold Workspace.insert
  cases hc : w.context? c with
  | none => exact id
  | some ctx =>
    simp only
    split
    · exact id
    · split
      · exact id
      · refine fun h => h.enter rfl ?_ fun ctx' hc' => ?_
        · have hi : c.index < w.contexts.size := Nat.lt_of_not_le fun hle => by
            rw [context?_eq_none_of_size hle] at hc
            cases hc
          simpa [World.report, modifyContext] using hi
        · rw [context?_report, context?_modifyContext_self hc] at hc'
          cases hc'
          rfl

/-- Cleaning up only takes contexts out. -/
theorem find?_cleanContexts (ids : List ContextId) {id : ContextId} {c : ContextRef}
    (h : (cleanContexts obs ids ws o w).2.1.find? id = some c) : ws.find? id = some c := by
  induction ids generalizing ws o w with
  | nil => exact h
  | cons id' ids ih =>
    rw [cleanContexts] at h
    cases hc : ws.find? id' with
    | none =>
      rw [hc] at h
      exact ih h
    | some c' =>
      have hold {x : Workspace α} (hx : x.directory = ws.directory.erase id')
          (h : x.find? id = some c) : ws.find? id = some c := by
        rw [find?, hx, SortedMap.get?_erase] at h
        split at h
        · cases h
        · exact h
      simp only [hc] at h
      split at h
      · exact hold rfl (ih h)
      · exact hold rfl (ih h)

/-! ## Runs -/

section Runs

variable [Behavior τ α]

/-- No run changes what the contexts of a directory are. -/
theorem Listed.points (h : ws.Listed w) (hw : w.Coherent) (ds : List (Deed τ α))
    (hd : ∀ v ∈ points ds w, v.DistinctIds) : ∀ v ∈ World.points ds w, ws.Listed v := by
  intro v hv id c hfind
  obtain ⟨hi, hid⟩ := h id c hfind
  refine ⟨Nat.lt_of_lt_of_le hi (size_le_points ds w v hv), fun ctx' hc' => ?_⟩
  obtain ⟨ctx, hc, hsame, -⟩ := (later_points ds hd hw hi v hv).2.1.context ctx' hc'
  exact hsame.trans (hid ctx hc)

/-- A tick may make the context that it is asked to tick. -/
theorem Listed.tick {id : ContextId} (h : ws.Listed w) (hw : w.Coherent)
    (hd : ∀ v ∈ World.points (ws.tickDeeds obs id o w) w, v.DistinctIds) :
    (ws.tick obs id o w).2.1.Listed (ws.tick obs id o w).2.2.2 := by
  have hkept := h.points hw _ hd _ (run_mem_points _ w)
  rw [run_tickDeeds] at hkept
  revert hkept
  unfold Workspace.tick
  cases ht : ws.targets id with
  | error e => exact fun h => h
  | ok ids =>
    by_cases hall : id.isAll = true
    · simp only [hall, if_true]
      split <;> exact fun h => h
    · simp only [hall, Bool.false_eq_true, if_false]
      rw [tickDeeds, ht] at hd
      simp only [hall, Bool.false_eq_true, if_false] at hd
      have hbegin := fun v hv => hd v (mem_points_append_left _ hv)
      have hmade := (h.points hw (ws.contextDeeds id w) hbegin) _ (run_mem_points _ w)
      have hcoh := (hw.points (ws.contextDeeds id w) hbegin) _ (run_mem_points _ w)
      have hrest := fun v hv => hd v (mem_points_append_right (ws.contextDeeds id w) hv)
      rw [run_contextDeeds] at hmade hcoh hrest
      have hdone := hmade.context.points hcoh _ hrest _ (run_mem_points _ _)
      rw [run_tickAllDeeds ids {} none] at hdone
      intro _
      split <;> exact hdone

end Runs

end Workspace

namespace Application

variable {τ α ο : Type} [Behavior τ α] {s : Application τ α ο}

/-- Whatever an application does, its directory has contexts under their own ids. -/
theorem listed_act (hs : s.workspace.Listed s.world) (hw : s.world.Coherent) (a : Act τ α ο)
    (hd : ∀ v ∈ points (s.actDeeds a) s.world, v.DistinctIds) :
    (s.act a).workspace.Listed (s.act a).world := by
  have hkept := hs.points hw _ hd _ (run_mem_points _ s.world)
  rw [run_actDeeds] at hkept
  cases a with
  | deed | logStates | replaceSink => exact hkept
  | context id => exact hkept.context
  | insert c => exact hkept.insert
  | tick obs id => exact hs.tick hw hd
  | cleanup obs id =>
    refine hkept.mono fun id' c hc => ?_
    simp only [act, Workspace.cleanup] at hc
    cases ht : s.workspace.targets id with
    | error e => simpa only [ht] using hc
    | ok ids =>
      simp only [ht] at hc
      exact Workspace.find?_cleanContexts ids hc

theorem listed_play (acts : List (Act τ α ο)) (hs : s.workspace.Listed s.world)
    (hw : s.world.Coherent) (hd : ∀ v ∈ points (deeds acts s) s.world, v.DistinctIds) :
    (play acts s).workspace.Listed (play acts s).world := by
  induction acts generalizing s with
  | nil => exact hs
  | cons a acts ih =>
    have hbegin := fun v hv => hd v (mem_points_append_left _ hv)
    have hrest := fun v hv => hd v (mem_points_append_right (s.actDeeds a) hv)
    have hcoh := hw.points _ hbegin _ (run_mem_points _ s.world)
    rw [run_actDeeds] at hcoh hrest
    exact ih (listed_act hs hw a hbegin) hcoh hrest

end Application

end AgentScheduler
