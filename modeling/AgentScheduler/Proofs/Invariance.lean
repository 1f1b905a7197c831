/-
Properties of worlds that nothing breaks. A property that survives each
elementary change (`Durable`) holds at every moment of a tick and after it
(`Durable.happens`), and at every point of a run of an application that does
anything it can do, in any order (`Durable.points`).
-/
import AgentScheduler.Proofs.Moments

namespace AgentScheduler.World

variable {τ α : Type} {w v : World τ α} {c : ContextRef} {a : AgentRef}

/-! ## Changes of agents -/

theorem SameAgents.fades (h : SameAgents w v) : Fades w v := by
  intro a
  have ha := h a
  cases hw : w.agent? a with
  | none =>
    rw [hw, Option.map_none, Option.map_eq_none_iff] at ha
    rw [ha]
    exact ⟨rfl, fun hv => by rw [alive, live?, ha] at hv; cases hv⟩
  | some agent =>
    rw [hw, Option.map_some, Option.map_eq_some_iff] at ha
    obtain ⟨agent', hv, hbody⟩ := ha
    have hview : agent'.view = agent.view := congrArg (fun b : Agent Unit => b.view) hbody
    have hlive : agent'.alive = agent.alive := congrArg (fun b : Agent Unit => b.alive) hbody
    rw [hv, Option.map_some, Option.map_some, hview]
    refine ⟨rfl, fun h => ?_⟩
    obtain ⟨agent'', hl⟩ := alive_iff.1 h
    rw [live?_eq_some, hv] at hl
    obtain ⟨rfl, hal⟩ : agent' = agent'' ∧ agent''.alive = true := ⟨Option.some.inj hl.1, hl.2⟩
    exact alive_iff.2 ⟨agent, live?_eq_some.2 ⟨hw, hlive ▸ hal⟩⟩

/-- A change of an agent that keeps what can be seen of it and does not bring it to life. -/
theorem fades_modifyAgent (f : Agent τ → Agent τ) (hview : ∀ agent, (f agent).view = agent.view)
    (hlive : ∀ agent, w.agent? a = some agent → (f agent).alive = true → agent.alive = true) :
    Fades w (w.modifyAgent a f) := by
  intro b
  rw [alive, live?, alive, live?, agent?_modifyAgent]
  by_cases hb : b = a
  · subst hb
    rw [if_pos rfl]
    cases hw : w.agent? b with
    | none => exact ⟨rfl, id⟩
    | some agent =>
      refine ⟨by rw [Option.map_some, Option.map_some, Option.map_some, hview], fun h => ?_⟩
      have hl : (f agent).alive = true := by
        by_cases hl : (f agent).alive = true
        · exact hl
        · simp [Option.filter, hl] at h
      simp [Option.filter, hlive agent hw hl]
  · rw [if_neg hb]
    exact ⟨rfl, id⟩

theorem fades_startTask {agent : Agent τ} (hl : w.live? a = some agent) :
    Fades w (w.startTask a) := by
  refine fades_modifyAgent _ (fun _ => rfl) fun agent' ha _ => ?_
  rw [live?_eq_some, ha] at hl
  obtain ⟨h, hal⟩ := hl
  cases h
  exact hal

theorem fades_endTask (task : τ) : Fades w (w.endTask a task) := by
  refine fades_modifyAgent _ (fun _ => rfl) fun agent _ h => ?_
  simp only [Agent.alive, Bool.or_false] at h
  simp [Agent.alive, h]

theorem fades_disown : Fades w (w.disown a) := by
  refine fades_modifyAgent _ (fun _ => rfl) fun agent _ h => ?_
  simp only [Agent.alive, Bool.false_or] at h
  simp [Agent.alive, h]

theorem sameContexts_modifyAgent (f : Agent τ → Agent τ) : SameContexts w (w.modifyAgent a f) :=
  fun _ => rfl

theorem Fades.refl (w : World τ α) : Fades w w := fun _ => ⟨rfl, id⟩

/-! ## Durable properties -/

/-- Survives every elementary change, of contexts, of agents, and of the phases of a tick. -/
structure Durable (P : World τ α → Prop) : Prop where
  edit : ∀ {c w v}, Edit c w v → P w → P v
  fade : ∀ {w v}, SameContexts w v → Fades w v → P w → P v
  create : ∀ {w} (g : NewAgent τ), P w → P (w.create g).2
  /-- A context without agents goes. -/
  close : ∀ {c w v}, (∀ c', v.context? c' = if c' = c then none else w.context? c') →
    (∀ a, v.agent? a = w.agent? a) →
    (∀ ctx, w.context? c = some ctx → ctx.registry.entries = []) → P w → P v
  /-- A context is handed to a task or comes back, or changes its owner. -/
  flags : ∀ {c w} (f : Context → Context), (∀ ctx, f ctx = { ctx with
    inUse := (f ctx).inUse, createdByDirectory := (f ctx).createdByDirectory }) → P w →
    P (w.modifyContext c f)
  startWalk : ∀ {c w ctx}, w.context? c = some ctx → ctx.executing = false → P w →
    P (w.startWalk c)
  finishWalk : ∀ {c w} (inUse : Bool), P w → P (w.finishWalk c inUse).2

namespace Durable

variable {P : World τ α → Prop} (hP : Durable P)

include hP

/-- Two properties that nothing breaks. -/
theorem and {Q : World τ α → Prop} (hQ : Durable Q) : Durable fun w => P w ∧ Q w where
  edit he h := ⟨hP.edit he h.1, hQ.edit he h.2⟩
  fade hc hf h := ⟨hP.fade hc hf h.1, hQ.fade hc hf h.2⟩
  create g h := ⟨hP.create g h.1, hQ.create g h.2⟩
  close hc ha hempty h := ⟨hP.close hc ha hempty h.1, hQ.close hc ha hempty h.2⟩
  flags f hf h := ⟨hP.flags f hf h.1, hQ.flags f hf h.2⟩
  startWalk hc hx h := ⟨hP.startWalk hc hx h.1, hQ.startWalk hc hx h.2⟩
  finishWalk inUse h := ⟨hP.finishWalk inUse h.1, hQ.finishWalk inUse h.2⟩

theorem edits (h : Edits c w v) (hw : P w) : P v := by
  induction h with
  | refl => exact hw
  | tail _ h ih => exact hP.edit h ih

theorem host (h : Host α) (hw : P w) : P { w with host := h } :=
  hP.edit (c := ⟨0⟩) (.host h) hw

theorem dropContext (hw : P w) : P (w.dropContext c) := by
  refine hP.close (c := c) (w := w.clearRegistry c) (fun _ => context?_dropContext_eq)
    (fun _ => rfl) (fun ctx hc => ?_) (hP.edits clearRegistry_edits hw)
  unfold clearRegistry at hc
  cases hc' : w.context? c with
  | none => rw [hc'] at hc; simp only at hc; rw [hc'] at hc; cases hc
  | some ctx' =>
    simp only [hc'] at hc
    rw [modifyRegistry, context?_modifyContext, if_pos rfl, context?_clearPlaces, hc',
      Option.map_some] at hc
    cases hc
    rfl

variable [Behavior τ α]

theorem answerContextOp (nested : Nested τ α) {op : ContextOp α} (h : op ≠ .tick) (hw : P w) :
    P (w.answerContextOp nested c op).2 :=
  hP.edits (answerContextOp_edits nested op h) hw

/-- Requests that run no task break nothing. -/
theorem answer (nested : Nested τ α) {r : Request τ α} (h : r.phase? c = none) (hw : P w) :
    P (w.answer nested c r).2 := by
  cases r with
  | here op =>
    refine hP.answerContextOp nested (fun he => ?_) hw
    rw [he] at h; cases h
  | there other op =>
    simp only [World.answer]
    split
    · exact hw
    · split
      · exact hw
      · refine hP.answerContextOp nested (fun he => ?_) hw
        rw [he] at h; cases h
  | dropContext other =>
    simp only [World.answer]
    split
    · exact hw
    · split
      · exact hw
      · exact hP.dropContext hw
  | create g => exact hP.create g hw
  | disown b => exact hP.fade (sameContexts_modifyAgent _) fades_disown hw
  | view b => exact hw
  | exec b => cases h
  | saveTask b => exact hw
  | loadTask b state => exact hP.fade (loadTask_edits state).1 (loadTask_edits state).2.fades hw
  | describeTask b => exact hw
  | app => exact hw
  | setApp f => exact hP.host _ hw
  | report e => exact hP.host _ hw

/-- A durable property holds at every moment of what happens, and afterwards. -/
theorem happens {p : Phase} {T : List (Moment τ α)} (h : Happens p w T v) (hw : P w) :
    P v ∧ ∀ m ∈ T, P m.world := by
  have start {w : World τ α} {a : AgentRef} {agent : Agent τ} (hl : w.live? a = some agent)
      (hw : P w) : P (w.startTask a) :=
    hP.fade (sameContexts_modifyAgent _) (fades_startTask hl) hw
  have stop {w : World τ α} {a : AgentRef} (task : τ) (hw : P w) : P (w.endTask a task) :=
    hP.fade (sameContexts_modifyAgent _) (fades_endTask _) hw
  induction h with
  | done | noExec | finish | noTick => exact ⟨hw, fun m hm => by cases hm⟩
  | refuse e => exact ⟨hP.host _ hw, fun m hm => by cases hm⟩
  | serve nested hp _ ih =>
    obtain ⟨hv, hT⟩ := ih (hP.answer nested hp hw)
    exact ⟨hv, List.forall_mem_cons.2 ⟨hw, hT⟩⟩
  | call _ _ _ ih ih' =>
    obtain ⟨hv, hT⟩ := ih hw
    obtain ⟨hu, hT'⟩ := ih' hv
    exact ⟨hu, List.forall_mem_cons.2 ⟨hw, List.forall_mem_append.2 ⟨hT, hT'⟩⟩⟩
  | @exec c a w v T agent status task hl _ _ ih =>
    obtain ⟨hv, hT⟩ := ih (start hl hw)
    refine ⟨stop task hv, List.forall_mem_append.2 ⟨hT, ?_⟩⟩
    exact List.forall_mem_singleton.2 (stop task hv)
  | pass _ _ ih =>
    obtain ⟨hv, hT⟩ := ih hw
    exact ⟨hv, List.forall_mem_cons.2 ⟨hw, hT⟩⟩
  | skip _ _ e _ ih =>
    obtain ⟨hv, hT⟩ := ih (hP.host _ hw)
    exact ⟨hv, List.forall_mem_cons.2 ⟨hw, hT⟩⟩
  | @visit c a l w v u T T' agent status task hl _ _ _ ih ih' =>
    obtain ⟨hv, hT⟩ := ih (start hl hw)
    have hend := stop (a := a) task hv
    obtain ⟨hu, hT'⟩ := ih' hend
    refine ⟨hu, List.forall_mem_cons.2 ⟨hw, List.forall_mem_append.2 ⟨hT, ?_⟩⟩⟩
    exact List.forall_mem_cons.2 ⟨hend, hT'⟩
  | tick hc hx _ e ih =>
    obtain ⟨hv, hT⟩ := ih (hP.startWalk hc hx hw)
    exact ⟨hP.host _ (hP.finishWalk _ hv), hT⟩

end Durable

/-! ## Runs of an application -/

end AgentScheduler.World

namespace AgentScheduler

/-- What an application can do while no task runs. -/
inductive Deed (τ α : Type)
  /-- A new agent. -/
  | create (g : NewAgent τ)
  /-- Gives up an agent. -/
  | disown (a : AgentRef)
  /-- Gives a state to an agent's task. -/
  | loadTask (a : AgentRef) (state : Json)
  /-- A new context. -/
  | newContext (id : ContextId) (types : Hierarchy) (stepMillis : UInt32)
  /-- Ends a context. -/
  | dropContext (c : ContextRef)
  /-- Says whether a directory made the context. -/
  | setCreated (c : ContextRef) (created : Bool)
  /-- An operation on a context, ticks included. -/
  | on (c : ContextRef) (op : ContextOp α)
  /-- Runs an agent's task in a context, outside a tick. -/
  | exec (c : ContextRef) (a : AgentRef)
  /-- Changes what surrounds the contexts. -/
  | host (f : Host α → Host α)

namespace World

variable {τ α : Type} [Behavior τ α] {w : World τ α}

/-- The world after a deed. -/
def perform (w : World τ α) : Deed τ α → World τ α
  | .create g => (w.create g).2
  | .disown a => w.disown a
  | .loadTask a state => (w.loadTask a state).2
  | .newContext id types stepMillis => (w.addContext (.new id types stepMillis)).2
  | .dropContext c => w.dropContext c
  | .setCreated c created => w.modifyContext c fun ctx => { ctx with createdByDirectory := created }
  | .on c op => (w.answerContextOp (nested (nestingLimit + 1)) c op).2
  | .exec c a => (w.exec c a).2
  | .host f => { w with host := f w.host }

/-- The moments while a deed is done. -/
def deedMoments (w : World τ α) : Deed τ α → List (Moment τ α)
  | .on c .tick => w.tickMoments nestingLimit c
  | .exec c a =>
    match w.context? c with
    | none => []
    | some _ => taskMoments (nested nestingLimit) (nestedMoments nestingLimit) c a
        (w.modifyContext c fun ctx => { ctx with inUse := true })
  | _ => []

/-- Every world of a run: before and after each deed, and at each moment of one. -/
def points : List (Deed τ α) → World τ α → List (World τ α)
  | [], w => [w]
  | d :: ds, w => w :: ((w.deedMoments d).map (·.world) ++ points ds (w.perform d))

/-- The world at the end of a run. -/
def run (ds : List (Deed τ α)) (w : World τ α) : World τ α := ds.foldl perform w

theorem run_mem_points (ds : List (Deed τ α)) (w : World τ α) : run ds w ∈ points ds w := by
  induction ds generalizing w with
  | nil => exact List.mem_cons_self
  | cons d ds ih => exact List.mem_cons_of_mem _ (List.mem_append_right _ (ih _))

theorem mem_points_self (ds : List (Deed τ α)) (w : World τ α) : w ∈ points ds w := by
  cases ds <;> exact List.mem_cons_self

/-- The points of the first part of a run are points of the run. -/
theorem mem_points_append_left {ds : List (Deed τ α)} (ds' : List (Deed τ α)) {v : World τ α}
    (h : v ∈ points ds w) : v ∈ points (ds ++ ds') w := by
  induction ds generalizing w with
  | nil => exact List.mem_singleton.1 h ▸ mem_points_self ds' w
  | cons d ds ih =>
    rcases List.mem_cons.1 h with rfl | h
    · exact List.mem_cons_self
    · refine List.mem_cons_of_mem _ (List.mem_append.2 ?_)
      exact (List.mem_append.1 h).imp_right ih

/-- So are those of the second part. -/
theorem mem_points_append_right (ds : List (Deed τ α)) {ds' : List (Deed τ α)} {v : World τ α}
    (h : v ∈ points ds' (run ds w)) : v ∈ points (ds ++ ds') w := by
  induction ds generalizing w with
  | nil => exact h
  | cons d ds ih => exact List.mem_cons_of_mem _ (List.mem_append_right _ (ih h))

/-- No two contexts have the same id, and every id is valid. -/
structure DistinctIds (w : World τ α) : Prop where
  unique : ∀ c c' ctx ctx', w.context? c = some ctx → w.context? c' = some ctx' →
    ctx.id = ctx'.id → c' = c
  valid : ∀ c ctx, w.context? c = some ctx → ctx.id ≠ .invalid

namespace Durable

variable {P : World τ α → Prop} (hP : Durable P)

include hP

theorem exec (c : ContextRef) (a : AgentRef) (hw : P w) :
    P (w.exec c a).2 ∧ ∀ m ∈ w.deedMoments (.exec c a), P m.world := by
  cases hc : w.context? c with
  | none =>
    simp only [World.exec, deedMoments, hc]
    exact ⟨hw, fun m hm => by cases hm⟩
  | some ctx =>
    simp only [World.exec, deedMoments, hc]
    have hbegin := hP.flags (c := c) (fun ctx => { ctx with inUse := true }) (fun _ => rfl) hw
    obtain ⟨hend, hm⟩ :=
      hP.happens (task_happens (c := c) (a := a) (traced_nested nestingLimit)) hbegin
    exact ⟨hP.flags _ (fun _ => rfl) hend, hm⟩

/-- A deed breaks no durable property. A new context has to be looked at separately: `N` is
known before it is there, and `D` afterwards. -/
theorem perform {N D : World τ α → Prop}
    (hnew : ∀ {w : World τ α} (id types stepMillis), N w →
      D (w.addContext (.new id types stepMillis)).2 → P w →
      P (w.addContext (.new id types stepMillis)).2)
    (d : Deed τ α) (hN : N w) (hd : D (w.perform d)) (hw : P w) :
    P (w.perform d) ∧ ∀ m ∈ w.deedMoments d, P m.world := by
  have only {v : World τ α} (hv : P v) : P v ∧ ∀ m ∈ ([] : List (Moment τ α)), P m.world :=
    ⟨hv, fun m hm => by cases hm⟩
  cases d with
  | create g => exact only (hP.create g hw)
  | disown a => exact only (hP.fade (sameContexts_modifyAgent _) fades_disown hw)
  | loadTask a state =>
    exact only (hP.fade (loadTask_edits state).1 (loadTask_edits state).2.fades hw)
  | newContext id types stepMillis => exact only (hnew id types stepMillis hN hd hw)
  | dropContext c => exact only (hP.dropContext hw)
  | setCreated c created => exact only (hP.flags _ (fun _ => rfl) hw)
  | on c op =>
    by_cases h : op = .tick
    · subst h
      exact hP.happens (tickWith_happens (traced_nested nestingLimit)) hw
    · have hnone : w.deedMoments (.on c op) = [] := by
        unfold deedMoments
        split
        · next heq => cases heq; exact absurd rfl h
        · next heq => cases heq
        · rfl
      rw [hnone]
      exact only (hP.answerContextOp _ h hw)
  | exec c a => exact hP.exec c a hw
  | host f => exact only (hP.host _ hw)

/-- A durable property that holds at first holds at every point of a run, as long as `D` does
and new contexts are made where `N` holds. -/
theorem points_where {N D : World τ α → Prop}
    (hnew : ∀ {w : World τ α} (id types stepMillis), N w →
      D (w.addContext (.new id types stepMillis)).2 → P w →
      P (w.addContext (.new id types stepMillis)).2)
    (ds : List (Deed τ α)) (hd : ∀ v ∈ points ds w, D v) (hN : ∀ v ∈ points ds w, N v)
    (hw : P w) : ∀ v ∈ points ds w, P v := by
  induction ds generalizing w with
  | nil => exact fun v hv => List.mem_singleton.1 hv ▸ hw
  | cons d ds ih =>
    have hmem : ∀ v ∈ World.points ds (w.perform d), v ∈ World.points (d :: ds) w := fun v hv =>
      List.mem_cons_of_mem _ (List.mem_append_right _ hv)
    have hfirst : w.perform d ∈ World.points ds (w.perform d) := mem_points_self ds _
    have hNw : N w := hN w List.mem_cons_self
    obtain ⟨hafter, hm⟩ := hP.perform (fun id types stepMillis => hnew id types stepMillis) d hNw
      (hd _ (hmem _ hfirst)) hw
    intro v hv
    rcases List.mem_cons.1 hv with rfl | hv
    · exact hw
    rcases List.mem_append.1 hv with hv | hv
    · obtain ⟨m, hmT, rfl⟩ := List.mem_map.1 hv
      exact hm m hmT
    · exact ih (fun v hv => hd v (hmem v hv)) (fun v hv => hN v (hmem v hv)) hafter v hv

/-- A durable property that holds at first holds at every point of a run, as long as the
contexts have distinct ids. -/
theorem points (hnew : ∀ {w : World τ α} (id types stepMillis),
      (w.addContext (.new id types stepMillis)).2.DistinctIds → P w →
      P (w.addContext (.new id types stepMillis)).2)
    (ds : List (Deed τ α)) (hd : ∀ v ∈ points ds w, v.DistinctIds) (hw : P w) :
    ∀ v ∈ points ds w, P v :=
  hP.points_where (N := fun _ => True) (D := DistinctIds)
    (fun id types stepMillis _ => hnew id types stepMillis) ds hd (fun _ _ => trivial) hw

/-- A durable property that new contexts keep holds at every point of every run. -/
theorem always (hnew : ∀ {w : World τ α} (id types stepMillis), P w →
      P (w.addContext (.new id types stepMillis)).2)
    (ds : List (Deed τ α)) (hw : P w) : ∀ v ∈ World.points ds w, P v :=
  hP.points_where (N := fun _ => True) (D := fun _ => True)
    (fun id types stepMillis _ _ => hnew id types stepMillis) ds (fun _ _ => trivial)
    (fun _ _ => trivial) hw

/-- What holds at a moment of what happens holds afterwards. -/
theorem happens_onward {p : Phase} {T : List (Moment τ α)} (h : Happens p w T v) :
    ∀ m ∈ T, P m.world → P v := by
  have start {w : World τ α} {a : AgentRef} {agent : Agent τ} (hl : w.live? a = some agent)
      (hw : P w) : P (w.startTask a) :=
    hP.fade (sameContexts_modifyAgent _) (fades_startTask hl) hw
  have stop {w : World τ α} {a : AgentRef} (task : τ) (hw : P w) : P (w.endTask a task) :=
    hP.fade (sameContexts_modifyAgent _) (fades_endTask _) hw
  induction h with
  | done | noExec | finish | noTick | refuse => exact fun m hm => by cases hm
  | serve nested hp h ih =>
    exact List.forall_mem_cons.2 ⟨fun hm => (hP.happens h (hP.answer nested hp hm)).1, ih⟩
  | call _ h h' ih ih' =>
    refine List.forall_mem_cons.2 ⟨fun hm => (hP.happens h' (hP.happens h hm).1).1,
      List.forall_mem_append.2 ⟨fun m hm hw => (hP.happens h' (ih m hm hw)).1, ih'⟩⟩
  | exec _ _ _ ih =>
    exact List.forall_mem_append.2 ⟨fun m hm hw => stop _ (ih m hm hw),
      List.forall_mem_singleton.2 id⟩
  | pass _ h ih => exact List.forall_mem_cons.2 ⟨fun hw => (hP.happens h hw).1, ih⟩
  | skip _ _ e h ih => exact List.forall_mem_cons.2 ⟨fun hw => (hP.happens h (hP.host _ hw)).1, ih⟩
  | visit hl _ h h' ih ih' =>
    refine List.forall_mem_cons.2
      ⟨fun hw => (hP.happens h' (stop _ (hP.happens h (start hl hw)).1)).1,
      List.forall_mem_append.2 ⟨fun m hm hw => (hP.happens h' (stop _ (ih m hm hw))).1,
        List.forall_mem_cons.2 ⟨fun hw => (hP.happens h' hw).1, ih'⟩⟩⟩
  | tick _ _ _ e ih => exact fun m hm hw => hP.host _ (hP.finishWalk _ (ih m hm hw))

theorem deed_onward (d : Deed τ α) : ∀ m ∈ w.deedMoments d, P m.world → P (w.perform d) := by
  intro m hm hw
  unfold deedMoments at hm
  split at hm
  · exact hP.happens_onward (tickWith_happens (traced_nested nestingLimit)) m hm hw
  · next c a =>
    cases hc : w.context? c with
    | none => rw [hc] at hm; cases hm
    | some ctx =>
      simp only [hc] at hm
      simp only [World.perform, World.exec, hc]
      refine hP.flags _ (fun _ => rfl) ?_
      exact hP.happens_onward (task_happens (traced_nested nestingLimit)) m hm hw
  · cases hm

/-- What holds at a point of a run holds at its end. -/
theorem onward {N D : World τ α → Prop}
    (hnew : ∀ {w : World τ α} (id types stepMillis), N w →
      D (w.addContext (.new id types stepMillis)).2 → P w →
      P (w.addContext (.new id types stepMillis)).2)
    (ds : List (Deed τ α)) (hd : ∀ v ∈ World.points ds w, D v)
    (hN : ∀ v ∈ World.points ds w, N v) : ∀ v ∈ World.points ds w, P v → P (run ds w) := by
  induction ds generalizing w with
  | nil => exact fun v hv hw => List.mem_singleton.1 hv ▸ hw
  | cons d ds ih =>
    have hmem : ∀ v ∈ World.points ds (w.perform d), v ∈ World.points (d :: ds) w := fun v hv =>
      List.mem_cons_of_mem _ (List.mem_append_right _ hv)
    have hfirst : w.perform d ∈ World.points ds (w.perform d) := mem_points_self ds _
    have hrest := ih (fun v hv => hd v (hmem v hv)) fun v hv => hN v (hmem v hv)
    intro v hv hw
    rcases List.mem_cons.1 hv with rfl | hv
    · exact hrest _ hfirst (hP.perform (fun id types stepMillis => hnew id types stepMillis) d
        (hN _ List.mem_cons_self) (hd _ (hmem _ hfirst)) hw).1
    rcases List.mem_append.1 hv with hv | hv
    · obtain ⟨m, hmT, rfl⟩ := List.mem_map.1 hv
      exact hrest _ hfirst (hP.deed_onward d m hmT hw)
    · exact hrest v hv hw

end Durable

end World

end AgentScheduler
