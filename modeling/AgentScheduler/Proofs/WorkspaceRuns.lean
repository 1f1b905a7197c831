/-
Runs of an application that has a workspace. Every operation of a workspace does
to the world what a list of deeds does (`Application.run_deeds`), so whatever
holds of runs of deeds holds of runs with workspaces.
-/
import AgentScheduler.Proofs.Invariance
import AgentScheduler.Workspace

namespace AgentScheduler

/-- What an application with a workspace can do while no task runs. -/
inductive Act (τ α ο : Type)
  /-- Something that the workspace has no part in. -/
  | deed (d : Deed τ α)
  /-- Asks for the context of an id. -/
  | context (id : ContextId)
  /-- Hands a context over. -/
  | insert (c : ContextRef)
  /-- Ticks one context, or all. -/
  | tick (obs : Observer ο α) (id : ContextId)
  /-- Logs the state of one context, or of all. -/
  | logStates (id : ContextId)
  /-- Releases one context, or all. -/
  | cleanup (obs : Observer ο α) (id : ContextId)
  /-- Gives the workspace another receiver. -/
  | replaceSink (sink : Sink α)

/-- An application: its workspace, what its observers keep, and its world. -/
structure Application (τ α ο : Type) where
  workspace : Workspace α
  observed : ο
  world : World τ α

namespace World

variable {τ α : Type} [Behavior τ α]

@[simp] theorem run_nil (w : World τ α) : run [] w = w := rfl

@[simp] theorem run_cons (d : Deed τ α) (ds : List (Deed τ α)) (w : World τ α) :
    run (d :: ds) w = run ds (w.perform d) := rfl

@[simp] theorem run_append (ds ds' : List (Deed τ α)) (w : World τ α) :
    run (ds ++ ds') w = run ds' (run ds w) := List.foldl_append

theorem perform_tick (w : World τ α) (c : ContextRef) : w.perform (.on c .tick) = (w.tick c).2 :=
  rfl

/-- The moments of a run. -/
def moments : List (Deed τ α) → World τ α → List (Moment τ α)
  | [], _ => []
  | d :: ds, w => w.deedMoments d ++ moments ds (w.perform d)

theorem moments_append (ds ds' : List (Deed τ α)) :
    moments (ds ++ ds') w = moments ds w ++ moments ds' (run ds w) := by
  induction ds generalizing w with
  | nil => rfl
  | cons d ds ih =>
    simp only [List.cons_append, moments, run_cons, ih, List.append_assoc]

/-- A new context whose maker is named at once. -/
theorem addContext_created (w : World τ α) (id : ContextId) (types : Hierarchy)
    (stepMillis : UInt32) (created : Bool) :
    run [.newContext id types stepMillis, .setCreated ⟨w.contexts.size⟩ created] w =
      (w.addContext { Context.new id types stepMillis with createdByDirectory := created }).2 := by
  show World.mk _ _ _ = World.mk _ _ _
  congr 1
  refine Array.ext_getElem? fun i => ?_
  simp only [Array.getElem?_modify, perform, addContext, Array.getElem?_push]
  by_cases h : i = w.contexts.size
  · simp [h]
  · simp [h, Ne.symm h]

end World

open World

/-! ## The ids of a call -/

/-- A directory has its ids in ascending order. -/
theorem SortedMap.ids_ascend {β : Type} (m : SortedMap ContextId β) :
    m.keys.Pairwise fun i j => i.number < j.number :=
  List.pairwise_map.2 (m.ascending.imp fun {a b} h =>
    (Std.compare_eq_lt (a := a.1.number) (b := b.1.number)).1 h)

theorem ContextId.isAll_of_isConcrete {id : ContextId} (h : id.isConcrete = true) :
    id.isAll = false :=
  beq_eq_false_iff_ne.2 fun he => by
    rw [he] at h
    exact absurd h (by decide)

theorem Workspace.targets_of_isConcrete {α : Type} (ws : Workspace α) {id : ContextId}
    (h : id.isConcrete = true) : ws.targets id = .ok [id] := by
  simp only [targets, ContextId.isAll_of_isConcrete h, h, Bool.not_true, Bool.false_eq_true,
    if_false]

/-- Other negative ids, and that of no context, are refused. -/
theorem Workspace.targets_refused {α : Type} (ws : Workspace α) {id : ContextId}
    (h : ¬(id = .all ∨ id.isConcrete = true)) : ws.targets id = .error (.invalidContextId id) := by
  obtain ⟨hall, hone⟩ := not_or.1 h
  have hall : id.isAll = false := beq_eq_false_iff_ne.2 hall
  simp only [targets, hall, hone, Bool.not_false, Bool.false_eq_true, if_false, if_true]

namespace Workspace

variable {τ α ο : Type} [Behavior τ α] (ws : Workspace α) (obs : Observer ο α)

/-! ## What the operations of a workspace do -/

/-- An observer is told something. -/
def telling (n : Notice) (o : ο) : Deed τ α := .host fun h => (obs n o h).2

/-- Something is reported. -/
def reporting (e : Event) : Deed τ α := .host (·.report e)

/-- What asking for a context does. -/
def contextDeeds (id : ContextId) (w : World τ α) : List (Deed τ α) :=
  if !id.isConcrete then []
  else
    match ws.find? id with
    | some _ => []
    | none => [.newContext id ws.types ws.config.tickMillis, .setCreated ⟨w.contexts.size⟩ true,
        reporting (.contextCreated id)]

/-- What handing a context over does. -/
def insertDeeds (c : ContextRef) (w : World τ α) : List (Deed τ α) :=
  match w.context? c with
  | none => []
  | some ctx =>
    if !ctx.id.isConcrete then [.dropContext c]
    else if ws.directory.contains ctx.id then [.dropContext c]
    else [.setCreated c false, reporting (.contextInserted ctx.id)]

/-- What the logging of states after a tick does. -/
def logDueDeeds (id : ContextId) (c : ContextRef) (frame : UInt64) (w : World τ α) :
    List (Deed τ α) :=
  if ws.config.stateLogDue frame then
    .on c (.logState ws.sink) ::
      match (w.logState c ws.sink).1 with
      | .error _ => []
      | .ok records => [reporting (.periodicLog id frame records)]
  else []

/-- What the logging after a tick does. -/
def logTickDeeds (id : ContextId) (c : ContextRef) (frame : UInt64) (w : World τ α) :
    List (Deed τ α) :=
  if ws.config.logStaticsOnTick then
    .on c (.logStatics none ws.sink) ::
      match w.logStatics c none ws.sink with
      | (.error _, _) => []
      | (.ok _, v) => ws.logDueDeeds id c frame v
  else ws.logDueDeeds id c frame w

/-- What a tick of a context with its logging does. -/
def tickOneDeeds (id : ContextId) (o : ο) (w : World τ α) : List (Deed τ α) :=
  match ws.find? id with
  | none => []
  | some c =>
    let started := .started id (((w.context? c).map (·.clock.frames)).getD 0)
    let (o', w') := tell obs started o w
    let (report, w') := w'.tick c
    [telling obs started o, .on c .tick] ++ ws.logTickDeeds id c report.frame w' ++
      [telling obs (.ended id report) o']

/-- What ticks of contexts one after the other do. -/
def tickAllDeeds : List ContextId → ο → World τ α → List (Deed τ α)
  | [], _, _ => []
  | id :: ids, o, w =>
    ws.tickOneDeeds obs id o w ++
      match ws.tickOne obs id o w with
      | (_, .ok (), o, w) => tickAllDeeds ids o w
      | (_, .error e, o, w) =>
        reporting (.tickLogFailed id e) :: tickAllDeeds ids o (w.report (.tickLogFailed id e))

/-- What a tick of one context or of all does. -/
def tickDeeds (id : ContextId) (o : ο) (w : World τ α) : List (Deed τ α) :=
  match ws.targets id with
  | .error _ => []
  | .ok ids =>
    if id.isAll then ws.tickAllDeeds obs ids o w
    else
      let (_, ws', w') := ws.context id w
      ws.contextDeeds id w ++ ws'.tickAllDeeds obs ids o w'

/-- What logging the states of contexts one after the other does. -/
def logContextsDeeds : List ContextId → World τ α → List (Deed τ α)
  | [], _ => []
  | id :: ids, w =>
    match ws.find? id with
    | none => logContextsDeeds ids w
    | some c =>
      .on c (.logState ws.sink) ::
        match w.logState c ws.sink with
        | (.error _, _) => []
        | (.ok _, w) => logContextsDeeds ids w

/-- What logging the state of one context or of all does. -/
def logStatesDeeds (id : ContextId) (w : World τ α) : List (Deed τ α) :=
  match ws.targets id with
  | .error _ => []
  | .ok ids => ws.logContextsDeeds ids w

/-- What cleaning up contexts one after the other does. -/
def cleanContextsDeeds : List ContextId → Workspace α → ο → World τ α → List (Deed τ α)
  | [], _, _, _ => []
  | id :: ids, ws, o, w =>
    match ws.find? id with
    | none => cleanContextsDeeds ids ws o w
    | some c =>
      let ws := { ws with directory := ws.directory.erase id }
      let (o', w') := tell obs (.cleaned id) o (w.release c)
      [.on c .release, telling obs (.cleaned id) o] ++
        if (w'.context? c).any (·.createdByDirectory) then
          [reporting (.contextDestroyed id), .dropContext c] ++
            cleanContextsDeeds ids ws o' ((w'.report (.contextDestroyed id)).dropContext c)
        else
          reporting (.contextReturned id) ::
            cleanContextsDeeds ids ws o' (w'.report (.contextReturned id))

/-- What cleaning up one context or all does. -/
def cleanupDeeds (id : ContextId) (o : ο) (w : World τ α) : List (Deed τ α) :=
  match ws.targets id with
  | .error _ => []
  | .ok ids => cleanContextsDeeds obs ids ws o w

/-! ## They do it -/

variable {ws obs} {id : ContextId} {c : ContextRef} {o : ο} {w : World τ α}

@[simp] theorem perform_reporting (e : Event) : w.perform (reporting e) = w.report e := rfl

@[simp] theorem perform_telling (n : Notice) : w.perform (telling obs n o) = (tell obs n o w).2 :=
  rfl

theorem run_contextDeeds : run (ws.contextDeeds id w) w = (ws.context id w).2.2 := by
  unfold contextDeeds context
  by_cases hid : (!id.isConcrete) = true
  · rw [if_pos hid, if_pos hid]
    rfl
  · rw [if_neg hid, if_neg hid]
    cases ws.find? id with
    | some c => rfl
    | none =>
      exact congrArg (·.report (.contextCreated id))
        (addContext_created w id ws.types ws.config.tickMillis true)

theorem run_insertDeeds : run (ws.insertDeeds c w) w = (ws.insert c w).2.2 := by
  unfold insertDeeds insert
  cases w.context? c with
  | none => rfl
  | some ctx =>
    simp only
    split
    · rfl
    · split <;> rfl

theorem run_logDueDeeds (frame : UInt64) :
    run (ws.logDueDeeds id c frame w) w =
      (if ws.config.stateLogDue frame then
        match w.logState c ws.sink with
        | (.error e, w) => (.error e, w)
        | (.ok records, w) => (.ok (), w.report (.periodicLog id frame records))
      else (.ok (), w) : Except ContextError Unit × World τ α).2 := by
  unfold logDueDeeds
  split
  · rw [run_cons]
    have hperform : w.perform (.on c (.logState ws.sink)) = (w.logState c ws.sink).2 := rfl
    rw [hperform]
    cases w.logState c ws.sink with
    | mk result v => cases result <;> rfl
  · rfl

theorem run_logTickDeeds (frame : UInt64) :
    run (ws.logTickDeeds id c frame w) w = (ws.logTick id c frame w).2 := by
  unfold logTickDeeds logTick
  split
  · rw [run_cons]
    have hperform : w.perform (.on c (.logStatics none ws.sink)) =
        (w.logStatics c none ws.sink).2 := rfl
    rw [hperform]
    cases w.logStatics c none ws.sink with
    | mk result v =>
      cases result with
      | error e => rfl
      | ok n => exact run_logDueDeeds frame
  · exact run_logDueDeeds frame

theorem run_tickOneDeeds : run (ws.tickOneDeeds obs id o w) w = (ws.tickOne obs id o w).2.2.2 := by
  unfold tickOneDeeds tickOne
  cases ws.find? id with
  | none => rfl
  | some c =>
    simp only [List.cons_append, List.nil_append, run_cons, run_append, perform_telling,
      perform_tick, run_logTickDeeds, run_nil]

theorem run_tickAllDeeds (ids : List ContextId) (total : TickReport)
    (failure : Option ContextError) :
    run (ws.tickAllDeeds obs ids o w) w = (ws.tickAll obs ids total failure o w).2.2.2 := by
  induction ids generalizing total failure o w with
  | nil => rfl
  | cons id ids ih =>
    simp only [tickAllDeeds, tickAll, run_append, run_tickOneDeeds]
    cases ws.tickOne obs id o w with
    | mk report rest =>
      obtain ⟨logged, o', v⟩ := rest
      cases logged with
      | ok => exact ih _ _
      | error e => exact ih _ _

theorem run_tickDeeds : run (ws.tickDeeds obs id o w) w = (ws.tick obs id o w).2.2.2 := by
  unfold tickDeeds tick
  cases ws.targets id with
  | error e => rfl
  | ok ids =>
    simp only
    by_cases hall : id.isAll = true
    · simp only [hall, if_true]
      rw [run_tickAllDeeds ids {} none]
      split <;> simp_all
    · simp only [hall, Bool.false_eq_true, if_false]
      rw [run_append, run_contextDeeds]
      rw [run_tickAllDeeds ids {} none]
      split <;> simp_all

theorem run_logContextsDeeds (ids : List ContextId) (sent : Nat) :
    run (ws.logContextsDeeds ids w) w = (ws.logContexts ids sent w).2 := by
  induction ids generalizing sent w with
  | nil => rfl
  | cons id ids ih =>
    simp only [logContextsDeeds, logContexts]
    cases ws.find? id with
    | none => exact ih sent
    | some c =>
      simp only [run_cons]
      have hperform : w.perform (.on c (.logState ws.sink)) = (w.logState c ws.sink).2 := rfl
      rw [hperform]
      cases w.logState c ws.sink with
      | mk result v =>
        cases result with
        | error e => rfl
        | ok n => exact ih _

theorem run_logStatesDeeds : run (ws.logStatesDeeds id w) w = (ws.logStates id w).2 := by
  unfold logStatesDeeds logStates
  cases ws.targets id with
  | error e => rfl
  | ok ids => exact run_logContextsDeeds ids 0

theorem run_cleanContextsDeeds (ids : List ContextId) (ws : Workspace α) :
    run (cleanContextsDeeds obs ids ws o w) w = (cleanContexts obs ids ws o w).2.2.2 := by
  induction ids generalizing ws o w with
  | nil => rfl
  | cons id ids ih =>
    simp only [cleanContextsDeeds, cleanContexts]
    cases ws.find? id with
    | none => exact ih ws
    | some c =>
      have hperform : w.perform (.on c .release) = w.release c := rfl
      simp only [List.cons_append, List.nil_append, run_cons, hperform, perform_telling]
      split
      · simp only [run_cons, perform_reporting]
        exact ih _
      · simp only [run_cons, perform_reporting]
        exact ih _

theorem run_cleanupDeeds : run (ws.cleanupDeeds obs id o w) w = (ws.cleanup obs id o w).2.2.2 := by
  unfold cleanupDeeds cleanup
  cases ws.targets id with
  | error e => rfl
  | ok ids => exact run_cleanContextsDeeds ids ws

end Workspace

namespace Application

variable {τ α ο : Type} [Behavior τ α]

/-! ## Runs -/

/-- The application after an act. -/
def act (s : Application τ α ο) : Act τ α ο → Application τ α ο
  | .deed d => { s with world := s.world.perform d }
  | .context id =>
    let (_, workspace, world) := s.workspace.context id s.world
    { s with workspace, world }
  | .insert c =>
    let (_, workspace, world) := s.workspace.insert c s.world
    { s with workspace, world }
  | .tick obs id =>
    let (_, workspace, observed, world) := s.workspace.tick obs id s.observed s.world
    { workspace, observed, world }
  | .logStates id => { s with world := (s.workspace.logStates id s.world).2 }
  | .cleanup obs id =>
    let (_, workspace, observed, world) := s.workspace.cleanup obs id s.observed s.world
    { workspace, observed, world }
  | .replaceSink sink => { s with workspace := (s.workspace.replaceSink sink).2 }

/-- What an act does to the world. -/
def actDeeds (s : Application τ α ο) : Act τ α ο → List (Deed τ α)
  | .deed d => [d]
  | .context id => s.workspace.contextDeeds id s.world
  | .insert c => s.workspace.insertDeeds c s.world
  | .tick obs id => s.workspace.tickDeeds obs id s.observed s.world
  | .logStates id => s.workspace.logStatesDeeds id s.world
  | .cleanup obs id => s.workspace.cleanupDeeds obs id s.observed s.world
  | .replaceSink _ => []

/-- The application at the end of a run. -/
def play (acts : List (Act τ α ο)) (s : Application τ α ο) : Application τ α ο := acts.foldl act s

/-- What a run does to the world. -/
def deeds : List (Act τ α ο) → Application τ α ο → List (Deed τ α)
  | [], _ => []
  | a :: acts, s => s.actDeeds a ++ deeds acts (s.act a)

theorem run_actDeeds (s : Application τ α ο) (a : Act τ α ο) :
    run (s.actDeeds a) s.world = (s.act a).world := by
  cases a with
  | deed d => rfl
  | context id => exact Workspace.run_contextDeeds
  | insert c => exact Workspace.run_insertDeeds
  | tick obs id => exact Workspace.run_tickDeeds
  | logStates id => exact Workspace.run_logStatesDeeds
  | cleanup obs id => exact Workspace.run_cleanupDeeds
  | replaceSink sink => rfl

/-- The deeds of a run lead to the world at its end. -/
theorem run_deeds (acts : List (Act τ α ο)) (s : Application τ α ο) :
    run (deeds acts s) s.world = (play acts s).world := by
  induction acts generalizing s with
  | nil => rfl
  | cons a acts ih =>
    rw [deeds, run_append, run_actDeeds]
    exact ih (s.act a)

end Application

end AgentScheduler
