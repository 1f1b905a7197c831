/-
Runs of a workspace in worlds that mirror each other. Its receiver and its
observers do the same to both hosts, so it makes, ticks, logs and cleans up the
same contexts with the same results (`play_mirrors`), as long as no clock gets to
2 to the power of 63.

What the observers keep may differ: nothing that happens to contexts depends on
it.
-/
import AgentScheduler.Proofs.MirrorTicks
import AgentScheduler.Proofs.Turns

namespace AgentScheduler

variable {τ α ο : Type}

/-- Leaves hosts mirroring each other, whatever it keeps. -/
def Observer.Mirrors (R : α → α → Prop) (obs : Observer ο α) : Prop :=
  ∀ n o p h g, h.Mirrors R g → (obs n o h).2.Mirrors R (obs n p g).2

/-- Involves such receivers, observers and deeds only. -/
def Act.Mirrors (R : α → α → Prop) : Act τ α ο → Prop
  | .deed d => d.Mirrors R
  | .tick obs _ | .cleanup obs _ => obs.Mirrors R
  | .replaceSink sink => sink.Mirrors R
  | _ => True

/-- The same workspace in worlds that mirror each other. -/
structure Application.Mirrors (R : α → α → Prop) (s t : Application τ α ο) : Prop where
  workspace : t.workspace = s.workspace
  sink : s.workspace.sink.Mirrors R
  world : s.world.Mirrors R t.world

open World

variable {R : α → α → Prop} {w v : World τ α} {ws : Workspace α} {obs : Observer ο α} {o p : ο}
  {id : ContextId} {c : ContextRef}

namespace Workspace

/-! ## The receiver -/

section Receiver

theorem context_sink : (ws.context id w).2.1.sink = ws.sink := by
  unfold context
  split
  · rfl
  · split <;> rfl

theorem insert_sink : (ws.insert c w).2.1.sink = ws.sink := by
  unfold insert
  split
  · rfl
  · split
    · rfl
    · split <;> rfl

theorem cleanContexts_sink (ids : List ContextId) (ws : Workspace α) :
    (cleanContexts obs ids ws o w).2.1.sink = ws.sink := by
  induction ids generalizing ws o w with
  | nil => rfl
  | cons id ids ih =>
    unfold cleanContexts
    cases ws.find? id with
    | none => exact ih ws
    | some c =>
      simp only
      split <;> exact ih _

theorem cleanup_sink : (ws.cleanup obs id o w).2.1.sink = ws.sink := by
  unfold cleanup
  cases ws.targets id with
  | error e => rfl
  | ok ids => exact cleanContexts_sink ids ws

end Receiver

theorem tell_mirrors (hobs : obs.Mirrors R) (n : Notice) (h : w.Mirrors R v) :
    (tell obs n o w).2.Mirrors R (tell obs n p v).2 :=
  h.changeHost (hobs n o p _ _ h.host)

/-! ## The directory -/

theorem context_mirrors (ws : Workspace α) (id : ContextId) (h : w.Mirrors R v) :
    (ws.context id v).2.1 = (ws.context id w).2.1 ∧
      (ws.context id w).2.2.Mirrors R (ws.context id v).2.2 := by
  unfold context
  split
  · exact ⟨rfl, h⟩
  · cases ws.find? id with
    | some c => exact ⟨rfl, h⟩
    | none =>
      obtain ⟨hc, hadded⟩ := h.result (·.addContext
        { Context.new id ws.types ws.config.tickMillis with createdByDirectory := true })
        fun w b => rfl
      refine ⟨?_, hadded.report _⟩
      exact congrArg (fun c => { ws with directory := ws.directory.insert id c }) hc

theorem insert_mirrors (ws : Workspace α) (c : ContextRef) (h : w.Mirrors R v) :
    (ws.insert c v).2.1 = (ws.insert c w).2.1 ∧
      (ws.insert c w).2.2.Mirrors R (ws.insert c v).2.2 := by
  have hdrop : (w.dropContext c).Mirrors R (v.dropContext c) :=
    h.change (·.dropContext c) fun w b => dropContext_withApp w b c
  unfold insert
  rw [h.context? c]
  cases w.context? c with
  | none => exact ⟨rfl, h⟩
  | some ctx =>
    simp only
    split
    · exact ⟨rfl, hdrop⟩
    · split
      · exact ⟨rfl, hdrop⟩
      · exact ⟨rfl, (h.modifyContext c _).report _⟩

variable [Behavior τ α]

/-! ## Ticks -/

theorem logDue_mirrors (hs : ws.sink.Mirrors R) (frame : UInt64)
    (hm : ∀ u ∈ points (ws.logDueDeeds id c frame w) w, u.Timely) (h : w.Mirrors R v) :
    MirrorsResult R
      (if ws.config.stateLogDue frame then
        match w.logState c ws.sink with
        | (.error e, w) => (.error e, w)
        | (.ok records, w) => (.ok (), w.report (.periodicLog id frame records))
      else (.ok (), w) : Except ContextError Unit × World τ α)
      (if ws.config.stateLogDue frame then
        match v.logState c ws.sink with
        | (.error e, v) => (.error e, v)
        | (.ok records, v) => (.ok (), v.report (.periodicLog id frame records))
      else (.ok (), v)) := by
  split
  · obtain ⟨result, u, u', hu, hu', hafter⟩ :=
      (logState_mirrors (c := c) hs (hm w (mem_points_self _ w)) h).parts
    rw [hu, hu']
    cases result with
    | error e => exact ⟨rfl, hafter⟩
    | ok records => exact ⟨rfl, hafter.report _⟩
  · exact ⟨rfl, h⟩

theorem logTick_mirrors (hs : ws.sink.Mirrors R) (frame : UInt64)
    (hm : ∀ u ∈ points (ws.logTickDeeds id c frame w) w, u.Timely) (h : w.Mirrors R v) :
    MirrorsResult R (ws.logTick id c frame w) (ws.logTick id c frame v) := by
  have ht := hm w (mem_points_self _ w)
  unfold logTickDeeds at hm
  unfold logTick
  by_cases hlog : ws.config.logStaticsOnTick = true
  · obtain ⟨result, u, u', hu, hu', hafter⟩ := (logStatics_mirrors (c := c) hs none ht h).parts
    have hperform : w.perform (.on c (.logStatics none ws.sink)) =
        (w.logStatics c none ws.sink).2 := rfl
    simp only [hlog, if_true, points, hperform, hu, hu'] at hm ⊢
    cases result with
    | error e => exact ⟨rfl, hafter⟩
    | ok n =>
      refine logDue_mirrors hs frame (fun x hx => hm x ?_) hafter
      exact List.mem_cons_of_mem _ (List.mem_append_right _ hx)
  · simp only [hlog, Bool.false_eq_true, if_false] at hm ⊢
    exact logDue_mirrors hs frame hm h

variable (tasks : ∀ (a : AgentRef) (t : τ), (Behavior.exec a t : Prog τ α _).Mirrors R)

include tasks

theorem tickOne_mirrors (hs : ws.sink.Mirrors R) (hobs : obs.Mirrors R)
    (hm : ∀ u ∈ points (ws.tickOneDeeds obs id o w) w, u.Timely) (h : w.Mirrors R v) :
    let x := ws.tickOne obs id o w
    let y := ws.tickOne obs id p v
    y.1 = x.1 ∧ y.2.1 = x.2.1 ∧ x.2.2.2.Mirrors R y.2.2.2 := by
  unfold tickOneDeeds at hm
  unfold tickOne
  cases hc : ws.find? id with
  | none => exact ⟨rfl, rfl, h⟩
  | some c =>
    simp only [hc, List.cons_append, List.nil_append, points, perform_telling, perform_tick,
      List.forall_mem_cons, List.forall_mem_append, List.forall_mem_map] at hm
    obtain ⟨-, -, -, hticks, hlogs⟩ := hm
    have htold := tell_mirrors (o := o) (p := p) hobs
      (.started id (((w.context? c).map (·.clock.frames)).getD 0)) h
    obtain ⟨hreport, hticked⟩ := tick_mirrors tasks hticks htold
    obtain ⟨hlogged, hend⟩ := logTick_mirrors hs _
      (fun u hu => hlogs u (mem_points_append_left _ hu)) hticked
    simp only [h.context? c, hreport]
    exact ⟨trivial, hlogged, tell_mirrors hobs _ hend⟩

theorem tickAll_mirrors (hs : ws.sink.Mirrors R) (hobs : obs.Mirrors R) (ids : List ContextId)
    (total : TickReport) (failure : Option ContextError)
    (hm : ∀ u ∈ points (ws.tickAllDeeds obs ids o w) w, u.Timely) (h : w.Mirrors R v) :
    let x := ws.tickAll obs ids total failure o w
    let y := ws.tickAll obs ids total failure p v
    y.1 = x.1 ∧ y.2.1 = x.2.1 ∧ x.2.2.2.Mirrors R y.2.2.2 := by
  -- the observers part ways with the first notice, so what they keep stays free
  induction ids generalizing total failure o p w v with
  | nil => exact ⟨rfl, rfl, h⟩
  | cons id ids ih =>
    unfold tickAllDeeds at hm
    have hfirst := tickOne_mirrors tasks (p := p) hs hobs
      (fun u hu => hm u (mem_points_append_left _ hu)) h
    have hrest := fun u hu => hm u (mem_points_append_right _ hu)
    rw [run_tickOneDeeds] at hrest
    unfold tickAll
    generalize ws.tickOne obs id o w = x at hfirst hrest
    generalize ws.tickOne obs id p v = y at hfirst
    obtain ⟨report, logged, o', u⟩ := x
    obtain ⟨report', logged', p', u'⟩ := y
    obtain ⟨hreport, hlogged, hafter⟩ := hfirst
    obtain rfl : report' = report := hreport
    obtain rfl : logged' = logged := hlogged
    cases logged' with
    | ok => exact ih _ _ hrest hafter
    | error e =>
      refine ih _ _ (fun x hx => hrest x ?_) (hafter.report _)
      exact List.mem_cons_of_mem _ (List.mem_append_right _ hx)

omit [Behavior τ α] tasks in
theorem Opened.mirrors {ids : List ContextId} {ws₁ : Workspace α} {w₁ : World τ α}
    (hopened : ws.Opened id w ids ws₁ w₁) (h : w.Mirrors R v) :
    ∃ v₁, ws.Opened id v ids ws₁ v₁ ∧ w₁.Mirrors R v₁ := by
  cases hopened with
  | all hid => exact ⟨v, .all hid, h⟩
  | present hid hc => exact ⟨v, .present hid hc, h⟩
  | absent hid hc =>
    refine ⟨_, ?_, (h.result (·.addContext
      { Context.new id ws.types ws.config.tickMillis with createdByDirectory := true })
      fun w b => rfl).2.report _⟩
    rw [← h.contexts]
    exact .absent hid hc

/-- A tick call has the same result. -/
theorem tick_mirrors (hs : ws.sink.Mirrors R) (hobs : obs.Mirrors R)
    (hm : ∀ u ∈ points (ws.tickDeeds obs id o w) w, u.Timely) (h : w.Mirrors R v) :
    let x := ws.tick obs id o w
    let y := ws.tick obs id p v
    y.1 = x.1 ∧ y.2.1 = x.2.1 ∧ x.2.2.2.Mirrors R y.2.2.2 := by
  by_cases hid : id = .all ∨ id.isConcrete = true
  · obtain ⟨ids, ws₁, w₁, hw⟩ := ws.exists_opened hid w
    obtain ⟨v₁, hv, h₁⟩ := hw.mirrors h
    have hsink : ws₁.sink.Mirrors R := hw.sink_eq ▸ hs
    obtain ⟨first, hdeeds, hfirst⟩ := hw.tickDeeds obs o
    have hall : ∀ u ∈ points (ws₁.tickAllDeeds obs ids o w₁) w₁, u.Timely := fun u hu =>
      hm u (by rw [hdeeds]; exact mem_points_append_right first (hfirst ▸ hu))
    obtain ⟨htotal, hfailure, hend⟩ :=
      tickAll_mirrors tasks (p := p) hsink hobs ids {} none hall h₁
    rw [hw.tick_eq obs o, hv.tick_eq obs p, htotal, hfailure]
    exact ⟨rfl, rfl, hend⟩
  · rw [ws.tick_invalid obs hid, ws.tick_invalid obs hid]
    exact ⟨rfl, rfl, h⟩

/-! ## Logging and cleaning up -/

omit tasks in
theorem logContexts_mirrors (hs : ws.sink.Mirrors R) (ids : List ContextId) (sent : Nat)
    (hm : ∀ u ∈ points (ws.logContextsDeeds ids w) w, u.Timely) (h : w.Mirrors R v) :
    MirrorsResult R (ws.logContexts ids sent w) (ws.logContexts ids sent v) := by
  induction ids generalizing sent w v with
  | nil => exact ⟨rfl, h⟩
  | cons id ids ih =>
    have ht := hm w (mem_points_self _ w)
    unfold logContextsDeeds at hm
    unfold logContexts
    cases hc : ws.find? id with
    | none =>
      rw [hc] at hm
      exact ih sent hm h
    | some c =>
      obtain ⟨result, u, u', hu, hu', hafter⟩ := (logState_mirrors (c := c) hs ht h).parts
      have hperform : w.perform (.on c (.logState ws.sink)) = (w.logState c ws.sink).2 := rfl
      simp only [hc, points, hperform, hu, hu'] at hm ⊢
      cases result with
      | error e => exact ⟨rfl, hafter⟩
      | ok n =>
        refine ih _ (fun x hx => hm x ?_) hafter
        exact List.mem_cons_of_mem _ (List.mem_append_right _ hx)

omit tasks in
theorem logStates_mirrors (hs : ws.sink.Mirrors R)
    (hm : ∀ u ∈ points (ws.logStatesDeeds id w) w, u.Timely) (h : w.Mirrors R v) :
    MirrorsResult R (ws.logStates id w) (ws.logStates id v) := by
  unfold logStatesDeeds at hm
  unfold logStates
  cases ht : ws.targets id with
  | error e => exact ⟨rfl, h⟩
  | ok ids =>
    rw [ht] at hm
    obtain ⟨hsent, hend⟩ := logContexts_mirrors hs ids 0 hm h
    exact ⟨congrArg (Except.mapError WorkspaceError.context) hsent, hend⟩

omit [Behavior τ α] tasks in
theorem cleanContexts_mirrors (hobs : obs.Mirrors R) (ids : List ContextId) (ws : Workspace α)
    (h : w.Mirrors R v) :
    let x := cleanContexts obs ids ws o w
    let y := cleanContexts obs ids ws p v
    y.1 = x.1 ∧ y.2.1 = x.2.1 ∧ x.2.2.2.Mirrors R y.2.2.2 := by
  induction ids generalizing ws o p w v with
  | nil => exact ⟨rfl, rfl, h⟩
  | cons id ids ih =>
    unfold cleanContexts
    cases ws.find? id with
    | none => exact ih ws h
    | some c =>
      have htold := tell_mirrors (o := o) (p := p) hobs (.cleaned id)
        (h.change (·.release c) fun w b => release_withApp w b c)
      simp only [htold.context? c]
      split
      · exact ih _ ((htold.report _).change (·.dropContext c)
          fun w b => dropContext_withApp w b c)
      · obtain ⟨hreturned, hws, hend⟩ := ih { ws with directory := ws.directory.erase id }
          (htold.report (.contextReturned id))
        exact ⟨congrArg (c :: ·) hreturned, hws, hend⟩

omit [Behavior τ α] tasks in
theorem cleanup_mirrors (ws : Workspace α) (id : ContextId) (hobs : obs.Mirrors R)
    (h : w.Mirrors R v) :
    let x := ws.cleanup obs id o w
    let y := ws.cleanup obs id p v
    y.1 = x.1 ∧ y.2.1 = x.2.1 ∧ x.2.2.2.Mirrors R y.2.2.2 := by
  unfold cleanup
  cases ws.targets id with
  | error e => exact ⟨rfl, rfl, h⟩
  | ok ids =>
    obtain ⟨hreturned, hws, hend⟩ := cleanContexts_mirrors (o := o) (p := p) hobs ids ws h
    exact ⟨congrArg Except.ok hreturned, hws, hend⟩

end Workspace

/-! ## Runs -/

namespace Application

variable [Behavior τ α] {s t : Application τ α ο}
  (tasks : ∀ (a : AgentRef) (t : τ), (Behavior.exec a t : Prog τ α _).Mirrors R)

include tasks

omit tasks in
theorem act_sink {a : Act τ α ο} (hs : s.workspace.sink.Mirrors R) (ha : a.Mirrors R) :
    (s.act a).workspace.sink.Mirrors R := by
  cases a with
  | deed | logStates => exact hs
  | replaceSink sink => exact ha
  | context | insert | tick | cleanup =>
    simpa only [act, Workspace.context_sink, Workspace.insert_sink, Workspace.tick_sink,
      Workspace.cleanup_sink] using hs

theorem act_mirrors {a : Act τ α ο} (ha : a.Mirrors R)
    (hm : ∀ u ∈ points (s.actDeeds a) s.world, u.Timely) (h : s.Mirrors R t) :
    (s.act a).Mirrors R (t.act a) := by
  obtain ⟨hws, hs, hworld⟩ := h
  obtain ⟨ws, o, w⟩ := s
  obtain ⟨ws', p, v⟩ := t
  obtain rfl : ws' = ws := hws
  have hkept := act_sink (s := ⟨ws', o, w⟩) hs ha
  cases a with
  | deed d =>
    simp only [actDeeds, points, List.forall_mem_cons, List.forall_mem_append,
      List.forall_mem_map] at hm
    exact ⟨rfl, hs, perform_mirrors tasks ha hm.1 hm.2.1 hworld⟩
  | context id =>
    obtain ⟨hws, hend⟩ := ws'.context_mirrors id hworld
    exact ⟨hws, hkept, hend⟩
  | insert c =>
    obtain ⟨hws, hend⟩ := ws'.insert_mirrors c hworld
    exact ⟨hws, hkept, hend⟩
  | tick obs id =>
    obtain ⟨-, hws, hend⟩ := Workspace.tick_mirrors tasks (p := p) hs ha hm hworld
    exact ⟨hws, hkept, hend⟩
  | logStates id =>
    exact ⟨rfl, hs, (Workspace.logStates_mirrors hs hm hworld).2⟩
  | cleanup obs id =>
    obtain ⟨-, hws, hend⟩ := ws'.cleanup_mirrors id (o := o) (p := p) ha hworld
    exact ⟨hws, hkept, hend⟩
  | replaceSink sink => exact ⟨rfl, ha, hworld⟩

/-- A whole run does the same to both. -/
theorem play_mirrors (acts : List (Act τ α ο)) (hacts : ∀ a ∈ acts, a.Mirrors R)
    (hm : ∀ u ∈ points (deeds acts s) s.world, u.Timely) (h : s.Mirrors R t) :
    (play acts s).Mirrors R (play acts t) := by
  induction acts generalizing s t with
  | nil => exact h
  | cons a acts ih =>
    obtain ⟨ha, hacts⟩ := List.forall_mem_cons.1 hacts
    have hrest := fun u hu => hm u (mem_points_append_right (s.actDeeds a) hu)
    rw [run_actDeeds] at hrest
    exact ih hacts hrest (act_mirrors tasks ha (fun u hu => hm u (mem_points_append_left _ hu)) h)

end Application

end AgentScheduler
