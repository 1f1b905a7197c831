/-
Tasks do not notice what is left of agents that are gone. While a context with
leftovers is ticked it is in use, so a task reaches it as the context that
executes the task only, and ticks of it are refused (`Busy`). What tasks do and
get is then the same in two worlds that are the same but for leftovers, if they
do not go by the raw number of entries (`Prog.Discreet`). A tick of a context
with leftovers does the same too; it only counts them (`Veiled.tickWith`).
-/
import AgentScheduler.Proofs.Unnoticed

namespace AgentScheduler

/-! ## Programs -/

section Programs

variable {τ α : Type}

/-- Hands records to plain receivers only. -/
def Request.Plain : Request τ α → Prop
  | .here op | .there _ op => op.Plain
  | _ => True

/-- Equal answers; the raw number of entries of the executing context may differ. -/
def Request.Blurred : (r : Request τ α) → r.Answer → r.Answer → Prop
  | .here op => op.Blurred
  | _ => fun x y => x = y

/-- Goes on in the same way whatever the raw number of entries of the executing context is, and
hands records to plain receivers only. -/
def Prog.Discreet {β : Type} : Prog τ α β → Prop
  | done _ => True
  | call r k => r.Plain ∧ (∀ x y, r.Blurred x y → k x = k y) ∧ ∀ answer, (k answer).Discreet

theorem ContextOp.blurred_of_eq {op : ContextOp α} {x y : op.Answer} (h : x = y) :
    op.Blurred x y := by
  subst h
  cases op <;> rfl

theorem Request.blurred_of_eq {r : Request τ α} {x y : r.Answer} (h : x = y) : r.Blurred x y := by
  cases r with
  | here op => exact ContextOp.blurred_of_eq h
  | _ => exact h

/-! ## Doings -/

/-- What happens at a moment and where, unless a walk passes by an agent that is gone. -/
def Moment.doing? (m : Moment τ α) : Option (ContextRef × Happening τ α) :=
  match m.what with
  | .passes _ => none
  | what => some (m.context, what)

/-- What happens in a part of a run, but for agents that walks pass by. -/
def doings (T : List (Moment τ α)) : List (ContextRef × Happening τ α) := T.filterMap Moment.doing?

theorem doings_append (T T' : List (Moment τ α)) : doings (T ++ T') = doings T ++ doings T' :=
  List.filterMap_append

theorem doings_cons (m : Moment τ α) (T : List (Moment τ α)) :
    doings (m :: T) = m.doing?.toList ++ doings T := by
  rw [doings, List.filterMap_cons]
  cases m.doing? <;> rfl

end Programs

/-! ## Reports -/

/-- The report without the number of entries of agents that are gone. -/
def TickReport.fresh (r : TickReport) : TickReport := { r with stale := 0 }

/-- The stops of a walk at agents that are there. -/
def Visit.isFresh : Visit → Bool
  | .stale => false
  | _ => true

theorem TickReport.fresh_visits (r : TickReport) (visits : List Visit) :
    (visits.foldl TickReport.visit r).fresh =
      (visits.filter Visit.isFresh).foldl TickReport.visit r.fresh := by
  induction visits generalizing r with
  | nil => rfl
  | cons visit visits ih =>
    rw [List.foldl_cons, ih]
    cases visit with
    | stale => rfl
    | busy => rfl
    | ran status => cases status <;> rfl

namespace World

variable {τ α : Type} {gone : ContextRef → AgentRef → Bool} {w v u : World τ α}
  {c d : ContextRef} {a : AgentRef} {ctx : Context} {r : Registry} {agent : Agent τ}

/-! ## Contexts with leftovers -/

/-- Contexts that have something left of agents that are gone are being ticked. -/
def Busy (gone : ContextRef → AgentRef → Bool) (w : World τ α) : Prop :=
  ∀ d a ctx, gone d a = true → w.context? d = some ctx → ctx.executing = true ∧ ctx.inUse = true

theorem Busy.mono (hw : Busy gone w) (h : SameActivity w v) : Busy gone v := by
  intro d a ctx' ha hc'
  obtain ⟨ctx, hc, hx, hu⟩ := h.contexts d ctx' hc'
  exact ⟨hx.trans (hw d a ctx ha hc).1, hu.trans (hw d a ctx ha hc).2⟩

theorem Busy.veiled (hw : Busy gone w) (h : Veiled gone w v) : Busy gone v := by
  intro d a ctx' ha hc'
  rcases h.context d with ⟨-, hnone⟩ | ⟨ctx, r, hc, hsome, -⟩
  · rw [hnone] at hc'
    cases hc'
  · rw [hsome] at hc'
    cases hc'
    exact hw d a ctx ha hc

/-- A context that is free has nothing left of agents that are gone. -/
theorem Busy.clear (hw : Busy gone w) (hc : w.context? d = some ctx)
    (hfree : ctx.executing = false ∨ ctx.inUse = false) (a : AgentRef) : gone d a = false := by
  refine Bool.eq_false_iff.2 fun ha => ?_
  obtain ⟨hx, hu⟩ := hw d a ctx ha hc
  rcases hfree with h | h
  · rw [hx] at h
    cases h
  · rw [hu] at h
    cases h

/-- A walk begins, and all other contexts with leftovers are being ticked. -/
theorem busy_startWalk (h : ∀ d' a ctx, d' ≠ d → gone d' a = true → w.context? d' = some ctx →
    ctx.executing = true ∧ ctx.inUse = true) : Busy gone (w.startWalk d) := by
  intro d' a ctx ha hc
  rw [startWalk, context?_modifyContext] at hc
  split at hc
  · obtain ⟨ctx, -, rfl⟩ := Option.map_eq_some_iff.1 hc
    exact ⟨rfl, rfl⟩
  · next hne => exact h d' a ctx hne ha hc

/-- A coherent world in which contexts with leftovers are being ticked. -/
structure Steady (gone : ContextRef → AgentRef → Bool) (w : World τ α) : Prop where
  grounded : Grounded gone w
  busy : Busy gone w

theorem Steady.report (h : Steady gone w) (e : Event) : Steady gone (w.report e) :=
  ⟨grounded_durable.host _ h.grounded, h.busy⟩

theorem Steady.startTask (h : Steady gone w) (hl : w.live? a = some agent) :
    Steady gone (w.startTask a) :=
  ⟨grounded_durable.fade (sameContexts_modifyAgent _) (fades_startTask hl) h.grounded, h.busy⟩

variable [Behavior τ α] {nested : Nested τ α} {inner : NestedMoments τ α}

theorem Steady.happens {p : Phase} {T : List (Moment τ α)} (hw : Steady gone w)
    (h : Happens p w T v) : Steady gone v :=
  ⟨(grounded_durable.happens h hw.grounded).1, hw.busy.mono h.sameActivity⟩

/-- Requests break no durable property, whether they run tasks or not. -/
theorem Durable.request {P : World τ α → Prop} (hP : Durable P) (ht : Traced nested inner)
    (r : Request τ α) (hw : P w) : P (w.answer nested c r).2 := by
  cases hp : r.phase? c with
  | none => exact hP.answer nested hp hw
  | some p => exact (hP.happens (answer_happens ht hp) hw).1

theorem request_sameActivity (ht : Traced nested inner) (r : Request τ α) :
    SameActivity w (w.answer nested c r).2 := by
  cases hp : r.phase? c with
  | none => exact answer_sameActivity nested hp
  | some p => exact (answer_happens ht hp).sameActivity

theorem Steady.answer (hw : Steady gone w) (ht : Traced nested inner) (r : Request τ α) :
    Steady gone (w.answer nested c r).2 :=
  ⟨grounded_durable.request ht r hw.grounded, hw.busy.mono (request_sameActivity ht r)⟩

theorem Steady.visit (hw : Steady gone w) (ht : Traced nested inner) :
    Steady gone (w.visit nested c a).2 := by
  have htask : Steady gone (w.runTask nested c a).2 := hw.happens (task_happens ht)
  unfold World.visit
  split
  · exact hw
  · generalize w.runTask nested c a = x at htask
    obtain ⟨status, u⟩ := x
    cases status with
    | some status => exact htask
    | none => exact htask.report _

/-! ## Requests -/

/-- Requests that run no task have the same answers, if they reach no context with leftovers but
the one that executes the task. -/
theorem Veiled.serve (h : Veiled gone w v) (hw : Grounded gone w) (hv : Grounded gone v)
    (nested : Nested τ α) (c : ContextRef) {r : Request τ α} (hp : r.phase? c = none)
    (hr : r.Plain) (hreach : ∀ d op ctx, r = .there d op → w.context? d = some ctx →
      ctx.inUse = false → ∀ a, gone d a = false) :
    r.Blurred (v.answer nested c r).1 (w.answer nested c r).1 ∧
      Veiled gone (w.answer nested c r).2 (v.answer nested c r).2 := by
  cases r with
  | here op =>
    have hop : op ≠ .tick := fun he => by rw [he] at hp; cases hp
    obtain ⟨hanswer, -, hafter⟩ := h.answerContextOp hw hv nested c hop hr
    exact ⟨hanswer, hafter⟩
  | there d op =>
    have hop : op ≠ .tick := fun he => by rw [he] at hp; cases hp
    obtain ⟨-, hanswer, hafter⟩ := h.answerContextOp hw hv nested d hop hr
    suffices VeiledResults gone (w.answer nested c (.there d op)) (v.answer nested c (.there d op))
      from ⟨Request.blurred_of_eq this.1, this.2⟩
    simp only [World.answer]
    rcases h.context d with ⟨hc, hc'⟩ | ⟨ctx, r, hc, hc', -⟩
    · rw [hc, hc']
      exact ⟨rfl, h⟩
    · rw [hc, hc']
      simp only
      rw [Context.seated_inUse]
      cases hu : ctx.inUse with
      | true => exact ⟨rfl, h⟩
      | false => exact ⟨congrArg some (hanswer (hreach d op ctx rfl hc hu)), hafter⟩
  | dropContext d =>
    suffices VeiledResults gone (w.answer nested c (.dropContext d))
      (v.answer nested c (.dropContext d)) from ⟨Request.blurred_of_eq this.1, this.2⟩
    simp only [World.answer]
    rcases h.context d with ⟨hc, hc'⟩ | ⟨ctx, r, hc, hc', -⟩
    · rw [hc, hc']
      exact ⟨rfl, h⟩
    · rw [hc, hc']
      simp only
      rw [Context.seated_inUse]
      split
      · exact ⟨rfl, h⟩
      · exact ⟨rfl, h.dropContext hw d⟩
  | create g =>
    refine ⟨?_, ?_, h.size, h.context, h.shown⟩
    · exact congrArg (fun agents => (⟨agents.size⟩ : AgentRef)) h.agents
    · simp only [World.answer, create, h.agents]
  | disown a => exact ⟨rfl, h.modifyAgent a _⟩
  | view a =>
    refine ⟨?_, h⟩
    show (v.live? a).map Agent.view = (w.live? a).map Agent.view
    rw [h.live? a]
  | exec a => cases hp
  | saveTask a => exact ⟨h.saveTask a, h⟩
  | loadTask a state => exact h.loadTask a state
  | describeTask a => exact ⟨h.describeTask a, h⟩
  | app =>
    have happ : v.host.app = w.host.app := congrArg Prod.fst h.shown
    exact ⟨happ, h⟩
  | setApp f =>
    have happ : v.host.app = w.host.app := congrArg Prod.fst h.shown
    have hreports : v.host.shown.2 = w.host.shown.2 := congrArg Prod.snd h.shown
    exact ⟨rfl, h.host (Prod.ext (congrArg f happ) hreports)⟩
  | report e => exact ⟨rfl, h.report e⟩

/-- Tasks that run inside each other do the same, whatever is left of agents that are gone. -/
structure Oblivious (gone : ContextRef → AgentRef → Bool) (nested : Nested τ α)
    (inner : NestedMoments τ α) : Prop where
  traced : Traced nested inner
  exec : ∀ {w v : World τ α} (c : ContextRef) (a : AgentRef), Veiled gone w v → Steady gone w →
    Steady gone v → VeiledResults gone (nested.exec c a w) (nested.exec c a v) ∧
      doings (inner.exec c a v) = doings (inner.exec c a w)
  tick : ∀ {w v : World τ α} (d : ContextRef), Veiled gone w v → Steady gone w →
    Steady gone v → VeiledResults gone (nested.tick d w) (nested.tick d v) ∧
      doings (inner.tick d v) = doings (inner.tick d w)

theorem Veiled.answer (ho : Oblivious gone nested inner) (h : Veiled gone w v)
    (hw : Steady gone w) (hv : Steady gone v) (c : ContextRef) {r : Request τ α} (hr : r.Plain) :
    (r.Blurred (v.answer nested c r).1 (w.answer nested c r).1 ∧
        Veiled gone (w.answer nested c r).2 (v.answer nested c r).2) ∧
      doings (requestMoments inner c v r) = doings (requestMoments inner c w r) := by
  cases hp : r.phase? c with
  | none =>
    refine ⟨h.serve hw.grounded hv.grounded nested c hp hr fun d op ctx _ hc hu => ?_, ?_⟩
    · exact hw.busy.clear hc (.inr hu)
    · rw [requestMoments_none inner v hp, requestMoments_none inner w hp]
  | some p =>
    unfold Request.phase? at hp
    split at hp
    · exact ho.tick c h hw hv
    · next d =>
      obtain ⟨⟨hreport, hafter⟩, hdoings⟩ := ho.tick d h hw hv
      suffices VeiledResults gone (w.answer nested c (.there d .tick))
          (v.answer nested c (.there d .tick)) ∧
        doings (requestMoments inner c v (.there d .tick)) =
          doings (requestMoments inner c w (.there d .tick))
        from ⟨⟨Request.blurred_of_eq this.1.1, this.1.2⟩, this.2⟩
      simp only [World.answer, requestMoments]
      rcases h.context d with ⟨hc, hc'⟩ | ⟨ctx, r, hc, hc', -⟩
      · rw [hc, hc']
        exact ⟨⟨rfl, h⟩, rfl⟩
      · rw [hc, hc']
        simp only
        rw [Context.seated_inUse]
        split
        · exact ⟨⟨rfl, h⟩, rfl⟩
        · exact ⟨⟨congrArg some hreport, hafter⟩, hdoings⟩
    · next a => exact ho.exec c a h hw hv
    · cases hp

theorem Veiled.run (ho : Oblivious gone nested inner) (c : ContextRef) {β : Type}
    (p : Prog τ α β) (hp : p.Discreet) (h : Veiled gone w v) (hw : Steady gone w)
    (hv : Steady gone v) : VeiledResults gone (p.run nested c w) (p.run nested c v) ∧
      doings (programMoments nested inner c p v) = doings (programMoments nested inner c p w) := by
  induction p generalizing w v with
  | done b => exact ⟨⟨rfl, h⟩, rfl⟩
  | call r k ih =>
    obtain ⟨hr, hsame, hk⟩ := hp
    obtain ⟨⟨hanswer, hafter⟩, hserved⟩ := h.answer ho hw hv c hr
    obtain ⟨⟨hresult, hend⟩, hrest⟩ := ih (w.answer nested c r).1 (hk _) hafter
      (hw.answer ho.traced r) (hv.answer ho.traced r)
    simp only [Prog.run, programMoments, VeiledResults]
    rw [hsame _ _ hanswer, doings_cons, doings_cons, doings_append, doings_append, hserved, hrest]
    exact ⟨⟨hresult, hend⟩, rfl⟩

/-! ## Tasks -/

/-- The moments of a task that runs. -/
theorem taskMoments_eq {status : Status} {task : τ} (hl : w.live? a = some agent)
    (hr : agent.running = false) (h : (Behavior.exec a agent.task).run nested c (w.startTask a) =
      ((status, task), v)) : taskMoments nested inner c a w =
        programMoments nested inner c (Behavior.exec a agent.task) (w.startTask a) ++
          [⟨c, .ends a status, v.endTask a task⟩] := by
  have hrun : w.runTask nested c a = (some status, v.endTask a task) := by rw [runTask_eq hl hr, h]
  simp only [taskMoments, hl, hrun]

section Tasks

variable (tasks : ∀ (a : AgentRef) (t : τ), (Behavior.exec a t : Prog τ α _).Discreet)

include tasks

theorem Veiled.runTask (ho : Oblivious gone nested inner) (c : ContextRef) (a : AgentRef)
    (h : Veiled gone w v) (hw : Steady gone w) (hv : Steady gone v) :
    VeiledResults gone (w.runTask nested c a) (v.runTask nested c a) ∧
      doings (taskMoments nested inner c a v) = doings (taskMoments nested inner c a w) := by
  cases hl : w.live? a with
  | none =>
    simp only [World.runTask, taskMoments, h.live? a, hl]
    exact ⟨⟨rfl, h⟩, trivial⟩
  | some agent =>
    have hl' : v.live? a = some agent := (h.live? a).trans hl
    cases hr : agent.running with
    | true =>
      simp only [World.runTask, taskMoments, hl, hl', hr, if_true]
      exact ⟨⟨rfl, h⟩, trivial⟩
    | false =>
      have hstart : Veiled gone (w.startTask a) (v.startTask a) := h.modifyAgent a _
      obtain ⟨⟨hresult, hafter⟩, hdoings⟩ := Veiled.run ho c _ (tasks a agent.task) hstart
        (hw.startTask hl) (hv.startTask hl')
      obtain ⟨⟨⟨status, task⟩, u⟩, hrun⟩ :
        ∃ x, (Behavior.exec a agent.task).run nested c (w.startTask a) = x := ⟨_, rfl⟩
      obtain ⟨⟨⟨status', task'⟩, u'⟩, hrun'⟩ :
        ∃ x, (Behavior.exec a agent.task).run nested c (v.startTask a) = x := ⟨_, rfl⟩
      rw [hrun, hrun'] at hresult hafter
      cases hresult
      rw [runTask_eq hl hr, runTask_eq hl' hr, taskMoments_eq hl hr hrun,
        taskMoments_eq hl' hr hrun', hrun, hrun', doings_append, doings_append, hdoings]
      exact ⟨⟨rfl, hafter.modifyAgent a _⟩, rfl⟩

theorem Veiled.visit (ho : Oblivious gone nested inner) (c : ContextRef) (a : AgentRef)
    (h : Veiled gone w v) (hw : Steady gone w) (hv : Steady gone v) :
    VeiledResults gone (w.visit nested c a) (v.visit nested c a) ∧
      doings (visitMoments nested inner c a v) = doings (visitMoments nested inner c a w) := by
  obtain ⟨⟨hstatus, hafter⟩, hdoings⟩ := Veiled.runTask tasks ho c a h hw hv
  refine ⟨?_, ?_⟩
  · unfold World.visit
    rw [h.alive]
    split
    · exact ⟨rfl, h⟩
    · generalize w.runTask nested c a = x at hstatus hafter
      generalize v.runTask nested c a = y at hstatus hafter
      obtain ⟨status, u⟩ := x
      obtain ⟨status', u'⟩ := y
      obtain rfl : status' = status := hstatus
      cases status' with
      | some status => exact ⟨rfl, hafter⟩
      | none =>
        have hid := hafter.context_map c (·.id) fun _ _ => rfl
        simp only [hid, hafter.agent? a]
        exact ⟨rfl, hafter.report _⟩
  · unfold visitMoments
    rw [h.live? a]
    cases w.live? a with
    | none => rfl
    | some agent =>
      simp only
      split
      · rfl
      · rw [doings_cons, doings_cons, hdoings]
        rfl

/-! ## Walks -/

/-- Two walks over the same agents. -/
theorem Veiled.walk (ho : Oblivious gone nested inner) (c : ContextRef) (l : List AgentRef)
    (h : Veiled gone w v) (hw : Steady gone w) (hv : Steady gone v) :
    VeiledResults gone (w.walk nested c l) (v.walk nested c l) ∧
      doings (walkMoments nested inner c l v) = doings (walkMoments nested inner c l w) := by
  induction l generalizing w v with
  | nil => exact ⟨⟨rfl, h⟩, rfl⟩
  | cons a l ih =>
    obtain ⟨⟨hvisit, hafter⟩, hdoings⟩ := Veiled.visit tasks ho c a h hw hv
    obtain ⟨⟨hrest, hend⟩, hmore⟩ := ih hafter (hw.visit ho.traced) (hv.visit ho.traced)
    refine ⟨⟨congrArg₂ List.cons hvisit hrest, hend⟩, ?_⟩
    simp only [walkMoments, doings_append, hdoings, hmore]

omit tasks in
/-- A walk passes by agents that are gone. -/
theorem Steady.walk_filter (ht : Traced nested inner) (hw : Steady gone w) (c d : ContextRef)
    (l : List AgentRef) :
    (w.walk nested c (l.filter fun a => !gone d a)).2 = (w.walk nested c l).2 ∧
      (w.walk nested c (l.filter fun a => !gone d a)).1.filter Visit.isFresh =
        (w.walk nested c l).1.filter Visit.isFresh ∧
      doings (walkMoments nested inner c (l.filter fun a => !gone d a) w) =
        doings (walkMoments nested inner c l w) := by
  induction l generalizing w with
  | nil => exact ⟨rfl, rfl, rfl⟩
  | cons a l ih =>
    cases ha : gone d a with
    | true =>
      have hdead : w.live? a = none := by
        rw [← Option.not_isSome_iff_eq_none]
        exact Bool.eq_false_iff.1 (hw.grounded.2 d a ha).1
      obtain ⟨hwalk, hmoments⟩ := walk_pass nested inner c l hdead
      obtain ⟨hend, hvisits, hdoings⟩ := ih hw
      have hfilter : ((a :: l).filter fun a => !gone d a) = l.filter fun a => !gone d a :=
        List.filter_cons_of_neg (by simp [ha])
      rw [hfilter, hwalk, hmoments]
      exact ⟨hend, hvisits, hdoings⟩
    | false =>
      obtain ⟨hend, hvisits, hdoings⟩ := ih (hw.visit (a := a) ht)
      have hfilter : ((a :: l).filter fun a => !gone d a) = a :: l.filter fun a => !gone d a :=
        List.filter_cons_of_pos (by simp [ha])
      rw [hfilter]
      refine ⟨hend, ?_, ?_⟩
      · simp only [World.walk, List.filter_cons, hvisits]
      · simp only [walkMoments, doings_append, hdoings]

/-! ## Ticks -/

/-- What becomes of a tick of a context with leftovers: the report is the same but for their
number, and nothing of them is left. -/
structure TickVeiled (gone : ContextRef → AgentRef → Bool) (d : ContextRef)
    (x y : TickReport × World τ α) : Prop where
  fresh : y.1.fresh = x.1.fresh
  /-- Without leftovers the reports are the same. -/
  same : (∀ a, gone d a = false) → y.1 = x.1
  veiled : Veiled gone x.2 y.2
  cleared : y.2.context? d = x.2.context? d

/-- The report of a tick, and the world when it is made. -/
def reported (visits : List Visit) (counts : Nat × Nat) (c : ContextRef) (id : ContextId)
    (w : World τ α) : TickReport × World τ α :=
  let report := tickReport visits counts c w
  (report, w.report
    (.tickComplete id report.frame report.executed report.added report.removed))

omit tasks in
theorem tickWith_reported {nested : Nested τ α} (hc : w.context? d = some ctx)
    (hx : ctx.executing = false) :
    w.tickWith nested d =
      let walked := (w.startWalk d).walk nested d ctx.registry.walkOrder
      let ended := walked.2.finishWalk d ctx.inUse
      reported walked.1 ended.1 d ctx.id ended.2 := by
  rw [tickWith_eq hc hx]
  generalize (w.startWalk d).walk nested d ctx.registry.walkOrder = walked
  rcases walked with ⟨visits, v⟩
  rcases v.finishWalk d ctx.inUse with ⟨counts, u⟩
  rfl

omit tasks [Behavior τ α] in
theorem Veiled.reported (h : Veiled gone w v) (hd : v.context? d = w.context? d)
    {visits visits' : List Visit} {counts counts' : Nat × Nat} (hcounts : counts' = counts)
    (hfresh : visits'.filter Visit.isFresh = visits.filter Visit.isFresh)
    (hsame : (∀ a, gone d a = false) → visits' = visits) (id : ContextId) :
    TickVeiled gone d (World.reported visits counts d id w)
      (World.reported visits' counts' d id v) := by
  subst hcounts
  have hfold : (visits'.foldl TickReport.visit {}).fresh =
      (visits.foldl TickReport.visit {}).fresh := by
    rw [TickReport.fresh_visits, TickReport.fresh_visits, hfresh]
  simp only [TickReport.fresh, TickReport.mk.injEq] at hfold
  obtain ⟨-, hexecuted, hsuccess, hfailure, hrunning, -⟩ := hfold
  refine ⟨?_, fun hd' => ?_, ?_, hd⟩
  · simp only [World.reported, tickReport, TickReport.fresh, hd, hexecuted, hsuccess, hfailure,
      hrunning]
  · simp only [World.reported, tickReport, hd, hsame hd']
  · simp only [World.reported, tickReport, hd, hexecuted]
    exact h.report _

theorem Veiled.tickWith (ho : Oblivious gone nested inner) (h : Veiled gone w v)
    (hw : Grounded gone w) (hv : Grounded gone v) (hi : w.Idle d)
    (hb : Busy gone (w.startWalk d)) :
    TickVeiled gone d (w.tickWith nested d) (v.tickWith nested d) ∧
      doings (tickMomentsWith nested inner d v) = doings (tickMomentsWith nested inner d w) := by
  rcases h.context d with ⟨hc, hc'⟩ | ⟨ctx, r, hc, hc', hs⟩
  · simp only [World.tickWith, tickMomentsWith, hc, hc']
    exact ⟨⟨rfl, fun _ => rfl, h, hc'.trans hc.symm⟩, trivial⟩
  have hx : ctx.executing = false := hi ctx hc
  have hstart : Veiled gone (w.startWalk d) (v.startWalk d) :=
    h.setRest d (fun _ _ => rfl) fun _ => rfl
  have hw₁ : Steady gone (w.startWalk d) := ⟨grounded_durable.startWalk hc hx hw, hb⟩
  have hv₁ : Steady gone (v.startWalk d) :=
    ⟨grounded_durable.startWalk hc' hx hv, hb.veiled hstart⟩
  -- both walks do what a walk over the agents that are not gone does
  obtain ⟨hend, hvisits, hdoings⟩ := hw₁.walk_filter ho.traced d d ctx.registry.walkOrder
  obtain ⟨hend', hvisits', hdoings'⟩ := hv₁.walk_filter ho.traced d d r.walkOrder
  rw [hs.filter_walkOrder] at hend' hvisits' hdoings'
  obtain ⟨⟨hsame, hwalked⟩, hmoments⟩ := Veiled.walk tasks ho d
    (ctx.registry.walkOrder.filter fun a => !gone d a) hstart hw₁ hv₁
  rw [hend, hend'] at hwalked
  have hfresh : (((v.startWalk d).walk nested d r.walkOrder).1.filter Visit.isFresh) =
      ((w.startWalk d).walk nested d ctx.registry.walkOrder).1.filter Visit.isFresh := by
    rw [← hvisits', ← hvisits, hsame]
  have hw₂ : Steady gone ((w.startWalk d).walk nested d ctx.registry.walkOrder).2 :=
    hw₁.happens (walk_happens ho.traced _)
  have hv₂ : Steady gone ((v.startWalk d).walk nested d r.walkOrder).2 :=
    hv₁.happens (walk_happens ho.traced _)
  obtain ⟨⟨hcounts, hfinished⟩, hcleared⟩ :=
    hwalked.finishWalk hw₂.grounded hv₂.grounded d ctx.inUse
  have hexact (hd : ∀ a, gone d a = false) : ((v.startWalk d).walk nested d r.walkOrder).1 =
      ((w.startWalk d).walk nested d ctx.registry.walkOrder).1 := by
    have hwhole : (ctx.registry.walkOrder.filter fun a => !gone d a) = ctx.registry.walkOrder :=
      List.filter_eq_self.2 fun a _ => by rw [hd a]; rfl
    have hwhole' : (ctx.registry.walkOrder.filter fun a => !gone d a) = r.walkOrder :=
      hs.filter_walkOrder.symm.trans (List.filter_eq_self.2 fun a _ => by rw [hd a]; rfl)
    have hv := hsame
    rw [hwhole] at hv
    rw [← hwhole', hwhole, hv]
  refine ⟨?_, ?_⟩
  · rw [tickWith_reported hc hx, tickWith_reported hc' hx]
    exact hfinished.reported hcleared hcounts hfresh hexact ctx.id
  · simp only [tickMomentsWith, hc, hc', Context.seated_executing, hx, Bool.false_eq_true, if_false,
      Context.seated_registry]
    rw [← hdoings', ← hdoings, hmoments]

theorem oblivious_nested (n : Nat) :
    Oblivious gone (World.nested n : Nested τ α) (nestedMoments n) := by
  induction n with
  | zero =>
    refine ⟨traced_nested 0, fun _ _ h _ _ => ⟨⟨rfl, h⟩, rfl⟩, fun d h _ _ => ⟨⟨?_, h⟩, rfl⟩⟩
    simp only [World.nested, h.context_map d (·.clock.frames) fun _ _ => rfl]
  | succ n ih =>
    refine ⟨traced_nested (n + 1), fun c a h hw hv => Veiled.runTask tasks ih c a h hw hv,
      fun {w v} d h hw hv => ?_⟩
    show VeiledResults gone (w.tickWith (World.nested n) d) (v.tickWith (World.nested n) d) ∧
      doings (tickMomentsWith (World.nested n) (nestedMoments n) d v) =
        doings (tickMomentsWith (World.nested n) (nestedMoments n) d w)
    rcases h.context d with ⟨hc, hc'⟩ | ⟨ctx, r, hc, hc', -⟩
    · simp only [World.tickWith, tickMomentsWith, hc, hc']
      exact ⟨⟨rfl, h⟩, trivial⟩
    · cases hx : ctx.executing with
      | true =>
        simp only [World.tickWith, tickMomentsWith, hc, hc', Context.seated_executing, hx, if_true]
        exact ⟨⟨rfl, h.report _⟩, trivial⟩
      | false =>
        obtain ⟨htick, hdoings⟩ := Veiled.tickWith tasks ih h hw.grounded hv.grounded
          (idle_of hc hx)
          (busy_startWalk fun d' a ctx' _ ha hc' => hw.busy d' a ctx' ha hc')
        exact ⟨⟨htick.same (hw.busy.clear hc (.inl hx)), htick.veiled⟩, hdoings⟩

end Tasks

end World

end AgentScheduler
