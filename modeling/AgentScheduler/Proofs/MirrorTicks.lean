/-
Ticks and deeds in worlds that mirror each other. Tasks that look at the
application's state only where the two agree, and receivers that do the same to
both, leave them mirroring each other, whatever the tasks do: log, save, load, or
run other tasks and ticks (`tick_mirrors`, `perform_mirrors`).

A receiver has to do the same only for records of frames below 2 to the power of
63, as long as no clock gets that far (`World.Timely`).
-/
import AgentScheduler.Proofs.Invariance
import AgentScheduler.Proofs.Mirrors
import AgentScheduler.Proofs.StaticSteps

namespace AgentScheduler

variable {τ α β : Type}

/-! ## Tasks and receivers -/

/-- The frame of a record. -/
def Record.frame : Record → UInt64
  | .statics _ frame _ _ | .state _ frame _ _ _ _ => frame

/-- Answers the same in both hosts, to records of such frames, and leaves them mirroring each
other. -/
def Sink.Mirrors (R : α → α → Prop) (sink : Sink α) : Prop :=
  ∀ r h g, r.frame.toNat < 0x8000000000000000 → h.Mirrors R g →
    (sink r g).1 = (sink r h).1 ∧ (sink r h).2.Mirrors R (sink r g).2

theorem Sink.Mirrors.parts {R : α → α → Prop} {sink : Sink α} (hs : sink.Mirrors R) {r : Record}
    {h g : Host α} (hframe : r.frame.toNat < 0x8000000000000000) (hhost : h.Mirrors R g) :
    ∃ answer h' g', sink r h = (answer, h') ∧ sink r g = (answer, g') ∧ h'.Mirrors R g' :=
  have hsent := hs r h g hframe hhost
  ⟨(sink r h).1, (sink r h).2, (sink r g).2, rfl, Prod.ext hsent.1 rfl, hsent.2⟩

/-- Hands records to such receivers only. -/
def ContextOp.Mirrors (R : α → α → Prop) : ContextOp α → Prop
  | .logStatics _ sink | .logState sink => sink.Mirrors R
  | _ => True

/-- Keeps the states of the application related. -/
def Request.Mirrors (R : α → α → Prop) : Request τ α → Prop
  | .here op | .there _ op => op.Mirrors R
  | .setApp f => ∀ x y, R x y → R (f x) (f y)
  | _ => True

/-- The same answer, or related ones if the state of the application is asked for. -/
def Request.SameAnswers (R : α → α → Prop) : (r : Request τ α) → r.Answer → r.Answer → Prop
  | .app => R
  | _ => fun x y => y = x

/-- Puts such requests, and goes on in the same way after answers that differ in the state of the
application only. -/
def Prog.Mirrors (R : α → α → Prop) : Prog τ α β → Prop
  | done _ => True
  | call r k => r.Mirrors R ∧ (∀ x y, r.SameAnswers R x y → k y = k x) ∧ ∀ x, (k x).Mirrors R

/-- Hands records to such receivers only, or keeps hosts that mirror each other that way. -/
def Deed.Mirrors (R : α → α → Prop) : Deed τ α → Prop
  | .on _ op => op.Mirrors R
  | .host f => ∀ h g, h.Mirrors R g → (f h).Mirrors R (f g)
  | _ => True

/-- No clock has got to 2 to the power of 63. -/
def World.Timely (w : World τ α) : Prop :=
  ∀ c ctx, w.context? c = some ctx → ctx.clock.frames.toNat < 0x8000000000000000

namespace World

theorem timely_iff {w : World τ α} : w.Timely ↔
    ∀ o ∈ w.contexts, ∀ ctx ∈ o, ctx.clock.frames.toNat < 0x8000000000000000 := by
  refine ⟨fun h o ho ctx hctx => ?_, fun h c ctx hc => ?_⟩
  · obtain ⟨i, hi⟩ := Array.mem_iff_getElem?.1 ho
    exact h ⟨i⟩ ctx (by rw [context?, hi]; exact hctx)
  · obtain ⟨o, ho, hctx⟩ := Option.bind_eq_some_iff.1 hc
    exact h o (Array.mem_of_getElem? ho) ctx hctx

instance (w : World τ α) : Decidable w.Timely := decidable_of_iff _ timely_iff.symm

variable {R : α → α → Prop} {w v : World τ α} {c : ContextRef} {a : AgentRef} {sink : Sink α}

/-! ## Logs -/

theorem logClasses_mirrors (hs : sink.Mirrors R) (context : ContextId) {frame : UInt64}
    (hframe : frame.toNat < 0x8000000000000000) (l : List String) (n : Nat) (s : Statics)
    {h g : Host α} (hhost : h.Mirrors R g) :
    let x := Statics.logClasses context frame sink l n s h
    let y := Statics.logClasses context frame sink l n s g
    y.1 = x.1 ∧ y.2.1 = x.2.1 ∧ x.2.2.Mirrors R y.2.2 := by
  induction l generalizing n s h g with
  | nil => exact ⟨rfl, rfl, hhost⟩
  | cons cls l ih =>
    unfold Statics.logClasses
    cases s.pendingChanges cls with
    | nil => exact ih n s hhost
    | cons change changes =>
      obtain ⟨answer, h', g', hh, hg, hhost'⟩ :=
        hs.parts (r := .statics context frame cls (change :: changes)) hframe hhost
      simp only [hh, hg]
      cases answer with
      | error e => exact ⟨rfl, rfl, hhost'⟩
      | ok => exact ih _ _ hhost'

theorem log_mirrors (hs : sink.Mirrors R) (context : ContextId) {frame : UInt64}
    (hframe : frame.toNat < 0x8000000000000000) (s : Statics) (cls : Option String)
    {h g : Host α} (hhost : h.Mirrors R g) :
    let x := s.log context frame cls sink h
    let y := s.log context frame cls sink g
    y.1 = x.1 ∧ y.2.1 = x.2.1 ∧ x.2.2.Mirrors R y.2.2 :=
  logClasses_mirrors hs context hframe _ 0 s hhost

theorem logStatics_mirrors (hs : sink.Mirrors R) (cls : Option String) (ht : w.Timely)
    (h : w.Mirrors R v) :
    MirrorsResult R (w.logStatics c cls sink) (v.logStatics c cls sink) := by
  unfold logStatics
  rw [h.context? c]
  cases hc : w.context? c with
  | none => exact ⟨rfl, h⟩
  | some ctx =>
    simp only
    split
    · exact ⟨rfl, h⟩
    · obtain ⟨hresult, hstatics, hhost⟩ :=
        log_mirrors hs ctx.id (ht c ctx hc) ctx.statics cls h.host
      refine ⟨congrArg (Except.mapError ContextError.log) hresult, ?_⟩
      simp only [hstatics]
      exact (h.modifyContext c _).changeHost hhost

theorem logAgents_mirrors [Behavior τ α] (hs : sink.Mirrors R) {ctx : Context}
    (hframe : ctx.clock.frames.toNat < 0x8000000000000000) (l : List AgentRef) (n : Nat)
    (h : w.Mirrors R v) :
    MirrorsResult R (logAgents ctx sink l n w) (logAgents ctx sink l n v) := by
  induction l generalizing n w v with
  | nil => exact ⟨rfl, h⟩
  | cons a l ih =>
    unfold logAgents
    rw [h.live? a]
    cases w.live? a with
    | none => exact ih n h
    | some agent =>
      have hdescribe : v.describeTask a = w.describeTask a := by
        rw [describeTask, describeTask, h.live? a]
      obtain ⟨answer, h', g', hh, hg, hhost⟩ := hs.parts (r := .state ctx.id ctx.clock.frames
        agent.place.id agent.cls agent.name (w.describeTask a)) hframe h.host
      simp only [hdescribe, hh, hg]
      cases answer with
      | error e => exact ⟨rfl, h.changeHost hhost⟩
      | ok => exact ih _ (h.changeHost hhost)

theorem logState_mirrors [Behavior τ α] (hs : sink.Mirrors R) (ht : w.Timely)
    (h : w.Mirrors R v) : MirrorsResult R (w.logState c sink) (v.logState c sink) := by
  unfold logState
  rw [h.context? c]
  cases hc : w.context? c with
  | none => exact ⟨rfl, h⟩
  | some ctx =>
    have hhandles : v.handles ctx.registry = w.handles ctx.registry := by
      rw [handles, handles, h.alive]
    have hcontexts := logAgents_contexts ctx sink (w.handles ctx.registry) 0 (w := w)
    obtain ⟨result, w', v', hw, hv, h'⟩ :=
      (logAgents_mirrors hs (ht c ctx hc) (w.handles ctx.registry) 0 h).parts
    rw [hw] at hcontexts
    simp only [hhandles, hw, hv]
    cases result with
    | error e => exact ⟨rfl, h'⟩
    | ok n =>
      have ht' : w'.Timely := fun c ctx hc => ht c ctx (by rw [context?, ← hcontexts]; exact hc)
      obtain ⟨result, w'', v'', hw', hv', h''⟩ :=
        (logStatics_mirrors (c := c) hs none ht' h').parts
      simp only [hw', hv']
      cases result <;> exact ⟨rfl, h''⟩

/-! ## Requests -/

section Requests

variable [Behavior τ α] {nested : Nested τ α} {inner : NestedMoments τ α}

/-- Requests that run tasks do the same in both worlds, as long as no clock gets too far. -/
structure NestedMirrors (R : α → α → Prop) (nested : Nested τ α) (inner : NestedMoments τ α) :
    Prop where
  exec : ∀ {w v : World τ α} (c a), w.Mirrors R v → (∀ m ∈ inner.exec c a w, m.world.Timely) →
    MirrorsResult R (nested.exec c a w) (nested.exec c a v)
  tick : ∀ {w v : World τ α} (c), w.Mirrors R v → (∀ m ∈ inner.tick c w, m.world.Timely) →
    MirrorsResult R (nested.tick c w) (nested.tick c v)

theorem answerContextOp_mirrors (hn : NestedMirrors R nested inner) {op : ContextOp α}
    (hop : op.Mirrors R) (ht : w.Timely)
    (htick : op = .tick → ∀ m ∈ inner.tick c w, m.world.Timely) (h : w.Mirrors R v) :
    MirrorsResult R (w.answerContextOp nested c op) (v.answerContextOp nested c op) := by
  cases op with
  | task op => exact h.result _ fun w b => answerTaskOp_withApp w b c op
  | counts => exact h.result _ fun w b => rfl
  | tick => exact hn.tick c h (htick rfl)
  | save => exact h.result (·.save c) fun w b => save_withApp w b c
  | load s => exact h.result (·.load c s) fun w b => load_withApp w b c s
  | release => exact h.result _ fun w b => congrArg (Prod.mk ()) (release_withApp w b c)
  | logStatics cls sink => exact logStatics_mirrors hop cls ht h
  | logState sink => exact logState_mirrors hop ht h
  | clearBindings => exact h.result _ fun w b => rfl
  | clearBaselines => exact h.result _ fun w b => rfl
  | setClock f => exact h.result _ fun w b => rfl

/-- Such a request is answered in the same way. -/
theorem answer_mirrors (hn : NestedMirrors R nested inner) {r : Request τ α} (hr : r.Mirrors R)
    (ht : w.Timely) (hm : ∀ m ∈ requestMoments inner c w r, m.world.Timely) (h : w.Mirrors R v) :
    r.SameAnswers R (w.answer nested c r).1 (v.answer nested c r).1 ∧
      (w.answer nested c r).2.Mirrors R (v.answer nested c r).2 := by
  cases r with
  | here op =>
    refine answerContextOp_mirrors hn hr ht (fun hop => ?_) h
    subst hop
    exact hm
  | there other op =>
    simp only [answer, h.context? other]
    cases hc : w.context? other with
    | none => exact ⟨rfl, h⟩
    | some ctx =>
      -- a request to a context that is in use is refused before anything happens
      by_cases hu : ctx.inUse = true
      · simp only [hu, if_true]
        exact ⟨rfl, h⟩
      · obtain ⟨hanswer, hafter⟩ := answerContextOp_mirrors (c := other) hn hr ht (fun hop => by
          subst hop
          simpa only [requestMoments, hc, hu, Bool.false_eq_true, if_false] using hm) h
        simp only [hu, Bool.false_eq_true, if_false]
        exact ⟨congrArg some hanswer, hafter⟩
  | dropContext other =>
    simp only [answer, h.context? other]
    cases w.context? other with
    | none => exact ⟨rfl, h⟩
    | some ctx =>
      simp only
      split
      · exact ⟨rfl, h⟩
      · exact ⟨rfl, h.change (·.dropContext other) fun w b => dropContext_withApp w b other⟩
  | create g => exact h.result _ fun w b => rfl
  | disown a => exact h.result _ fun w b => rfl
  | view a => exact h.result _ fun w b => rfl
  | exec a => exact hn.exec c a h hm
  | saveTask a => exact h.result _ fun w b => rfl
  | loadTask a state => exact h.result (·.loadTask a state) fun w b => loadTask_withApp w b a state
  | describeTask a => exact h.result _ fun w b => rfl
  | app => exact ⟨h.host.app, h⟩
  | setApp f => exact ⟨rfl, h.changeHost ⟨h.host.events, hr _ _ h.host.app⟩⟩
  | report e => exact h.result _ fun w b => rfl

/-- So a program of such requests has the same result. -/
theorem run_mirrors (hn : NestedMirrors R nested inner) (p : Prog τ α β) (hp : p.Mirrors R)
    (hm : ∀ m ∈ programMoments nested inner c p w, m.world.Timely) (h : w.Mirrors R v) :
    MirrorsResult R (p.run nested c w) (p.run nested c v) := by
  induction p generalizing w v with
  | done b => exact ⟨rfl, h⟩
  | call r k ih =>
    obtain ⟨hr, hsame, hk⟩ := hp
    simp only [programMoments, List.forall_mem_cons, List.forall_mem_append] at hm
    obtain ⟨ht, hrequest, hrest⟩ := hm
    obtain ⟨hanswer, hafter⟩ := answer_mirrors hn hr ht hrequest h
    -- the answers need not be the same, but what is done with them is
    simp only [Prog.run]
    rw [hsame _ _ hanswer]
    exact ih _ (hk _) hrest hafter

/-! ## Tasks and ticks -/

variable (tasks : ∀ (a : AgentRef) (t : τ), (Behavior.exec a t : Prog τ α _).Mirrors R)

include tasks

theorem runTask_mirrors (hn : NestedMirrors R nested inner)
    (hm : ∀ m ∈ taskMoments nested inner c a w, m.world.Timely) (h : w.Mirrors R v) :
    MirrorsResult R (w.runTask nested c a) (v.runTask nested c a) := by
  cases hl : w.live? a with
  | none =>
    simp only [runTask, h.live? a, hl]
    exact ⟨rfl, h⟩
  | some agent =>
    have hl' : v.live? a = some agent := (h.live? a).trans hl
    cases hr : agent.running with
    | true =>
      simp only [runTask, hl, hl', hr, if_true]
      exact ⟨rfl, h⟩
    | false =>
      rw [taskMoments, hl, runTask_eq hl hr] at hm
      have hprogram := (List.forall_mem_append.1 hm).1
      obtain ⟨⟨status, task⟩, u, u', hu, hu', hafter⟩ := (run_mirrors hn _ (tasks a agent.task)
        hprogram (h.change (startTask a) fun w b => rfl)).parts
      rw [runTask_eq hl hr, runTask_eq hl' hr, hu, hu']
      exact ⟨rfl, hafter.change (endTask a task) fun w b => rfl⟩

theorem visit_mirrors (hn : NestedMirrors R nested inner)
    (hm : ∀ m ∈ visitMoments nested inner c a w, m.world.Timely) (h : w.Mirrors R v) :
    MirrorsResult R (w.visit nested c a) (v.visit nested c a) := by
  unfold visit
  rw [h.alive]
  cases hl : w.live? a with
  | none =>
    have hgone : w.alive a = false := by rw [alive, hl]; rfl
    simp only [hgone, Bool.not_false, if_true]
    exact ⟨rfl, h⟩
  | some agent =>
    have htask : MirrorsResult R (w.runTask nested c a) (v.runTask nested c a) := by
      cases hr : agent.running with
      | true =>
        simp only [runTask, h.live? a, hl, hr, if_true]
        exact ⟨rfl, h⟩
      | false =>
        simp only [visitMoments, hl, hr, Bool.false_eq_true, if_false] at hm
        exact runTask_mirrors tasks hn (List.forall_mem_cons.1 hm).2 h
    obtain ⟨status, u, u', hu, hu', hafter⟩ := htask.parts
    simp only [alive_of_live? hl, Bool.not_true, Bool.false_eq_true, if_false, hu, hu']
    cases status with
    | some status => exact ⟨rfl, hafter⟩
    | none =>
      exact hafter.result (fun w => (Visit.busy, w.report (.taskBusy
        (((w.context? c).map (·.id)).getD .invalid)
        (((w.agent? a).map (·.place.id)).getD .invalid)))) fun w b => rfl

theorem walk_mirrors (hn : NestedMirrors R nested inner) (l : List AgentRef)
    (hm : ∀ m ∈ walkMoments nested inner c l w, m.world.Timely) (h : w.Mirrors R v) :
    MirrorsResult R (w.walk nested c l) (v.walk nested c l) := by
  induction l generalizing w v with
  | nil => exact ⟨rfl, h⟩
  | cons a l ih =>
    obtain ⟨hm, hrest⟩ := List.forall_mem_append.1 hm
    obtain ⟨hvisit, hafter⟩ := visit_mirrors tasks hn hm h
    obtain ⟨hvisits, hend⟩ := ih hrest hafter
    exact ⟨congrArg₂ List.cons hvisit hvisits, hend⟩

/-- A tick does the same in both worlds. -/
theorem tickWith_mirrors (hn : NestedMirrors R nested inner)
    (hm : ∀ m ∈ tickMomentsWith nested inner c w, m.world.Timely) (h : w.Mirrors R v) :
    MirrorsResult R (w.tickWith nested c) (v.tickWith nested c) := by
  cases hc : w.context? c with
  | none =>
    simp only [tickWith, h.context? c, hc]
    exact ⟨rfl, h⟩
  | some ctx =>
    have hc' : v.context? c = some ctx := (h.context? c).trans hc
    cases hx : ctx.executing with
    | true =>
      simp only [tickWith, hc, hc', hx, if_true]
      exact ⟨rfl, h.report _⟩
    | false =>
      simp only [tickMomentsWith, hc, hx, Bool.false_eq_true, if_false] at hm
      obtain ⟨hvisits, hend⟩ := walk_mirrors tasks hn _ hm
        (h.change (startWalk c) fun w b => rfl)
      obtain ⟨hcounts, hfinished⟩ := hend.result (·.finishWalk c ctx.inUse)
        fun w b => finishWalk_withApp w b c ctx.inUse
      have hreport (visits : List Visit) (counts : Nat × Nat) {w v : World τ α}
          (h : w.Mirrors R v) : tickReport visits counts c v = tickReport visits counts c w := by
        rw [tickReport, tickReport, h.context? c]
      rw [tickWith_eq hc hx, tickWith_eq hc' hx]
      simp only [hvisits, hcounts, hreport _ _ hfinished]
      exact ⟨rfl, hfinished.report _⟩

/-- So requests that run tasks do, however deep. -/
theorem nestedMirrors (n : Nat) :
    NestedMirrors R (World.nested n : Nested τ α) (nestedMoments n) := by
  induction n with
  | zero => exact ⟨fun c a h _ => ⟨rfl, h⟩, fun c h _ => h.result _ fun w b => rfl⟩
  | succ n ih =>
    exact ⟨fun c a h hm => runTask_mirrors tasks ih hm h,
      fun c h hm => tickWith_mirrors tasks ih hm h⟩

theorem tick_mirrors (hm : ∀ m ∈ w.tickMoments nestingLimit c, m.world.Timely)
    (h : w.Mirrors R v) : MirrorsResult R (w.tick c) (v.tick c) :=
  tickWith_mirrors tasks (nestedMirrors tasks nestingLimit) hm h

/-- So does a deed. -/
theorem perform_mirrors {d : Deed τ α} (hd : d.Mirrors R) (ht : w.Timely)
    (hm : ∀ m ∈ w.deedMoments d, m.world.Timely) (h : w.Mirrors R v) :
    (w.perform d).Mirrors R (v.perform d) := by
  cases d with
  | create g => exact h.change (·.perform (.create g)) fun w b => rfl
  | disown a => exact h.change (·.disown a) fun w b => rfl
  | loadTask a state =>
    exact (h.result (·.loadTask a state) fun w b => loadTask_withApp w b a state).2
  | newContext id types stepMillis =>
    exact h.change (·.perform (.newContext id types stepMillis)) fun w b => rfl
  | dropContext c => exact h.change (·.dropContext c) fun w b => dropContext_withApp w b c
  | setCreated c created => exact h.modifyContext c _
  | on c op =>
    refine (answerContextOp_mirrors (nestedMirrors tasks (nestingLimit + 1)) hd ht ?_ h).2
    intro hop
    subst hop
    exact hm
  | exec c a =>
    simp only [perform, exec, h.context? c]
    simp only [deedMoments] at hm
    cases hc : w.context? c with
    | none => exact h
    | some ctx =>
      rw [hc] at hm
      exact (runTask_mirrors tasks (nestedMirrors tasks nestingLimit) hm
        (h.modifyContext c _)).2.modifyContext c _
  | host f => exact h.changeHost (hd _ _ h.host)

end Requests

end World

end AgentScheduler
