/-
No static change is lost and none is reported twice. `hearings` lists every
point of a run with what a receiver of one context's static variables is told
there; `Heard` says that each entry is one step of those variables. A receiver
that follows what it is told then holds the baselines at every point
(`statics_reported`).
-/
import AgentScheduler.Proofs.StaticSteps
import AgentScheduler.Proofs.WorkspaceRuns

namespace AgentScheduler

/-- A point of a run, and what a receiver is told before the next one. -/
structure Hearing (τ α : Type) where
  world : World τ α
  told : List Told

namespace World

variable {τ α : Type} {w v u : World τ α} {c c' : ContextRef} {a : AgentRef} {told : List Told}

/-! ## One context along a run -/

/-- From one world to another, one step is made of the static variables of a context. A context
that was not there is new, and one that goes does not come back. -/
structure Follows (c : ContextRef) (told : List Told) (w v : World τ α) : Prop where
  size : w.contexts.size ≤ v.contexts.size
  absent : w.context? c = none → told = [] ∧ ∀ ctx, v.context? c = some ctx →
    w.contexts.size ≤ c.index ∧ ctx.statics = .seeded ctx.types
  present : ∀ ctx, w.context? c = some ctx → told = [] ∧ v.context? c = none ∨
    ∃ ctx', v.context? c = some ctx' ∧ ctx'.types = ctx.types ∧
      Statics.Step ctx.types ctx.statics told ctx'.statics

/-- Contexts are the same if their declarations and static variables are. -/
theorem Follows.of_valuation (f : Statics → Statics) (hsize : v.contexts.size = w.contexts.size)
    (hv : (v.context? c).map Context.valuation =
      (w.context? c).map fun ctx => (ctx.types, f ctx.statics))
    (habsent : w.context? c = none → told = [])
    (h : ∀ ctx, w.context? c = some ctx → Statics.Step ctx.types ctx.statics told (f ctx.statics)) :
    Follows c told w v where
  size := Nat.le_of_eq hsize.symm
  absent hn := by
    rw [hn, Option.map_none, Option.map_eq_none_iff] at hv
    exact ⟨habsent hn, fun ctx hx => by rw [hv] at hx; cases hx⟩
  present ctx hc := by
    rw [hc, Option.map_some, Option.map_eq_some_iff] at hv
    obtain ⟨ctx', hc', heq⟩ := hv
    obtain ⟨ht, hs⟩ := Prod.mk.inj heq
    exact .inr ⟨ctx', hc', ht, hs ▸ h ctx hc⟩

theorem Turns.follows (h : Turns c told w v) (c' : ContextRef) :
    Follows c' (if c' = c then told else []) w v := by
  obtain ⟨f, hf, hstep⟩ := h.turned
  have hsize : v.contexts.size = w.contexts.size := by
    simpa only [valuation, Array.size_map, Array.size_modify] using congrArg Array.size hf
  have hget : (v.context? c').map Context.valuation =
      (w.valuation.modify c.index (·.map fun x => (x.1, f x.2)))[c'.index]?.join := by
    rw [context?_valuation, hf]
  rw [Array.getElem?_modify] at hget
  by_cases hc : c' = c
  · subst hc
    rw [if_pos rfl] at hget ⊢
    refine .of_valuation f hsize (hget.trans ?_) h.absent hstep
    have hw := context?_valuation w c'
    cases hx : w.valuation[c'.index]? with
    | none =>
      rw [hx, Option.join_none, Option.map_eq_none_iff] at hw
      rw [hw]
      rfl
    | some x =>
      rw [hx, Option.join_some] at hw
      rw [Option.map_some, Option.join_some, ← hw, Option.map_map]
      rfl
  · have hne : c.index ≠ c'.index := fun he => hc (by cases c; cases c'; cases he; rfl)
    rw [if_neg hne, ← context?_valuation] at hget
    rw [if_neg hc]
    exact .of_valuation id hsize hget (fun _ => rfl) fun _ _ => .rest

/-- What shows of static variables stays. -/
theorem Follows.silent (h : v.valuation = w.valuation) : Follows c [] w v := by
  have hturn := (Turns.silent (c := c) h).follows c
  rw [if_pos rfl] at hturn
  exact hturn

theorem dropContext_follows : Follows c [] w (w.dropContext c') := by
  have hvars : (w.dropContext c').valuation = w.valuation.modify c'.index fun _ => none := by
    rw [← valuation_clearRegistry (w := w) (c := c')]
    exact valuation_modify (fun _ => none) _ (fun _ => rfl) c'
  have hsize : (w.dropContext c').contexts.size = w.contexts.size := by
    simpa only [valuation, Array.size_map, Array.size_modify] using congrArg Array.size hvars
  have hget : ((w.dropContext c').context? c).map Context.valuation =
      (w.valuation.modify c'.index fun _ => none)[c.index]?.join := by
    rw [context?_valuation, hvars]
  rw [Array.getElem?_modify] at hget
  by_cases hi : c'.index = c.index
  · have hgone : (w.dropContext c').context? c = none := by
      rw [if_pos hi] at hget
      cases hx : w.valuation[c.index]? <;> rw [hx] at hget <;> simpa using hget
    exact ⟨Nat.le_of_eq hsize.symm, fun _ => ⟨rfl, fun ctx hc => by rw [hgone] at hc; cases hc⟩,
      fun _ _ => .inl ⟨rfl, hgone⟩⟩
  · rw [if_neg hi, ← context?_valuation] at hget
    exact .of_valuation id hsize hget (fun _ => rfl) fun _ _ => .rest

theorem newContext_follows (id : ContextId) (types : Hierarchy) (stepMillis : UInt32) :
    Follows c [] w (w.addContext (.new id types stepMillis)).2 where
  size := by simp [addContext]
  absent hn := by
    refine ⟨rfl, fun ctx hc => ?_⟩
    rw [context?_addContext] at hc
    split at hc
    · next hi => cases hc; exact ⟨Nat.le_of_eq hi.symm, rfl⟩
    · rw [hn] at hc; cases hc
  present ctx hc := by
    refine .inr ⟨ctx, ?_, rfl, .rest⟩
    rw [context?_addContext, if_neg, hc]
    intro hi
    rw [context?_eq_none_of_size (Nat.le_of_eq hi.symm)] at hc
    cases hc

/-! ## Steps along a run -/

/-- The points of a part of a run, what is told at each of them, and one step from each to what
comes next. -/
inductive Heard (c : ContextRef) : World τ α → List (Hearing τ α) → World τ α → Prop
  /-- Nothing is left. -/
  | nil {w : World τ α} : Heard c w [] w
  /-- Something happens that no point is made of. -/
  | quiet {w v u : World τ α} {T : List (Hearing τ α)} (h : Follows c [] w v)
      (h' : Heard c v T u) : Heard c w T u
  /-- A point, and what happens at it. -/
  | point {w v u : World τ α} {told : List Told} {T : List (Hearing τ α)} (h : Follows c told w v)
      (h' : Heard c v T u) : Heard c w (⟨w, told⟩ :: T) u

theorem Heard.append {T T' : List (Hearing τ α)} (h : Heard c w T v) (h' : Heard c v T' u) :
    Heard c w (T ++ T') u := by
  induction h with
  | nil => exact h'
  | quiet h _ ih => exact .quiet h (ih h')
  | point h _ ih => exact .point h (ih h')

theorem Heard.stay : Heard c w [⟨w, []⟩] w := .point (.silent rfl) .nil

/-- What happens at the end that no point is made of. -/
theorem Heard.rest {T : List (Hearing τ α)} (h : Heard c w T v) (hu : u.valuation = v.valuation) :
    Heard c w T u := by
  have := h.append (.quiet (.silent hu) .nil)
  rw [List.append_nil] at this
  exact this

section Behavior

variable [Behavior τ α]

/-! ## What a receiver is told -/

/-- What a receiver of a context's static variables is told at a moment. -/
def tellsMoment (c : ContextRef) (m : Moment τ α) : List Told :=
  match m.what with
  | .asks (.here op) => if c = m.context then m.world.tellsOp m.context op else []
  | .asks (.there other op) =>
    if (m.world.context? other).any (!·.inUse) then
      if c = other then m.world.tellsOp other op else []
    else []
  | _ => []

/-- What a receiver of a context's static variables is told of a deed. -/
def tellsDeed (c : ContextRef) (w : World τ α) : Deed τ α → List Told
  | .on other op => if c = other then w.tellsOp other op else []
  | _ => []

/-- Every point of a run, with what a receiver of a context's static variables is told there. -/
def hearings (c : ContextRef) : List (Deed τ α) → World τ α → List (Hearing τ α)
  | [], w => [⟨w, []⟩]
  | d :: ds, w => ⟨w, tellsDeed c w d⟩ ::
      ((w.deedMoments d).map (fun m => ⟨m.world, tellsMoment c m⟩) ++ hearings c ds (w.perform d))

theorem hearings_points (c : ContextRef) (ds : List (Deed τ α)) (w : World τ α) :
    (hearings c ds w).map (·.world) = points ds w := by
  induction ds generalizing w with
  | nil => rfl
  | cons d ds ih =>
    rw [hearings, points, List.map_cons, List.map_append, List.map_map, ih]
    rfl

theorem answer_follows (nested : Nested τ α) {r : Request τ α} (hp : r.phase? c' = none) :
    Follows c (tellsMoment c ⟨c', .asks r, w⟩) w (w.answer nested c' r).2 := by
  cases r with
  | here op =>
    exact (answerContextOp_turns nested op fun he => by rw [he] at hp; cases hp).follows c
  | there other op =>
    have hne : op ≠ .tick := fun he => by rw [he] at hp; cases hp
    simp only [tellsMoment, answer]
    cases hc : w.context? other with
    | none => exact .silent rfl
    | some ctx =>
      cases hu : ctx.inUse with
      | true => simp only [hu, Option.any_some, Bool.not_true, if_true]; exact .silent rfl
      | false =>
        simp only [hu, Option.any_some, Bool.not_false, Bool.false_eq_true, if_true, if_false]
        exact (answerContextOp_turns nested op hne).follows c
  | dropContext other =>
    simp only [tellsMoment, answer]
    split
    · exact .silent rfl
    · split
      · exact .silent rfl
      · exact dropContext_follows
  | create g => exact .silent rfl
  | disown b => exact .silent rfl
  | view b => exact .silent rfl
  | exec b => cases hp
  | saveTask b => exact .silent rfl
  | loadTask b state => exact .silent (valuation_loadTask state)
  | describeTask b => exact .silent rfl
  | app => exact .silent rfl
  | setApp f => exact .silent rfl
  | report e => exact .silent rfl

/-- At a request that runs tasks nothing is told; it is told at the moments of the tasks. -/
theorem tellsMoment_of_phase {r : Request τ α} {p : Phase} (hp : r.phase? c' = some p) :
    tellsMoment c ⟨c', .asks r, w⟩ = [] := by
  unfold Request.phase? at hp
  split at hp
  · simp [tellsMoment, tellsOp]
  · simp [tellsMoment, tellsOp]
  · rfl
  · cases hp

theorem happens_heard {p : Phase} {T : List (Moment τ α)} (h : Happens p w T v) :
    Heard c w (T.map fun m => ⟨m.world, tellsMoment c m⟩) v := by
  induction h with
  | done | noExec | finish | noTick => exact .nil
  | refuse e => exact Heard.nil.rest (valuation_report e)
  | serve nested hp _ ih => exact .point (answer_follows nested hp) ih
  | @call c' r p w v u T T' hp _ _ ih ih' =>
    rw [List.map_cons, List.map_append, tellsMoment_of_phase hp]
    exact .point (.silent rfl) (ih.append ih')
  | exec _ _ _ ih =>
    rw [List.map_append]
    exact .quiet (.silent (valuation_modifyAgent _))
      (ih.append (.quiet (.silent (valuation_modifyAgent _)) .stay))
  | pass _ _ ih => exact .point (.silent rfl) ih
  | skip _ _ e _ ih => exact .point (.silent rfl) (.quiet (.silent (valuation_report e)) ih)
  | visit _ _ _ _ ih ih' =>
    rw [List.map_cons, List.map_append, List.map_cons]
    exact .point (.silent rfl) (.quiet (.silent (valuation_modifyAgent _))
      (ih.append (.quiet (.silent (valuation_modifyAgent _)) (.point (.silent rfl) ih'))))
  | tick _ _ _ e ih =>
    exact .quiet (.silent valuation_startWalk)
      ((ih.rest (valuation_finishWalk _)).rest (valuation_report e))

theorem perform_heard (d : Deed τ α) : Heard c w (⟨w, tellsDeed c w d⟩ ::
    (w.deedMoments d).map fun m => ⟨m.world, tellsMoment c m⟩) (w.perform d) := by
  have only {v : World τ α} (h : v.valuation = w.valuation) : Heard c w [⟨w, []⟩] v :=
    .point (.silent h) .nil
  cases d with
  | create g => exact only rfl
  | disown a => exact only rfl
  | loadTask a state => exact only (valuation_loadTask state)
  | newContext id types stepMillis => exact .point (newContext_follows id types stepMillis) .nil
  | dropContext c' => exact .point dropContext_follows .nil
  | setCreated c' created => exact only (valuation_modifyContext fun _ => rfl)
  | on c' op =>
    by_cases h : op = .tick
    · subst h
      have hnone : tellsDeed c w (.on c' .tick) = [] := by simp [tellsDeed, tellsOp]
      rw [hnone]
      exact .point (.silent rfl) (happens_heard (tickWith_happens (traced_nested nestingLimit)))
    · have hnone : w.deedMoments (.on c' op) = [] := by
        unfold deedMoments
        split
        · next heq => cases heq; exact absurd rfl h
        · next heq => cases heq
        · rfl
      rw [hnone]
      exact .point ((answerContextOp_turns _ op h).follows c) .nil
  | exec c' a =>
    simp only [tellsDeed, perform, World.exec, deedMoments]
    cases hc : w.context? c' with
    | none => exact only rfl
    | some ctx =>
      have hused : (w.modifyContext c' fun ctx => { ctx with inUse := true }).valuation =
          w.valuation := valuation_modifyContext fun _ => rfl
      have htask := happens_heard (c := c) (task_happens (c := c') (a := a)
        (w := w.modifyContext c' fun ctx => { ctx with inUse := true })
        (traced_nested nestingLimit))
      exact .point (.silent rfl) (.quiet (.silent hused)
        (htask.rest (valuation_modifyContext fun _ => rfl)))
  | host f => exact only rfl

/-- Every point of a run, what is told there, and one step from each to the next. -/
theorem hearings_heard (ds : List (Deed τ α)) (w : World τ α) :
    Heard c w (hearings c ds w) (run ds w) := by
  induction ds generalizing w with
  | nil => exact .stay
  | cons d ds ih => exact (perform_heard d).append (ih (w.perform d))

/-! ## The receiver -/

/-- The receiver holds the baselines of the context, and nothing before there is one. -/
structure Fits (c : ContextRef) (r : Receiver) (w : World τ α) : Prop where
  holds : ∀ ctx, w.context? c = some ctx → r = ctx.statics.baseline
  before : w.contexts.size ≤ c.index → r = .empty

omit [Behavior τ α] in
theorem Follows.fits {r : Receiver} (h : Follows c told w v) (hr : Fits c r w) :
    AllExact r told ∧ Fits c (r.hearAll told) v := by
  cases hc : w.context? c with
  | none =>
    obtain ⟨rfl, hnew⟩ := h.absent hc
    refine ⟨trivial, fun ctx hx => ?_, fun hi => hr.before (Nat.le_trans h.size hi)⟩
    obtain ⟨hi, hs⟩ := hnew ctx hx
    rw [hs]
    exact hr.before hi
  | some ctx =>
    have hthere : ¬w.contexts.size ≤ c.index := fun hi => by
      rw [context?_eq_none_of_size hi] at hc; cases hc
    rcases h.present ctx hc with ⟨rfl, hgone⟩ | ⟨ctx', hc', -, hstep⟩
    · exact ⟨trivial, fun ctx' hx => (by rw [hgone] at hx; cases hx),
        fun hi => absurd (Nat.le_trans h.size hi) hthere⟩
    · obtain ⟨hexact, hend⟩ := hstep.hears
      rw [hr.holds ctx hc]
      refine ⟨hexact, fun ctx'' hx => ?_, fun hi => absurd (Nat.le_trans h.size hi) hthere⟩
      rw [hc'] at hx
      cases hx
      exact hend

omit [Behavior τ α] in
/-- At each point the receiver has followed so far, and finds what comes next exact. -/
theorem Heard.fits {r : Receiver} {T pre post : List (Hearing τ α)} {e : Hearing τ α}
    (h : Heard c w T v) (hr : Fits c r w) (hT : T = pre ++ e :: post) :
    Fits c (r.hearAll (pre.flatMap (·.told))) e.world ∧
      AllExact (r.hearAll (pre.flatMap (·.told))) e.told := by
  induction h generalizing r pre with
  | nil => simp at hT
  | quiet h _ ih => exact ih (h.fits hr).2 hT
  | point h _ ih =>
    obtain ⟨hexact, hnext⟩ := h.fits hr
    cases pre with
    | nil =>
      obtain ⟨rfl, rfl⟩ := List.cons.inj hT
      exact ⟨hr, hexact⟩
    | cons x pre =>
      obtain ⟨rfl, rfl⟩ := List.cons.inj hT
      rw [List.flatMap_cons, Receiver.hearAll_append]
      exact ih hnext rfl

omit [Behavior τ α] in
/-- A log of all classes that goes through leaves the receiver with the live values. -/
theorem logStatics_caught_up {r : Receiver} {sink : Sink α} {sent : Nat} (hr : Fits c r w)
    (h : w.logStatics c none sink = (.ok sent, v)) {ctx' : Context}
    (hc' : v.context? c = some ctx') :
    r.hearAll (w.tellsLog c none sink) = ctx'.statics.values := by
  unfold logStatics at h
  cases hc : w.context? c with
  | none =>
    simp only [hc] at h
    cases h
    rw [hc] at hc'
    cases hc'
  | some ctx =>
    have hlog := Statics.log_logged ctx.statics ctx.id ctx.clock.frames none sink w.host
    have htells : w.tellsLog c none sink =
        ctx.statics.accepted ctx.id ctx.clock.frames none sink w.host := by
      simp only [tellsLog, hc, Option.filter_none]
    simp only [hc, Option.filter_none] at h
    obtain ⟨hsent, hv⟩ := Prod.mk.inj h
    have hthrough : (ctx.statics.log ctx.id ctx.clock.frames none sink w.host).1.isOk = true := by
      cases hresult : (ctx.statics.log ctx.id ctx.clock.frames none sink w.host).1 with
      | error e => rw [hresult] at hsent; cases hsent
      | ok n => rfl
    rw [hthrough] at hlog
    have hctx' : ctx'.statics = (ctx.statics.log ctx.id ctx.clock.frames none sink w.host).2.1 := by
      rw [← hv] at hc'
      have hself := context?_modifyContext_self hc fun ctx' => { ctx' with
        statics := (ctx.statics.log ctx.id ctx.clock.frames none sink w.host).2.1 }
      obtain rfl := Option.some.inj (hself.symm.trans hc')
      rfl
    rw [htells, hr.holds ctx hc, hlog.hears.2, hlog.caught_up, hctx']

theorem logState_caught_up {r : Receiver} {sink : Sink α} {sent : Nat} (hr : Fits c r w)
    (h : w.logState c sink = (.ok sent, v)) {ctx' : Context} (hc' : v.context? c = some ctx') :
    r.hearAll (w.tellsState c sink) = ctx'.statics.values := by
  unfold logState at h
  cases hc : w.context? c with
  | none =>
    simp only [hc] at h
    cases h
    rw [hc] at hc'
    cases hc'
  | some ctx =>
    have hsame := logAgents_contexts (w := w) ctx sink (w.handles ctx.registry) 0
    simp only [hc] at h
    cases hl : logAgents ctx sink (w.handles ctx.registry) 0 w with
    | mk result x =>
      rw [hl] at hsame
      cases result with
      | error e => simp only [hl] at h; cases h
      | ok states =>
        have htells : w.tellsState c sink = x.tellsLog c none sink := by
          simp only [tellsState, hc, hl]
        have hfits : Fits c r x :=
          ⟨fun ctx hx => hr.holds ctx (by rw [← hx, context?, context?, hsame]),
            fun hi => hr.before (by rw [← hsame]; exact hi)⟩
        simp only [hl] at h
        rw [htells]
        split at h
        · cases h
        · next changes y hy =>
          cases h
          exact logStatics_caught_up hfits hy hc'

omit [Behavior τ α] in
theorem modifyContext_self {ctx : Context} {f : Context → Context} (hc : w.context? c = some ctx)
    (hf : f ctx = ctx) : w.modifyContext c f = w := by
  show World.mk _ _ _ = World.mk _ _ _
  congr 1
  refine Array.ext_getElem? fun i => ?_
  rw [Array.getElem?_modify]
  split
  · next hi =>
    obtain ⟨x, hx, hxc⟩ : ∃ x, w.contexts[i]? = some x ∧ x = some ctx := by
      rw [context?, hi, Option.join_eq_some_iff] at hc
      exact ⟨_, hc, rfl⟩
    rw [hx, hxc, Option.map_some, Option.map_some, hf]
  · rfl

omit [Behavior τ α] in
/-- Where the baselines are the live values, a log sends nothing and changes nothing. -/
theorem logStatics_silent {ctx : Context} (hc : w.context? c = some ctx)
    (hs : ctx.statics.baseline = ctx.statics.values) (cls : Option String)
    (hcls : ∀ k ∈ cls, ctx.types.contains k = true) (sink : Sink α) :
    w.logStatics c cls sink = (.ok 0, w) := by
  have hnone : (cls.filter fun cls => !ctx.types.contains cls) = none := by
    rw [Option.filter_eq_none_iff]
    intro k hk
    simp [hcls k hk]
  simp only [logStatics, hc, hnone, Statics.log_silent hs cls]
  rw [modifyContext_self hc rfl]
  rfl

/-- What a receiver of a context's static variables knows along a run, when it starts with
nothing and applies what it is told. -/
structure StaticsReported (c : ContextRef) (T : List (Hearing τ α)) : Prop where
  /-- At every point it holds the baseline of every class. -/
  inStep : ∀ pre e post, T = pre ++ e :: post → ∀ ctx, e.world.context? c = some ctx → ∀ cls,
    Receiver.empty.hearAll (pre.flatMap (·.told)) cls =
      (ctx.statics.baselines.get? cls).getD .empty
  /-- Every change of a batch says what it holds when the batch comes, and changes it; no name
  comes twice. -/
  exact : ∀ pre e post, T = pre ++ e :: post → ∀ before cls changes after,
    e.told = before ++ .changed cls changes :: after →
      (changes.map (·.name)).Nodup ∧ ∀ change ∈ changes,
        change.old = (Receiver.empty.hearAll (pre.flatMap (·.told) ++ before) cls).get?
          change.name ∧ change.old ≠ change.new
  /-- After a log of all classes that goes through, it holds the live values of every class. -/
  caughtUp : ∀ pre e post, T = pre ++ e :: post → ∀ sink sent v,
    e.world.logStatics c none sink = (.ok sent, v) → ∀ ctx, v.context? c = some ctx → ∀ cls,
      Receiver.empty.hearAll (pre.flatMap (·.told) ++ e.world.tellsLog c none sink) cls =
        (ctx.statics.live.get? cls).getD .empty
  /-- After a log of the state that goes through, it does, too. -/
  stateCaughtUp : ∀ pre e post, T = pre ++ e :: post → ∀ sink sent v,
    e.world.logState c sink = (.ok sent, v) → ∀ ctx, v.context? c = some ctx → ∀ cls,
      Receiver.empty.hearAll (pre.flatMap (·.told) ++ e.world.tellsState c sink) cls =
        (ctx.statics.live.get? cls).getD .empty
  /-- While it holds the live values of every class, no log sends anything. -/
  silent : ∀ pre e post, T = pre ++ e :: post → ∀ ctx, e.world.context? c = some ctx →
    (∀ cls, Receiver.empty.hearAll (pre.flatMap (·.told)) cls =
      (ctx.statics.live.get? cls).getD .empty) →
    ∀ cls sink, (∀ k ∈ cls, ctx.types.contains k = true) →
      e.world.logStatics c cls sink = (.ok 0, e.world)

end Behavior

end World

open World

/-- In every run of an application with its workspace, a receiver of one context's static
variables misses no change and is told none twice, whichever calls it refuses. -/
theorem Application.statics_reported {τ α ο : Type} [Behavior τ α] (ws : Workspace α) (o : ο)
    (h : Host α) (acts : List (Act τ α ο)) (c : ContextRef) :
    StaticsReported c (hearings c (deeds acts ⟨ws, o, { host := h }⟩) { host := h }) := by
  have hfirst : Fits c .empty ({ host := h } : World τ α) :=
    ⟨fun ctx hc => by simp [context?] at hc, fun _ => rfl⟩
  have hheard := hearings_heard (c := c) (deeds acts ⟨ws, o, { host := h }⟩) { host := h }
  constructor
  · intro pre e post hT ctx hc cls
    rw [(hheard.fits hfirst hT).1.holds ctx hc]
    rfl
  · intro pre e post hT before cls changes after htold
    have hexact := (hheard.fits hfirst hT).2
    rw [htold] at hexact
    rw [Receiver.hearAll_append]
    exact hexact.at.2
  · intro pre e post hT sink sent v hlog ctx hc cls
    rw [Receiver.hearAll_append, logStatics_caught_up (hheard.fits hfirst hT).1 hlog hc]
    rfl
  · intro pre e post hT sink sent v hlog ctx hc cls
    rw [Receiver.hearAll_append, logState_caught_up (hheard.fits hfirst hT).1 hlog hc]
    rfl
  · intro pre e post hT ctx hc hlive cls sink hcls
    refine logStatics_silent hc (funext fun k => ?_) cls hcls sink
    rw [← (hheard.fits hfirst hT).1.holds ctx hc]
    exact hlive k

end AgentScheduler
