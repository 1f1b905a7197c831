/-
One tick of all contexts. As long as tasks act on contexts through the one they
are given only, a walk leaves every other context alone (`Happens.confined`). So
a context whose turn is still to come keeps what it had registered when the call
started, and no agent is run by two contexts (`runs_once`).
-/
import AgentScheduler.Proofs.Directory
import AgentScheduler.Proofs.Restoring
import AgentScheduler.Proofs.WalkOrder
import AgentScheduler.Proofs.WorkspaceRuns

namespace AgentScheduler

section Moments

variable {τ α : Type}

/-- No request for an operation on a context, but for what every task may ask of its own. -/
def Happening.isConfined : Happening τ α → Bool
  | .asks (.here (.task _)) => true
  | .asks (.here _) | .asks (.there _ _) | .asks (.dropContext _) => false
  | _ => true

/-- Tasks act on contexts through the one that executes them only. -/
def Confined (T : List (Moment τ α)) : Prop := ∀ m ∈ T, m.what.isConfined = true

instance (T : List (Moment τ α)) : Decidable (Confined T) :=
  inferInstanceAs (Decidable (∀ _ ∈ T, _))

/-- The agent whose task a walk runs. -/
def Happening.run? : Happening τ α → Option AgentRef
  | .runs a => some a
  | _ => none

/-- The agents whose tasks walks run, in order. -/
def ran (T : List (Moment τ α)) : List AgentRef := T.filterMap (·.what.run?)

variable {T T' : List (Moment τ α)} {a : AgentRef}

theorem ran_append : ran (T ++ T') = ran T ++ ran T' := List.filterMap_append

theorem mem_ran : a ∈ ran T ↔ ∃ m ∈ T, m.what = .runs a := by
  have hrun (x : Happening τ α) : x.run? = some a ↔ x = .runs a := by
    cases x <;> simp [Happening.run?]
  simp only [ran, List.mem_filterMap, hrun]

theorem confined_append : Confined (T ++ T') ↔ Confined T ∧ Confined T' :=
  List.forall_mem_append

/-- A task, or the rest of one. -/
def Phase.isTask : Phase → Bool
  | .task _ | .exec _ _ => true
  | .walk _ _ | .tick _ => false

/-- Requests of confined tasks that run tasks run them in the same context. -/
theorem phase_of_confined {c : ContextRef} {r : Request τ α} {p : Phase}
    (hp : r.phase? c = some p) (hr : (Happening.asks r).isConfined = true) :
    ∃ a, p = .exec c a := by
  unfold Request.phase? at hp
  split at hp
  · cases hr
  · cases hr
  · next a => exact ⟨a, (Option.some.inj hp).symm⟩
  · cases hp

end Moments

namespace World

variable {τ α : Type} {w v u : World τ α} {c : ContextRef} {a : AgentRef} {ctx : Context}
  {T T' : List (Moment τ α)} {p : Phase} {l : List AgentRef}

/-! ## A phase and the other contexts -/

section Phases

variable [Behavior τ α]

theorem answer_confined (nested : Nested τ α) {c₀ : ContextRef} {r : Request τ α}
    (hp : r.phase? c₀ = none) (hr : (Happening.asks r).isConfined = true) (hne : c ≠ c₀) :
    (w.answer nested c₀ r).2.context? c = w.context? c := by
  cases r with
  | here op =>
    cases op with
    | task t => exact (answerTaskOp_edits t).other hne
    | _ => cases hr
  | there | dropContext => cases hr
  | loadTask b state => exact (loadTask_edits state).1 c
  | exec b => cases hp
  | create | disown | view | saveTask | describeTask | app | setApp | report => rfl

/-- A phase of confined tasks happens in its own context, and no other one changes. -/
theorem Happens.confined (h : Happens p w T v) (hT : Confined T) :
    (∀ m ∈ T, m.context = p.context) ∧ ∀ c, c ≠ p.context → v.context? c = w.context? c := by
  induction h with
  | done | noExec | finish | noTick | refuse => exact ⟨fun m hm => (by cases hm), fun _ _ => rfl⟩
  | serve nested hp _ ih =>
    obtain ⟨hr, hT⟩ := List.forall_mem_cons.1 hT
    obtain ⟨hm, hc⟩ := ih hT
    exact ⟨List.forall_mem_cons.2 ⟨rfl, hm⟩,
      fun c hne => (hc c hne).trans (answer_confined nested hp hr hne)⟩
  | call hp _ _ ih ih' =>
    obtain ⟨hr, hT⟩ := List.forall_mem_cons.1 hT
    obtain ⟨hT, hT'⟩ := confined_append.1 hT
    obtain ⟨a, rfl⟩ := phase_of_confined hp hr
    obtain ⟨hm, hc⟩ := ih hT
    obtain ⟨hm', hc'⟩ := ih' hT'
    exact ⟨List.forall_mem_cons.2 ⟨rfl, List.forall_mem_append.2 ⟨hm, hm'⟩⟩,
      fun c hne => (hc' c hne).trans (hc c hne)⟩
  | exec _ _ _ ih =>
    obtain ⟨hm, hc⟩ := ih (confined_append.1 hT).1
    exact ⟨List.forall_mem_append.2 ⟨hm, List.forall_mem_singleton.2 rfl⟩, hc⟩
  | pass _ _ ih | skip _ _ _ _ ih =>
    obtain ⟨hm, hc⟩ := ih (List.forall_mem_cons.1 hT).2
    exact ⟨List.forall_mem_cons.2 ⟨rfl, hm⟩, hc⟩
  | visit _ _ _ _ ih ih' =>
    obtain ⟨hT, hT'⟩ := confined_append.1 (List.forall_mem_cons.1 hT).2
    obtain ⟨hm, hc⟩ := ih hT
    obtain ⟨hm', hc'⟩ := ih' (List.forall_mem_cons.1 hT').2
    refine ⟨List.forall_mem_cons.2 ⟨rfl, List.forall_mem_append.2 ⟨hm, ?_⟩⟩,
      fun c hne => (hc' c hne).trans (hc c hne)⟩
    exact List.forall_mem_cons.2 ⟨rfl, hm'⟩
  | tick _ _ _ _ ih =>
    obtain ⟨hm, hc⟩ := ih hT
    refine ⟨hm, fun c hne => ?_⟩
    rw [context?_report]
    exact (finishWalk_other hne).trans ((hc c hne).trans (context?_modifyContext_ne hne _))

/-- No walk goes on while a confined task runs. -/
theorem Happens.ran_eq_nil (h : Happens p w T v) (hT : Confined T) (hp : p.isTask = true) :
    ran T = [] := by
  induction h with
  | done | noExec => rfl
  | serve _ _ _ ih => exact ih (List.forall_mem_cons.1 hT).2 hp
  | call hr _ _ ih ih' =>
    obtain ⟨hconf, hT⟩ := List.forall_mem_cons.1 hT
    obtain ⟨hT, hT'⟩ := confined_append.1 hT
    obtain ⟨a, rfl⟩ := phase_of_confined hr hconf
    have hall := ran_append.trans (congrArg₂ (· ++ ·) (ih hT rfl) (ih' hT' hp))
    exact hall
  | exec _ _ _ ih =>
    rw [ran_append, ih (confined_append.1 hT).1 rfl]
    rfl
  | finish | pass | skip | visit | tick | refuse | noTick => cases hp

end Phases

/-! ## A walk -/

/-- What a walk over the agents of a list runs. -/
structure WalkRuns (l : List AgentRef) (w : World τ α) (T : List (Moment τ α)) (v : World τ α) :
    Prop where
  sublist : (ran T).Sublist l
  /-- The tasks of living agents that do not run already. -/
  free : ∀ a ∈ ran T, w.alive a = true ∧ w.runsTask a = false
  /-- All of them, if the agents live on. -/
  all : ∀ a ∈ l, w.alive a = true → v.alive a = true → w.runsTask a = false → a ∈ ran T

section Walks

variable [Behavior τ α]

/-- A walk of confined tasks runs everyone on its way whose task does not run already. -/
theorem Happens.walk_runs (h : Happens (.walk c l) w T v) (hT : Confined T)
    (hw : w.DistinctIds ∧ w.Coherent) (hl : ∀ a ∈ l, ∃ agent, w.agent? a = some agent) :
    WalkRuns l w T v := by
  induction l generalizing w T with
  | nil =>
    cases h
    exact ⟨.slnil, fun a ha => (by cases ha), fun a ha => by cases ha⟩
  | cons a l ih =>
    obtain ⟨-, hl'⟩ := List.forall_mem_cons.1 hl
    cases h with
    | pass hdead h =>
      obtain ⟨hsub, hfree, hall⟩ := ih h (List.forall_mem_cons.1 hT).2 hw hl'
      refine ⟨hsub.cons a, hfree, fun b hb hbw hbv hbr => ?_⟩
      rcases List.mem_cons.1 hb with rfl | hb
      · rw [alive, hdead] at hbw
        cases hbw
      · exact hall b hb hbw hbv hbr
    | @skip _ _ _ _ _ _ agent hlive hr e h =>
      obtain ⟨hsub, hfree, hall⟩ := ih h (List.forall_mem_cons.1 hT).2
        (coherent_durable.host _ hw) hl'
      refine ⟨hsub.cons a, hfree, fun b hb hbw hbv hbr => ?_⟩
      rcases List.mem_cons.1 hb with rfl | hb
      · rw [runsTask_of_live? hlive, hr] at hbr
        cases hbr
      · exact hall b hb hbw hbv hbr
    | @visit _ _ _ _ v₁ _ T₁ T₂ agent status task hlive hr h h' =>
      obtain ⟨hT₁, hT₂⟩ := confined_append.1 (List.forall_mem_cons.1 hT).2
      have hran : ran (⟨c, .runs a, w⟩ ::
          (T₁ ++ ⟨c, .ends a status, v₁.endTask a task⟩ :: T₂)) = a :: ran T₂ := by
        have := h.ran_eq_nil hT₁ rfl
        simp only [ran, List.filterMap_cons, List.filterMap_append, Happening.run?] at this ⊢
        rw [this, List.nil_append]
      -- the rest of the walk begins in a later world, in which the same tasks run
      have hlater := later_durable c w
      obtain ⟨hx, hwx⟩ := hlater.fade (sameContexts_modifyAgent _) (fades_endTask (a := a) task)
        (hlater.happens h (hlater.fade (sameContexts_modifyAgent _) (fades_startTask hlive)
          ⟨hw, .refl c w⟩)).1
      have hactive : SameActivity w (v₁.endTask a task) := h.sameActivity.task hlive hr task
      have hxv := ((later_durable c _).happens h' ⟨hx, .refl c _⟩).1.2
      have hl'' : ∀ b ∈ l, ∃ agent, (v₁.endTask a task).agent? b = some agent := fun b hb => by
        obtain ⟨agent, ha⟩ := hl' b hb
        obtain ⟨agent', ha', -⟩ := hwx.agents b agent ha
        exact ⟨agent', ha'⟩
      obtain ⟨hsub, hfree, hall⟩ := ih h' (List.forall_mem_cons.1 hT₂).2 hx hl''
      refine ⟨hran ▸ hsub.cons_cons a, fun b hb => ?_, fun b hb hbw hbv hbr => ?_⟩
      · rw [hran] at hb
        rcases List.mem_cons.1 hb with rfl | hb
        · exact ⟨alive_of_live? hlive, (runsTask_of_live? hlive).trans hr⟩
        · obtain ⟨hbx, hbr⟩ := hfree b hb
          obtain ⟨agent, ha⟩ := hl' b (hsub.subset hb)
          exact ⟨hwx.alive_before ha hbx, (hactive.tasks b).symm.trans hbr⟩
      · rw [hran]
        rcases List.mem_cons.1 hb with rfl | hb
        · exact List.mem_cons_self
        · obtain ⟨agent, ha⟩ := hl'' b hb
          refine List.mem_cons_of_mem _ (hall b hb (hxv.alive_before ha hbv) hbv ?_)
          exact (hactive.tasks b).trans hbr

end Walks

/-! ## Ticks one after the other -/

/-- The contexts of `cs` have been ticked, each once. -/
structure Swept (cs : ContextRef → Prop) (w : World τ α) (T : List (Moment τ α)) (v : World τ α) :
    Prop where
  coherent : v.DistinctIds ∧ v.Coherent
  later : ∀ c, Later c w v
  activity : SameActivity w v
  /-- The other contexts are as before. -/
  others : ∀ c, ¬cs c → v.context? c = w.context? c
  /-- No agent has been run twice. -/
  once : (ran T).Nodup
  /-- Every agent was registered from the beginning in the context that ran it. -/
  registered : ∀ m ∈ T, ∀ a, m.what = .runs a →
    cs m.context ∧ w.containsAgent m.context a = true ∧ w.runsTask a = false
  /-- Whoever was so has been run, if it lives on. -/
  all : ∀ c ctx a, cs c → w.context? c = some ctx → ctx.executing = false →
    w.containsAgent c a = true → v.alive a = true → w.runsTask a = false → a ∈ ran T

namespace Swept

variable {cs cs' : ContextRef → Prop}

theorem nil (hw : w.DistinctIds ∧ w.Coherent) : Swept (fun _ => False) w [] w where
  coherent := hw
  later c := .refl c w
  activity := .refl w
  others _ _ := rfl
  once := .nil
  registered m hm := by cases hm
  all _ _ _ hc := hc.elim

/-- It makes no difference what surrounds the contexts at the beginning. -/
theorem of_host {h : Host α} (hs : Swept cs { w with host := h } T v) : Swept cs w T v where
  coherent := hs.coherent
  later c := ⟨(hs.later c).agents, (hs.later c).context⟩
  activity := ⟨hs.activity.tasks, hs.activity.contexts⟩
  others := hs.others
  once := hs.once
  registered := hs.registered
  all := hs.all

theorem congr (hs : Swept cs w T v) (h : ∀ c, cs c ↔ cs' c) : Swept cs' w T v :=
  (funext fun c => propext (h c) : cs = cs') ▸ hs

/-- Edits of a context that has had its turn. -/
theorem edits (hs : Swept cs w T v) (hc : cs c) (h : Edits c v u) : Swept cs w T u where
  coherent := Coherent.edits h hs.coherent
  later c' := (hs.later c').trans (h.later hs.coherent)
  activity := hs.activity.trans (.of_edits h)
  others c' hc' := by
    have hne : c' ≠ c := by
      rintro rfl
      exact hc' hc
    exact (h.other hne).trans (hs.others c' hc')
  once := hs.once
  registered := hs.registered
  all c' ctx a hc' hctx hx ha hu := hs.all c' ctx a hc' hctx hx ha (alive_of_self (h.self a) ▸ hu)

/-- Contexts that have had no turn yet have it: what they have registered then, they had
registered from the beginning. -/
theorem append (hs : Swept cs w T v) (hs' : Swept cs' v T' u) (hw : w.DistinctIds ∧ w.Coherent)
    (hdisjoint : ∀ c ctx, w.context? c = some ctx → cs c → ¬cs' c) :
    Swept (fun c => cs c ∨ cs' c) w (T ++ T') u := by
  have same {c : ContextRef} {ctx : Context} (hc : cs' c) (hx : w.context? c = some ctx) :
      v.context? c = some ctx :=
    (hs.others c fun h => hdisjoint c ctx hx h hc).trans hx
  have back {c : ContextRef} {a : AgentRef} (hc : cs' c) (ha : v.containsAgent c a = true) :
      ¬cs c ∧ w.containsAgent c a = true := by
    cases hv : v.context? c with
    | none => simp [containsAgent, hv] at ha
    | some ctx =>
      obtain ⟨ctx₀, hx, -⟩ := (hs.later c).context ctx hv
      obtain rfl : ctx = ctx₀ := Option.some.inj (hv.symm.trans (same hc hx))
      obtain ⟨halive, hmem⟩ := (hs.coherent.2.containsAgent_iff hv).1 ha
      obtain ⟨p, i, he⟩ := Registry.mem_walkOrder.1 hmem
      obtain ⟨agent, hknown⟩ := hw.2.known c ctx p i a hx he
      refine ⟨fun h => hdisjoint c ctx hx h hc, (hw.2.containsAgent_iff hx).2 ⟨?_, hmem⟩⟩
      exact (hs.later c).alive_before hknown halive
  refine ⟨hs'.coherent, fun c => (hs.later c).trans (hs'.later c), hs.activity.trans hs'.activity,
    fun c hc => ?_, ?_, List.forall_mem_append.2 ⟨fun m hm a he => ?_, fun m hm a he => ?_⟩,
    fun c ctx a hc hx hidle ha hu hfree => ?_⟩
  · rw [not_or] at hc
    exact (hs'.others c hc.2).trans (hs.others c hc.1)
  · rw [ran_append]
    refine List.nodup_append.2 ⟨hs.once, hs'.once, fun a ha b hb he => ?_⟩
    obtain ⟨m, hm, hrun⟩ := mem_ran.1 ha
    obtain ⟨m', hm', hrun'⟩ := mem_ran.1 hb
    subst he
    obtain ⟨hc, hin, -⟩ := hs.registered m hm a hrun
    obtain ⟨hc', hin', -⟩ := hs'.registered m' hm' a hrun'
    obtain ⟨hnot, hin'⟩ := back hc' hin'
    rw [hw.2.containsAgent_unique hw.1 hin hin'] at hnot
    exact hnot hc
  · obtain ⟨hc, hin, hfree⟩ := hs.registered m hm a he
    exact ⟨.inl hc, hin, hfree⟩
  · obtain ⟨hc, hin, hfree⟩ := hs'.registered m hm a he
    exact ⟨.inr hc, (back hc hin).2, (hs.activity.tasks a).symm.trans hfree⟩
  · rw [ran_append, List.mem_append]
    obtain ⟨halive, hmem⟩ := (hw.2.containsAgent_iff hx).1 ha
    obtain ⟨agent, hknown⟩ := (hs.later c).known halive
    have hv : v.alive a = true := (hs'.later c).alive_before hknown hu
    rcases hc with hc | hc
    · exact .inl (hs.all c ctx a hc hx hidle ha hv hfree)
    · have hx' := same hc hx
      refine .inr (hs'.all c ctx a hc hx' hidle ?_ hu ((hs.activity.tasks a).trans hfree))
      exact (hs.coherent.2.containsAgent_iff hx').2 ⟨hv, hmem⟩

end Swept

section Ticks

variable [Behavior τ α]

/-- A tick of one context. -/
theorem tick_swept (n : Nat) (hw : w.DistinctIds ∧ w.Coherent)
    (hT : Confined (w.tickMoments n c)) :
    Swept (· = c) w (w.tickMoments n c) (w.tickWith (nested n) c).2 := by
  have h : Happens (.tick c) w (w.tickMoments n c) (w.tickWith (nested n) c).2 :=
    tickWith_happens (traced_nested n)
  have hlater (c' : ContextRef) := ((later_durable c' w).happens h ⟨hw, .refl c' w⟩).1
  obtain ⟨hhere, hothers⟩ := h.confined hT
  by_cases hidle : ∃ ctx, w.context? c = some ctx ∧ ctx.executing = false
  · obtain ⟨ctx, hc, hx⟩ := hidle
    have hknown : ∀ a ∈ ctx.registry.walkOrder, ∃ agent, w.agent? a = some agent := fun a ha => by
      obtain ⟨p, i, he⟩ := Registry.mem_walkOrder.1 ha
      exact hw.2.known c ctx p i a hc he
    obtain ⟨hsub, hfree, hall⟩ := (tickWalk_happens n hc hx).walk_runs hT
      (coherent_durable.startWalk hc hx hw) hknown
    refine ⟨(hlater c).1, fun c' => (hlater c').2, h.sameActivity, hothers, ?_,
      fun m hm a he => ?_, fun c' ctx' a hc' hctx' _ ha hu hnot => ?_⟩
    · have hrun : (ran (w.tickMoments n c)).filter w.alive = ran (w.tickMoments n c) :=
        List.filter_eq_self.2 fun a ha => (hfree a ha).1
      rw [← hrun]
      exact (hw.2.handles_nodup hc).sublist (hsub.filter _)
    · have hmem := mem_ran.2 ⟨m, hm, he⟩
      have hcm : m.context = c := hhere m hm
      rw [hcm]
      refine ⟨rfl, (hw.2.containsAgent_iff hc).2 ⟨(hfree a hmem).1, hsub.subset hmem⟩, ?_⟩
      exact (hfree a hmem).2
    · subst hc'
      rw [hctx'] at hc
      cases hc
      obtain ⟨halive, hmem⟩ := (hw.2.containsAgent_iff hctx').1 ha
      refine hall a hmem halive ?_ hnot
      obtain ⟨e, he⟩ := (tickWith_parts n hctx' hx).2
      rw [he, alive_report] at hu
      rwa [alive_of_self (finishWalk_self ctx.inUse a)] at hu
  · have hnone := tickMoments_eq_nil (c := c) (w := w) n fun ctx hc =>
      Bool.not_eq_false _ ▸ fun hx => hidle ⟨ctx, hc, hx⟩
    rw [hnone]
    refine ⟨(hlater c).1, fun c' => (hlater c').2, h.sameActivity, hothers, .nil,
      fun m hm => (by cases hm), fun c' ctx a hc' hc hx => ?_⟩
    exact absurd ⟨ctx, hc' ▸ hc, hx⟩ hidle

end Ticks

end World

/-- Runs no task, and changes no context but `c`. -/
def Deed.Minor {τ α : Type} (c : ContextRef) : Deed τ α → Prop
  | .on c' op => c' = c ∧ op ≠ .tick
  | .host _ => True
  | _ => False

namespace World

variable {τ α : Type} [Behavior τ α] {w : World τ α} {c : ContextRef}

theorem minor_run {ds : List (Deed τ α)} (h : ∀ d ∈ ds, d.Minor c) :
    moments ds w = [] ∧ Edits c w (run ds w) := by
  induction ds generalizing w with
  | nil => exact ⟨rfl, .refl⟩
  | cons d ds ih =>
    obtain ⟨hd, h⟩ := List.forall_mem_cons.1 h
    obtain ⟨hmoments, hedits⟩ := ih (w := w.perform d) h
    rw [moments, hmoments, List.append_nil, run_cons]
    cases d with
    | on c' op =>
      obtain ⟨rfl, hop⟩ := hd
      refine ⟨?_, (answerContextOp_edits _ op hop).trans hedits⟩
      cases op with
      | tick => exact absurd rfl hop
      | _ => rfl
    | host f => exact ⟨rfl, .head (.host _) hedits⟩
    | _ => exact hd.elim

end World

open World

namespace Workspace

variable {τ α ο : Type} {ws : Workspace α} {w : World τ α} {c : ContextRef} {id : ContextId}

section Ticks

variable [Behavior τ α] {obs : Observer ο α} {o : ο}

/-! ## A tick of all contexts -/

theorem minor_logTickDeeds (frame : UInt64) :
    ∀ d ∈ ws.logTickDeeds id c frame w, d.Minor c := by
  have hdue (w : World τ α) : ∀ d ∈ ws.logDueDeeds id c frame w, d.Minor c := by
    unfold logDueDeeds
    split
    · refine List.forall_mem_cons.2 ⟨⟨rfl, nofun⟩, ?_⟩
      split
      · exact fun d hd => by cases hd
      · exact List.forall_mem_singleton.2 trivial
    · exact fun d hd => by cases hd
  unfold logTickDeeds
  split
  · refine List.forall_mem_cons.2 ⟨⟨rfl, nofun⟩, ?_⟩
    split
    · exact fun d hd => by cases hd
    · exact hdue _
  · exact hdue w

/-- A tick with its logging: a notice, the tick, and what changes nothing else. -/
theorem tickOneDeeds_eq (obs : Observer ο α) (hc : ws.find? id = some c) (o : ο) (w : World τ α) :
    ∃ f log, (∀ d ∈ log, d.Minor c) ∧
      ws.tickOneDeeds obs id o w = .host f :: .on c .tick :: log := by
  simp only [tickOneDeeds, hc]
  refine ⟨_, _, ?_, rfl⟩
  exact List.forall_mem_append.2 ⟨minor_logTickDeeds _, List.forall_mem_singleton.2 trivial⟩

theorem tickOne_swept (hw : w.DistinctIds ∧ w.Coherent)
    (hT : Confined (moments (ws.tickOneDeeds obs id o w) w)) :
    Swept (fun c => ws.find? id = some c) w (moments (ws.tickOneDeeds obs id o w) w)
      (run (ws.tickOneDeeds obs id o w) w) := by
  cases hc : ws.find? id with
  | none =>
    have hnone : ws.tickOneDeeds obs id o w = [] := by simp only [tickOneDeeds, hc]
    rw [hnone]
    exact (Swept.nil hw).congr fun c => ⟨False.elim, fun h => by cases h⟩
  | some c =>
    obtain ⟨f, log, hlog, heq⟩ := tickOneDeeds_eq obs hc o w
    obtain ⟨hmoments, hedits⟩ :=
      minor_run (w := (w.perform (.host f)).perform (.on c .tick)) hlog
    have hall : moments (ws.tickOneDeeds obs id o w) w =
        (w.perform (.host f)).tickMoments nestingLimit c := by
      rw [heq, moments, moments, hmoments, List.append_nil]
      rfl
    rw [hall] at hT ⊢
    rw [heq, run_cons, run_cons]
    have htick := tick_swept nestingLimit (coherent_durable.host (f w.host) hw) hT
    exact ((Swept.edits htick rfl hedits).of_host).congr fun c' =>
      ⟨fun h => congrArg some h.symm, fun h => (Option.some.inj h).symm⟩

/-- Ticks of contexts one after the other. -/
theorem tickAll_swept {ids : List ContextId} (hw : w.DistinctIds ∧ w.Coherent)
    (hids : ids.Nodup)
    (hnames : ∀ id c ctx, ws.find? id = some c → w.context? c = some ctx → ctx.id = id)
    (hT : Confined (moments (ws.tickAllDeeds obs ids o w) w)) :
    Swept (fun c => ∃ id ∈ ids, ws.find? id = some c) w
      (moments (ws.tickAllDeeds obs ids o w) w) (run (ws.tickAllDeeds obs ids o w) w) := by
  induction ids generalizing o w with
  | nil => exact (Swept.nil hw).congr fun c => by simp
  | cons id ids ih =>
    obtain ⟨hid, hids⟩ := List.nodup_cons.1 hids
    have hrun : run (ws.tickOneDeeds obs id o w) w = (ws.tickOne obs id o w).2.2.2 :=
      run_tickOneDeeds
    rw [tickAllDeeds, moments_append] at hT ⊢
    rw [run_append]
    obtain ⟨hT₁, hT₂⟩ := confined_append.1 hT
    have hone := tickOne_swept hw hT₁
    rw [hrun] at hone hT₂ ⊢
    clear hrun hT hT₁
    generalize ws.tickOne obs id o w = result at hone hT₂ ⊢
    obtain ⟨report, logged, o', v⟩ := result
    have hnames' : ∀ id' c ctx, ws.find? id' = some c → v.context? c = some ctx → ctx.id = id' := by
      intro id' c ctx' hc hctx'
      obtain ⟨ctx, hctx, hsame, -⟩ := (hone.later c).context ctx' hctx'
      exact hsame.trans (hnames id' c ctx hc hctx)
    have hdisjoint : ∀ c ctx, w.context? c = some ctx → ws.find? id = some c →
        ¬∃ id' ∈ ids, ws.find? id' = some c := by
      rintro c ctx hctx hc ⟨id', hid', hc'⟩
      rw [← hnames id c ctx hc hctx, hnames id' c ctx hc' hctx] at hid
      exact hid hid'
    have join {T : List (Moment τ α)} {u : World τ α}
        (hrest : Swept (fun c => ∃ id' ∈ ids, ws.find? id' = some c) v T u) :
        Swept (fun c => ∃ id' ∈ id :: ids, ws.find? id' = some c) w
          (moments (ws.tickOneDeeds obs id o w) w ++ T) u :=
      (hone.append hrest hw hdisjoint).congr fun c => by simp
    cases logged with
    | ok => exact join (ih hone.coherent hids hnames' hT₂)
    | error e =>
      have hrest := ih (o := o') (w := v.report (.tickLogFailed id e))
        (coherent_durable.host _ hone.coherent) hids hnames' hT₂
      exact join hrest.of_host

/-- What one tick of all contexts runs. -/
structure RunsOnce (ws : Workspace α) (w : World τ α) (T : List (Moment τ α)) (u : World τ α) :
    Prop where
  /-- No agent is run twice. -/
  once : (ran T).Nodup
  /-- Whoever is run was registered when the call started, in the context of the directory that
  runs it. -/
  registered : ∀ m ∈ T, ∀ a, m.what = .runs a →
    (∃ id, ws.find? id = some m.context) ∧ w.containsAgent m.context a = true
  /-- Whoever was registered then and lives on is run, unless its task ran already. -/
  all : ∀ id c ctx a, ws.find? id = some c → w.context? c = some ctx → ctx.executing = false →
    w.containsAgent c a = true → u.alive a = true →
      (ran T).count a = if w.runsTask a = true then 0 else 1

theorem tick_runsOnce (hw : w.DistinctIds ∧ w.Coherent) (hws : ws.Listed w)
    (hT : Confined (moments (ws.tickDeeds obs .all o w) w)) :
    RunsOnce ws w (moments (ws.tickDeeds obs .all o w) w) (ws.tick obs .all o w).2.2.2 := by
  have hall : ws.tickDeeds obs .all o w = ws.tickAllDeeds obs ws.contextIds o w := rfl
  have hids : ws.contextIds.Nodup := ws.directory.nodup_keys
  rw [hall] at hT ⊢
  rw [← run_tickDeeds, hall]
  have hs := tickAll_swept hw hids (fun id c ctx hc => (hws id c hc).2 ctx) hT
  refine ⟨hs.once, fun m hm a he => ?_, fun id c ctx a hc hctx hx ha hu => ?_⟩
  · obtain ⟨⟨id, -, hc⟩, ha, -⟩ := hs.registered m hm a he
    exact ⟨⟨id, hc⟩, ha⟩
  · have hmem : id ∈ ws.contextIds := SortedMap.mem_keys.2 (Option.isSome_iff_exists.2 ⟨c, hc⟩)
    rw [hs.once.count]
    split
    · next hran =>
      obtain ⟨m, hm, he⟩ := mem_ran.1 hran
      rw [if_neg (by rw [(hs.registered m hm a he).2.2]; exact Bool.false_ne_true)]
    · next hnot =>
      rw [if_pos]
      refine Bool.not_eq_false _ ▸ fun hfree => hnot ?_
      exact hs.all c ctx a ⟨id, hmem, hc⟩ hctx hx ha hu hfree

end Ticks

end Workspace

namespace Application

variable {τ α ο : Type} [Behavior τ α] {s : Application τ α ο}

/-- In every application whose contexts have distinct ids, one tick of all contexts of the
workspace runs no agent twice, and every agent that is registered in one of them when the call
starts and lives on once, unless its task runs already. The call may be made between deeds, or
in the middle of one (`w`); the tasks that run meanwhile act on contexts through the one that
executes them only. -/
theorem runs_once (h : Host α) (ws : Workspace α) (o : ο) (acts : List (Act τ α ο)) (d : Deed τ α)
    (w : World τ α) (obs : Observer ο α) (o' : ο) (hws : ws.directory = .empty)
    (hd : ∀ v ∈ points (deeds acts ⟨ws, o, { host := h }⟩ ++ [d]) { host := h }, v.DistinctIds)
    (hw : w ∈ points [d] (play acts ⟨ws, o, { host := h }⟩).world)
    (hT : Confined (moments
      ((play acts ⟨ws, o, { host := h }⟩).workspace.tickDeeds obs .all o' w) w)) :
    (play acts ⟨ws, o, { host := h }⟩).workspace.RunsOnce w
      (moments ((play acts ⟨ws, o, { host := h }⟩).workspace.tickDeeds obs .all o' w) w)
      ((play acts ⟨ws, o, { host := h }⟩).workspace.tick obs .all o' w).2.2.2 := by
  have hempty : ws.Listed ({ host := h } : World τ α) := fun id c hc => by
    rw [Workspace.find?, hws] at hc
    cases hc
  have hcoh := coherent_empty (τ := τ) h
  have hbegin := fun v hv => hd v (mem_points_append_left _ hv)
  have hafter := fun v hv => hd v (mem_points_append_right
    (deeds acts ⟨ws, o, { host := h }⟩) hv)
  have hlisted := listed_play (s := ⟨ws, o, { host := h }⟩) acts hempty hcoh hbegin
  have hmade := hcoh.points _ hbegin _ (run_mem_points _ _)
  rw [run_deeds acts ⟨ws, o, { host := h }⟩] at hmade hafter
  exact Workspace.tick_runsOnce ⟨hafter w hw, hmade.points [d] hafter w hw⟩
    (hlisted.points hmade [d] hafter w hw) hT

section Sample

/-- A workspace with two contexts, and a third context beside it. An agent of the first one leaves
it during its tick, and the second one, which ticks later, asks for it. -/
def movingActs : List (Act Routine Unit Unit) :=
  let mover : AgentRef := ⟨0⟩
  let taker : AgentRef := ⟨1⟩
  let caller : AgentRef := ⟨2⟩
  [.context ⟨1⟩, .context ⟨2⟩, .deed (.newContext ⟨3⟩ {} 10),
    .deed (.create ⟨"mover", "Agent", 0, ⟨[.here (.remove mover), .here (.add taker)]⟩⟩),
    .deed (.create ⟨"taker", "Agent", 0, ⟨[.here (.add mover), .here (.add caller)]⟩⟩),
    .deed (.create ⟨"caller", "Agent", 0, ⟨[.here .clock, .here .contextId]⟩⟩),
    .deed (.on ⟨0⟩ (.task (.add mover))), .deed (.on ⟨1⟩ (.task (.add taker))),
    .deed (.on ⟨0⟩ (.task (.add caller)))]

/-- The empty workspace in which they begin. -/
def movingStart : Application Routine Unit Unit :=
  ⟨{ config := {}, types := {}, sink := Sink.reporting }, (), { host := { app := () } }⟩

/-- The call is made while the task of one of the agents runs in the third context. -/
theorem runs_once_sample : ∃ w ∈ points [.exec ⟨2⟩ ⟨2⟩] (play movingActs movingStart).world,
    w.runsTask ⟨2⟩ = true ∧
      (play movingActs movingStart).workspace.RunsOnce w
        (moments ((play movingActs movingStart).workspace.tickDeeds Observer.none .all () w) w)
        ((play movingActs movingStart).workspace.tick Observer.none .all () w).2.2.2 := by
  have hids : ∀ v ∈ points (deeds movingActs movingStart ++ [.exec ⟨2⟩ ⟨2⟩]) movingStart.world,
      v.contextIds.Nodup ∧ .invalid ∉ v.contextIds := by decide +kernel
  have hany : (points [.exec ⟨2⟩ ⟨2⟩] (play movingActs movingStart).world).any (fun w =>
      w.runsTask ⟨2⟩ && decide (Confined (moments
        ((play movingActs movingStart).workspace.tickDeeds Observer.none .all () w) w))) = true := by
    decide +kernel
  obtain ⟨w, hw, h⟩ := List.any_eq_true.1 hany
  rw [Bool.and_eq_true, decide_eq_true_iff] at h
  exact ⟨w, hw, h.1, runs_once { app := () } _ () movingActs _ w Observer.none () rfl
    (fun v hv => .of_contextIds (hids v hv)) hw h.2⟩

/-- Two contexts of one id, one of them in the directory: giving up an agent in the other one takes
its place away but leaves it in the buckets, and two contexts run it. -/
example :
    let acts : List (Act Routine Unit Unit) := [.context ⟨1⟩, .context ⟨2⟩,
      .deed (.newContext ⟨1⟩ {} 10), .deed (.create ⟨"twice", "Agent", 0, ⟨[]⟩⟩),
      .deed (.create ⟨"other", "Agent", 0, ⟨[]⟩⟩), .deed (.on ⟨0⟩ (.task (.add ⟨0⟩))),
      .deed (.on ⟨2⟩ (.task (.add ⟨1⟩))), .deed (.on ⟨2⟩ (.task (.remove ⟨0⟩))),
      .deed (.on ⟨1⟩ (.task (.add ⟨0⟩)))]
    let s := play acts movingStart
    ran (moments (s.workspace.tickDeeds Observer.none .all () s.world) s.world) = [⟨0⟩, ⟨0⟩] := by
  decide +kernel

end Sample

end Application

end AgentScheduler
