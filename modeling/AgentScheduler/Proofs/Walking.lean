/-
While a context walks over its agents. Its tasks ask it for what every task may
ask; then nothing changes of the context but its names and values, and requests
that wait at the end of its queues (`Happens.during`). Other contexts are ticked
meanwhile, but none of their moments is one of this context.
-/
import AgentScheduler.Proofs.Coherence

namespace AgentScheduler

/-- A context apart from its names, values and requests. -/
def Context.core (ctx : Context) : Context :=
  { ctx with statics := {}, registry := ctx.registry.seats }

theorem Context.parts_of_core {ctx ctx' : Context} (h : ctx'.core = ctx.core) :
    ctx'.id = ctx.id ∧ ctx'.types = ctx.types ∧ ctx'.clock = ctx.clock ∧
      ctx'.executing = ctx.executing ∧ ctx'.inUse = ctx.inUse ∧
      ctx'.registry.lastId = ctx.registry.lastId ∧
      ctx'.registry.buckets = ctx.registry.buckets ∧ ctx'.registry.index = ctx.registry.index := by
  simp only [Context.core, Registry.seats, Context.mk.injEq, Registry.mk.injEq] at h
  obtain ⟨hid, htypes, ⟨hlast, hbuckets, hindex, -⟩, -, hclock, hx, hu, -⟩ := h
  exact ⟨hid, htypes, hclock, hx, hu, hlast, hbuckets, hindex⟩

section Moments

variable {τ α : Type}

/-- The living agent that a task asks the context `c` to register. -/
def Moment.addition? (c : ContextRef) (m : Moment τ α) : Option AgentRef :=
  match m.what with
  | .asks (.here (.task (.add a))) =>
    if m.context = c ∧ m.world.alive a = true then some a else none
  | _ => none

/-- The living agent that a task asks the context `c` to unregister. -/
def Moment.removal? (c : ContextRef) (m : Moment τ α) : Option AgentRef :=
  match m.what with
  | .asks (.here (.task (.remove a))) =>
    if m.context = c ∧ m.world.alive a = true then some a else none
  | _ => none

/-- The agents that tasks ask the context `c` to register, in the order of the requests. -/
def additions (c : ContextRef) (T : List (Moment τ α)) : List AgentRef :=
  T.filterMap (Moment.addition? c)

/-- The agents that tasks ask the context `c` to unregister, in the order of the requests. -/
def removals (c : ContextRef) (T : List (Moment τ α)) : List AgentRef :=
  T.filterMap (Moment.removal? c)

/-- No request for more than every task may ask of its context. -/
def Happening.isModest : Happening τ α → Bool
  | .asks (.here (.task _)) => true
  | .asks (.here _) => false
  | _ => true

/-- The tasks that the context `c` executes ask it only for what every task may ask. -/
def TaskOpsOnly (c : ContextRef) (T : List (Moment τ α)) : Prop :=
  ∀ m ∈ T, m.context = c → m.what.isModest = true

instance (c : ContextRef) (T : List (Moment τ α)) : Decidable (TaskOpsOnly c T) :=
  List.decidableBAll _ T

variable {c : ContextRef} {m : Moment τ α} {T T' : List (Moment τ α)}

theorem additions_cons : additions c (m :: T) = (m.addition? c).toList ++ additions c T := by
  rw [additions, List.filterMap_cons]
  cases m.addition? c <;> rfl

theorem removals_cons : removals c (m :: T) = (m.removal? c).toList ++ removals c T := by
  rw [removals, List.filterMap_cons]
  cases m.removal? c <;> rfl

theorem additions_append : additions c (T ++ T') = additions c T ++ additions c T' :=
  List.filterMap_append

theorem removals_append : removals c (T ++ T') = removals c T ++ removals c T' :=
  List.filterMap_append

theorem addition?_of_ne (h : m.context ≠ c) : m.addition? c = none := by
  unfold Moment.addition?
  split
  · rw [if_neg fun hc => h hc.1]
  · rfl

theorem removal?_of_ne (h : m.context ≠ c) : m.removal? c = none := by
  unfold Moment.removal?
  split
  · rw [if_neg fun hc => h hc.1]
  · rfl

/-- A request that runs tasks is none for an addition or a removal. -/
theorem asks_of_phase {w : World τ α} {r : Request τ α} {c₀ : ContextRef} {p : Phase}
    (hp : r.phase? c₀ = some p) : (⟨c₀, .asks r, w⟩ : Moment τ α).addition? c = none ∧
      (⟨c₀, .asks r, w⟩ : Moment τ α).removal? c = none := by
  unfold Request.phase? at hp
  split at hp
  · exact ⟨rfl, rfl⟩
  · exact ⟨rfl, rfl⟩
  · exact ⟨rfl, rfl⟩
  · cases hp

end Moments

namespace World

variable {τ α : Type} {w v u : World τ α} {c c₀ : ContextRef} {a : AgentRef} {ctx ctx' : Context}
  {adds adds' removes removes' : List AgentRef}

/-! ## Requests wait -/

/-- A walk of the context is under way. -/
def Walking (c : ContextRef) (w : World τ α) : Prop :=
  ∃ ctx, w.context? c = some ctx ∧ ctx.executing = true ∧ ctx.inUse = true

/-- If the context walks, only names and values of it change, and more requests wait. -/
def Queued (c : ContextRef) (adds removes : List AgentRef) (w v : World τ α) : Prop :=
  ∀ ctx, w.context? c = some ctx → ctx.executing = true → ctx.inUse = true →
    ∃ ctx', v.context? c = some ctx' ∧ ctx'.core = ctx.core ∧
      ctx'.registry.pendingAdd = ctx.registry.pendingAdd ++ adds ∧
      ctx'.registry.pendingRemove = ctx.registry.pendingRemove ++ removes

theorem Queued.of_same (h : v.context? c = w.context? c) : Queued c [] [] w v := by
  intro ctx hc _ _
  rw [List.append_nil, List.append_nil]
  exact ⟨ctx, h.trans hc, rfl, rfl, rfl⟩

theorem Queued.trans (h : Queued c adds removes w v) (h' : Queued c adds' removes' v u) :
    Queued c (adds ++ adds') (removes ++ removes') w u := by
  intro ctx hc hx hu
  obtain ⟨ctx', hc', hcore, hadd, hrem⟩ := h ctx hc hx hu
  obtain ⟨-, -, -, hx', hu', -⟩ := Context.parts_of_core hcore
  obtain ⟨ctx'', hc'', hcore', hadd', hrem'⟩ := h' ctx' hc' (hx'.trans hx) (hu'.trans hu)
  refine ⟨ctx'', hc'', hcore'.trans hcore, ?_, ?_⟩
  · rw [hadd', hadd, List.append_assoc]
  · rw [hrem', hrem, List.append_assoc]

theorem Queued.walking (h : Queued c adds removes w v) (hw : w.Walking c) : v.Walking c := by
  obtain ⟨ctx, hc, hx, hu⟩ := hw
  obtain ⟨ctx', hc', hcore, -⟩ := h ctx hc hx hu
  obtain ⟨-, -, -, hx', hu', -⟩ := Context.parts_of_core hcore
  exact ⟨ctx', hc', hx'.trans hx, hu'.trans hu⟩

theorem Queued.modify (f : Context → Context) (hcore : ∀ ctx, (f ctx).core = ctx.core)
    (hadd : ∀ ctx, (f ctx).registry.pendingAdd = ctx.registry.pendingAdd ++ adds)
    (hrem : ∀ ctx, (f ctx).registry.pendingRemove = ctx.registry.pendingRemove ++ removes) :
    Queued c adds removes w (w.modifyContext c f) := fun ctx hc _ _ =>
  ⟨f ctx, context?_modifyContext_self hc f, hcore ctx, hadd ctx, hrem ctx⟩

/-- A change of names and values alone. -/
theorem Queued.modify_rest (f : Context → Context) (hcore : ∀ ctx, (f ctx).core = ctx.core)
    (hpending : ∀ ctx, (f ctx).registry.pendingAdd = ctx.registry.pendingAdd ∧
      (f ctx).registry.pendingRemove = ctx.registry.pendingRemove) :
    Queued c [] [] w (w.modifyContext c f) :=
  .modify f hcore (fun ctx => by rw [(hpending ctx).1, List.append_nil])
    fun ctx => by rw [(hpending ctx).2, List.append_nil]

theorem bind_queued (name : String) : Queued c [] [] w (w.bind c name a).2 := by
  unfold bind
  split
  · split
    · exact .of_same rfl
    · split
      · exact .of_same rfl
      · exact Queued.modify_rest (w := w) _ (fun _ => rfl) fun _ => ⟨rfl, rfl⟩
  · exact .of_same rfl

theorem unbind_queued (name : String) : Queued c [] [] w (w.unbind c name).2 := by
  have h : Queued c [] [] w (w.modifyRegistry c (·.dropBinding name)) :=
    .modify_rest _ (fun _ => rfl) fun _ => ⟨rfl, rfl⟩
  unfold unbind
  split
  · exact .of_same rfl
  · simp only
    split
    · exact h
    · exact h

theorem setStatic_queued (cls name : String) (x : Value) :
    Queued c [] [] w (w.setStatic c cls name x).2 := by
  unfold setStatic
  split
  · exact .of_same rfl
  · split
    · exact .of_same rfl
    · exact .modify_rest _ (fun _ => rfl) fun _ => ⟨rfl, rfl⟩

theorem addAgent_queued (hw : w.Walking c) :
    Queued c (if w.alive a = true then [a] else []) [] w (w.addAgent c a) := by
  obtain ⟨ctx, hc, hx, -⟩ := hw
  cases hl : w.live? a with
  | none =>
    have hdead : ¬w.alive a = true := by simp [alive, hl]
    simp only [addAgent, hc, hl, if_neg hdead]
    exact .of_same rfl
  | some agent =>
    simp only [addAgent, hc, hl, hx, if_true, if_pos (alive_of_live? hl)]
    exact Queued.modify (w := w) _ (fun _ => rfl) (fun _ => rfl) fun ctx =>
      (List.append_nil ctx.registry.pendingRemove).symm

theorem removeAgent_queued (hw : w.Walking c) :
    Queued c [] (if w.alive a = true then [a] else []) w (w.removeAgent c a) := by
  obtain ⟨ctx, hc, hx, -⟩ := hw
  cases hl : w.live? a with
  | none =>
    have hdead : ¬w.alive a = true := by simp [alive, hl]
    simp only [removeAgent, hc, hl, if_neg hdead]
    exact .of_same rfl
  | some agent =>
    simp only [removeAgent, hc, hl, hx, if_true, if_pos (alive_of_live? hl)]
    exact Queued.modify (w := w) _ (fun _ => rfl)
      (fun ctx => (List.append_nil ctx.registry.pendingAdd).symm) fun _ => rfl

theorem context?_dropContext (c' : ContextRef) (h : c' ≠ c) :
    (w.dropContext c).context? c' = w.context? c' := by
  rw [context?_dropContext_eq, if_neg h]
  exact clearRegistry_edits.other h

theorem context?_dropContext_self (w : World τ α) (c : ContextRef) :
    (w.dropContext c).context? c = none := by
  rw [context?_dropContext_eq, if_pos rfl]

/-- What a task asks of the context that executes it. -/
theorem answerTaskOp_queued (hw : w.Walking c) (t : TaskOp) :
    Queued c ((⟨c, .asks (.here (.task t)), w⟩ : Moment τ α).addition? c).toList
      ((⟨c, .asks (.here (.task t)), w⟩ : Moment τ α).removal? c).toList
      w (w.answerTaskOp c t).2 := by
  cases t with
  | contextId | clock | isExecuting | lookup | getStatic => exact .of_same rfl
  | add a =>
    have h := addAgent_queued (a := a) hw
    simp only [Moment.addition?, Moment.removal?, true_and]
    by_cases ha : w.alive a = true
    · rw [if_pos ha] at h ⊢
      exact h
    · rw [if_neg ha] at h ⊢
      exact h
  | remove a =>
    have h := removeAgent_queued (a := a) hw
    simp only [Moment.addition?, Moment.removal?, true_and]
    by_cases ha : w.alive a = true
    · rw [if_pos ha] at h ⊢
      exact h
    · rw [if_neg ha] at h ⊢
      exact h
  | bind name a => exact bind_queued name
  | unbind name => exact unbind_queued name
  | setStatic cls name x => exact setStatic_queued cls name x

section Tasks

variable [Behavior τ α]

/-- Every request that runs no task. -/
theorem answer_queued (nested : Nested τ α) {r : Request τ α} (hw : w.Walking c)
    (hp : r.phase? c₀ = none)
    (hr : c₀ = c → (Happening.asks r).isModest = true) :
    Queued c ((⟨c₀, .asks r, w⟩ : Moment τ α).addition? c).toList
      ((⟨c₀, .asks r, w⟩ : Moment τ α).removal? c).toList w (w.answer nested c₀ r).2 := by
  obtain ⟨ctx, hc, -, hu⟩ := id hw
  have free {other : ContextRef} {x : Context} (hx : w.context? other = some x)
      (hnot : ¬x.inUse = true) : c ≠ other := by
    rintro rfl
    rw [hc] at hx; cases hx
    exact hnot hu
  cases r with
  | here op =>
    by_cases h : c₀ = c
    · subst h
      have hop := hr rfl
      cases op with
      | task t => exact answerTaskOp_queued hw t
      | _ => cases hop
    · rw [addition?_of_ne h, removal?_of_ne h]
      refine .of_same ((answerContextOp_edits nested op fun he => ?_).other (Ne.symm h))
      rw [he] at hp; cases hp
  | there other op =>
    simp only [answer]
    split
    · exact .of_same rfl
    · next x hx =>
      split
      · exact .of_same rfl
      · next hnot =>
        refine .of_same ((answerContextOp_edits nested op fun he => ?_).other (free hx hnot))
        rw [he] at hp; cases hp
  | dropContext other =>
    simp only [answer]
    split
    · exact .of_same rfl
    · next x hx =>
      split
      · exact .of_same rfl
      · next hnot => exact .of_same (context?_dropContext c (free hx hnot))
  | loadTask b state => exact .of_same ((loadTask_edits state).1 c)
  | exec b => cases hp
  | create | disown | view | saveTask | describeTask | app | setApp | report => exact .of_same rfl

end Tasks

/-! ## What happens meanwhile -/

/-- The phase belongs to another context, or is a tick of this one, which is refused. -/
def Apart (c : ContextRef) (p : Phase) : Prop := p.context ≠ c ∨ p = .tick c

/-- A request of another context's task is served by phases that are apart, too. -/
theorem apart_of_phase {r : Request τ α} {p : Phase} (hp : r.phase? c₀ = some p)
    (hne : c₀ ≠ c) : Apart c p := by
  unfold Request.phase? at hp
  split at hp
  · cases hp
    exact .inl hne
  · next other =>
    cases hp
    by_cases h : other = c
    · exact .inr (by rw [h])
    · exact .inl h
  · cases hp
    exact .inl hne
  · cases hp

/-- What a phase does to the context `c` while that walks. -/
structure During (c : ContextRef) (p : Phase) (w : World τ α) (T : List (Moment τ α))
    (v : World τ α) : Prop where
  queued : Queued c (additions c T) (removals c T) w v
  moments : ∀ m ∈ T, ∃ adds removes, Queued c adds removes w m.world
  apart : Apart c p → ∀ m ∈ T, m.context ≠ c

namespace During

variable {p q q' : Phase} {m : Moment τ α} {T T' : List (Moment τ α)} {w' v' : World τ α}

theorem of_none (h : v.context? c = w.context? c) : During c p w [] v :=
  ⟨.of_same h, fun m hm => (by cases hm), fun _ m hm => (by cases hm)⟩

theorem frame (h : During c q w T v) (hw : w.context? c = w'.context? c)
    (hv : v'.context? c = v.context? c) (hp : Apart c p → Apart c q) : During c p w' T v' where
  queued := by
    have := ((Queued.of_same hw).trans h.queued).trans (.of_same hv)
    rwa [List.append_nil, List.append_nil] at this
  moments m hm := by
    obtain ⟨adds, removes, hq⟩ := h.moments m hm
    exact ⟨_, _, (Queued.of_same hw).trans hq⟩
  apart ha := h.apart (hp ha)

/-- A moment, and what follows. -/
theorem cons (hm : Queued c (m.addition? c).toList (m.removal? c).toList w u)
    (hmw : Queued c adds removes w m.world) (h : During c q u T v)
    (hp : Apart c p → m.context ≠ c ∧ Apart c q) : During c p w (m :: T) v where
  queued := by
    rw [additions_cons, removals_cons]
    exact hm.trans h.queued
  moments := by
    refine List.forall_mem_cons.2 ⟨⟨_, _, hmw⟩, fun m' hm' => ?_⟩
    obtain ⟨adds, removes, hq⟩ := h.moments m' hm'
    exact ⟨_, _, hm.trans hq⟩
  apart ha := List.forall_mem_cons.2 ⟨(hp ha).1, h.apart (hp ha).2⟩

theorem append (h : During c q w T v) (h' : During c q' v T' u)
    (hp : Apart c p → Apart c q ∧ Apart c q') : During c p w (T ++ T') u where
  queued := by
    rw [additions_append, removals_append]
    exact h.queued.trans h'.queued
  moments := by
    refine List.forall_mem_append.2 ⟨h.moments, fun m hm => ?_⟩
    obtain ⟨adds, removes, hm⟩ := h'.moments m hm
    exact ⟨_, _, h.queued.trans hm⟩
  apart ha := List.forall_mem_append.2 ⟨h.apart (hp ha).1, h'.apart (hp ha).2⟩

end During

variable [Behavior τ α]

/-- Whatever happens while the context walks. -/
theorem Happens.during {p : Phase} {T : List (Moment τ α)} (h : Happens p w T v)
    (hT : TaskOpsOnly c T) (hw : w.Walking c) : During c p w T v := by
  induction h with
  | done | noExec | finish | noTick => exact .of_none rfl
  | refuse e => exact .of_none rfl
  | @serve c₀ r w v T nested hp _ ih =>
    obtain ⟨hT₀, hT⟩ := List.forall_mem_cons.1 hT
    have hq : Queued c _ _ w (w.answer nested c₀ r).2 :=
      answer_queued nested hw hp hT₀
    refine .cons hq (.of_same rfl) (ih hT (hq.walking hw)) fun ha => ?_
    exact ⟨ha.resolve_right nofun, ha⟩
  | @call c₀ r p w v u T T' hp _ _ ih ih' =>
    obtain ⟨hT, hT'⟩ := List.forall_mem_append.1 (List.forall_mem_cons.1 hT).2
    have hin := ih hT hw
    have hout := ih' hT' (hin.queued.walking hw)
    obtain ⟨hadd, hrem⟩ := asks_of_phase (c := c) (w := w) hp
    refine .cons (u := w) ?_ (.of_same rfl) (hin.append (p := .task c₀) hout fun ha => ?_)
      fun ha => ⟨ha.resolve_right nofun, ha⟩
    · rw [hadd, hrem]
      exact .of_same rfl
    · exact ⟨apart_of_phase hp (ha.resolve_right nofun), ha⟩
  | @exec c₀ a w v T agent status task _ _ _ ih =>
    have hin : During c (.task c₀) w T v := (ih (List.forall_mem_append.1 hT).1 hw).frame rfl rfl id
    have hend : During c (.task c₀) v [⟨c₀, .ends a status, v.endTask a task⟩] (v.endTask a task) :=
      .cons (u := v.endTask a task) (.of_same rfl) (.of_same rfl) (q := .task c₀) (.of_none rfl)
        fun ha => ⟨ha.resolve_right nofun, ha⟩
    refine hin.append hend fun ha => ?_
    have hne : c₀ ≠ c := ha.resolve_right nofun
    exact ⟨.inl hne, .inl hne⟩
  | pass _ _ ih =>
    refine .cons (.of_same rfl) (.of_same rfl) (ih (List.forall_mem_cons.1 hT).2 hw) fun ha => ?_
    have hne := ha.resolve_right nofun
    exact ⟨hne, .inl hne⟩
  | @skip _ _ _ w _ _ _ _ _ e _ ih =>
    have hrest := ih (List.forall_mem_cons.1 hT).2 hw
    refine .cons (u := w.report e) (.of_same rfl) (.of_same rfl) hrest fun ha => ?_
    have hne := ha.resolve_right nofun
    exact ⟨hne, .inl hne⟩
  | @visit c₀ a l w v u T T' agent status task _ _ _ _ ih ih' =>
    obtain ⟨hT, hT'⟩ := List.forall_mem_append.1 (List.forall_mem_cons.1 hT).2
    have hin : During c (.task c₀) w T v := (ih hT hw).frame rfl rfl id
    have hout := ih' (List.forall_mem_cons.1 hT').2 (hin.queued.walking hw)
    have hne (ha : Apart c (.walk c₀ (a :: l))) : c₀ ≠ c := ha.resolve_right nofun
    have hend : During c (.walk c₀ l) v (⟨c₀, .ends a status, v.endTask a task⟩ :: T') u :=
      .cons (u := v.endTask a task) (.of_same rfl) (.of_same rfl) hout fun ha =>
        ⟨ha.resolve_right nofun, ha⟩
    refine .cons (u := w) (.of_same rfl) (.of_same rfl) (q := .task c₀)
      (hin.append hend fun ha => ?_) fun ha => ⟨hne ha, .inl (hne ha)⟩
    exact ⟨ha, .inl (ha.resolve_right nofun)⟩
  | @tick c₀ w v T ctx hc hx _ e ih =>
    have hne : c ≠ c₀ := by
      rintro rfl
      obtain ⟨x, hc', hx', -⟩ := hw
      rw [hc] at hc'; cases hc'
      rw [hx] at hx'; cases hx'
    have hsame : (w.startWalk c₀).context? c = w.context? c := context?_modifyContext_ne hne _
    have hwalk : (w.startWalk c₀).Walking c := (Queued.of_same hsame).walking hw
    have hend : ((v.finishWalk c₀ ctx.inUse).2.report e).context? c = v.context? c := by
      rw [context?_report, finishWalk_other hne]
    exact (ih hT hwalk).frame hsame hend fun _ => .inl (Ne.symm hne)

end World

end AgentScheduler
