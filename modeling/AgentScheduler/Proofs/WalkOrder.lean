/-
The order of a walk. A tick comes to the agents that are registered when it
begins, by priority and then by id, and to no other; what its tasks ask for
waits. `walk_in_order` says so for every tick of a context between ticks, and
how the report counts what the walk did. It tells a tick by its moments, which
are those that the tick is put together of, each run of a task being the run of
its program (`walk_runsTask`).
-/
import AgentScheduler.Proofs.Walking

namespace AgentScheduler

/-- How a walk leaves a registration that it comes to. -/
inductive Stop
  | passed | skipped | ran
  deriving DecidableEq

/-- What a visit amounts to. -/
def Visit.stop : Visit → Stop
  | .stale => .passed
  | .busy => .skipped
  | .ran _ => .ran

/-- How the task ended, if it ran. -/
def Visit.status? : Visit → Option Status
  | .ran status => some status
  | _ => none

section Moments

variable {τ α : Type}

/-- The agent that a walk comes to. -/
def Happening.stop? : Happening τ α → Option (AgentRef × Stop)
  | .passes a => some (a, .passed)
  | .skips a => some (a, .skipped)
  | .runs a => some (a, .ran)
  | _ => none

/-- The agent whose task is through. -/
def Happening.result? : Happening τ α → Option (AgentRef × Status)
  | .ends a status => some (a, status)
  | _ => none

/-- The agents that the walk of a context comes to, in order. -/
def stops (c : ContextRef) (T : List (Moment τ α)) : List (AgentRef × Stop) :=
  T.filterMap fun m => if m.context = c then m.what.stop? else none

/-- The results of the tasks that a context executes, in order. -/
def results (c : ContextRef) (T : List (Moment τ α)) : List (AgentRef × Status) :=
  T.filterMap fun m => if m.context = c then m.what.result? else none

variable {c : ContextRef} {m : Moment τ α} {T T' : List (Moment τ α)}

theorem stops_cons : stops c (m :: T) =
    (if m.context = c then m.what.stop? else none).toList ++ stops c T := by
  rw [stops, List.filterMap_cons]
  cases if m.context = c then m.what.stop? else none <;> rfl

theorem stops_append : stops c (T ++ T') = stops c T ++ stops c T' := List.filterMap_append

theorem results_cons : results c (m :: T) =
    (if m.context = c then m.what.result? else none).toList ++ results c T := by
  rw [results, List.filterMap_cons]
  cases if m.context = c then m.what.result? else none <;> rfl

theorem results_append : results c (T ++ T') = results c T ++ results c T' := List.filterMap_append

/-- No task that the context executes asks it to run another. -/
def NoExec (c : ContextRef) (T : List (Moment τ α)) : Prop :=
  ∀ m ∈ T, m.context = c → ∀ a, m.what ≠ .asks (.exec a)

/-- Where two lists in a row hold something that the first one lacks, it is in the second. -/
theorem eq_append_of_not_mem {β : Type} {x : β} {l r before after : List β} (hx : x ∉ l)
    (h : l ++ r = before ++ x :: after) : ∃ mid, before = l ++ mid ∧ r = mid ++ x :: after := by
  rcases List.append_eq_append_iff.1 h with hcut | ⟨cut, hl, hr⟩
  · exact hcut
  · cases cut with
    | nil => exact ⟨[], by rw [hl, List.append_nil, List.append_nil], hr.symm⟩
    | cons y cut =>
      obtain ⟨rfl, -⟩ := List.cons.inj hr
      exact absurd (by simp [hl]) hx

/-- The moments of a context show nothing of a kind that none of them is. -/
theorem filterMap_own {β : Type} {f : Happening τ α → Option β}
    (h : ∀ m ∈ T, m.context = c → f m.what = none) :
    (T.filterMap fun m => if m.context = c then f m.what else none) = [] := by
  rw [List.filterMap_eq_nil_iff]
  intro m hm
  split
  · next hc => exact h m hm hc
  · rfl

end Moments

namespace World

variable {τ α : Type} [Behavior τ α] {w v : World τ α} {c c₀ : ContextRef} {a : AgentRef}
  {ctx ctx' : Context} {T : List (Moment τ α)} {p : Phase}

/-! ## The moments of a task -/

/-- While the context executes a task, its moments are requests, and ends of tasks that it was
asked to run. -/
theorem Happens.own_moments (h : Happens p w T v) (hT : TaskOpsOnly c T) (hw : w.Walking c)
    (hp : p = .task c ∨ ∃ a, p = .exec c a) : ∀ m ∈ T, m.context = c →
      (∃ r, m.what = .asks r) ∨ ∃ a status, m.what = .ends a status ∧
        (p = .exec c a ∨ ∃ m' ∈ T, m'.context = c ∧ m'.what = .asks (.exec a)) := by
  induction h with
  | done | noExec => exact fun m hm => by cases hm
  | @serve c₀ r w v T nested hr _ ih =>
    obtain rfl : c₀ = c := by
      rcases hp with hp | ⟨_, hp⟩
      · cases hp; rfl
      · cases hp
    obtain ⟨hT₀, hT⟩ := List.forall_mem_cons.1 hT
    have hq := answer_queued nested hw hr hT₀
    refine List.forall_mem_cons.2 ⟨fun _ => .inl ⟨r, rfl⟩, fun m hm hmc => ?_⟩
    refine (ih hT (hq.walking hw) (.inl rfl) m hm hmc).imp_right ?_
    rintro ⟨b, status, he, hb | ⟨m', hm', hb⟩⟩
    · cases hb
    · exact ⟨b, status, he, .inr ⟨m', List.mem_cons_of_mem _ hm', hb⟩⟩
  | @call c₀ r p w v u T T' hr h _ ih ih' =>
    obtain rfl : c₀ = c := by
      rcases hp with hp | ⟨_, hp⟩
      · cases hp; rfl
      · cases hp
    obtain ⟨hin, hout⟩ := List.forall_mem_append.1 (List.forall_mem_cons.1 hT).2
    have hd := h.during hin hw
    refine List.forall_mem_cons.2 ⟨fun _ => .inl ⟨r, rfl⟩,
      List.forall_mem_append.2 ⟨fun m hm hmc => ?_, fun m hm hmc => ?_⟩⟩
    · by_cases ha : Apart c₀ p
      · exact absurd hmc (hd.apart ha m hm)
      · -- the request runs a task here
        obtain ⟨b, rfl, rfl⟩ : ∃ b, r = .exec b ∧ p = .exec c₀ b := by
          unfold Request.phase? at hr
          split at hr
          · cases hr; exact absurd (.inr rfl) ha
          · next other =>
            cases hr
            by_cases ho : other = c₀
            · exact absurd (.inr (by rw [ho])) ha
            · exact absurd (.inl ho) ha
          · next b => cases hr; exact ⟨b, rfl, rfl⟩
          · cases hr
        refine (ih hin hw (.inr ⟨b, rfl⟩) m hm hmc).imp_right ?_
        rintro ⟨b', status, he, hb | ⟨m', hm', hb⟩⟩
        · cases hb
          exact ⟨b, status, he, .inr ⟨_, List.mem_cons_self, rfl, rfl⟩⟩
        · refine ⟨b', status, he, .inr ⟨m', ?_, hb⟩⟩
          exact List.mem_cons_of_mem _ (List.mem_append_left _ hm')
    · refine (ih' hout (hd.queued.walking hw) (.inl rfl) m hm hmc).imp_right ?_
      rintro ⟨b', status, he, hb | ⟨m', hm', hb⟩⟩
      · cases hb
      · refine ⟨b', status, he, .inr ⟨m', ?_, hb⟩⟩
        exact List.mem_cons_of_mem _ (List.mem_append_right _ hm')
  | @exec c₀ a w v T agent status task _ _ _ ih =>
    obtain rfl : c₀ = c := by
      rcases hp with hp | ⟨_, hp⟩
      · cases hp
      · cases hp; rfl
    refine List.forall_mem_append.2 ⟨fun m hm hmc => ?_, List.forall_mem_singleton.2 fun _ => ?_⟩
    · refine (ih (List.forall_mem_append.1 hT).1 hw (.inl rfl) m hm hmc).imp_right ?_
      rintro ⟨b, status, he, hb | ⟨m', hm', hb⟩⟩
      · cases hb
      · exact ⟨b, status, he, .inr ⟨m', List.mem_append_left _ hm', hb⟩⟩
    · exact .inr ⟨a, status, rfl, .inl rfl⟩
  | finish | pass | skip | visit | tick | refuse | noTick =>
    rcases hp with hp | ⟨_, hp⟩
    · cases hp
    · cases hp

/-- A walk comes to no agent of the context while the context executes a task. -/
theorem stops_task (h : Happens (.task c) w T v) (hT : TaskOpsOnly c T) (hw : w.Walking c) :
    stops c T = [] := by
  refine filterMap_own fun m hm hc => ?_
  rcases h.own_moments hT hw (.inl rfl) m hm hc with ⟨r, he⟩ | ⟨a, status, he, -⟩
  · rw [he]; rfl
  · rw [he]; rfl

/-- Unless it is asked to, the context runs no other task meanwhile. -/
theorem results_task (h : Happens (.task c) w T v) (hT : TaskOpsOnly c T) (hw : w.Walking c)
    (hn : NoExec c T) : results c T = [] := by
  refine filterMap_own fun m hm hc => ?_
  rcases h.own_moments hT hw (.inl rfl) m hm hc with
    ⟨r, he⟩ | ⟨a, status, he, hb | ⟨m', hm', hc', hb⟩⟩
  · rw [he]; rfl
  · cases hb
  · exact absurd hb (hn m' hm' hc' a)

/-! ## The stops of a walk -/

/-- A walk comes to its agents, one after the other, and its visits say how it left them. -/
theorem walk_stops {nested : Nested τ α} {inner : NestedMoments τ α} {l : List AgentRef}
    (ht : Traced nested inner) (hw : w.Walking c)
    (hT : TaskOpsOnly c (walkMoments nested inner c l w)) :
    (w.walk nested c l).1.length = l.length ∧
      stops c (walkMoments nested inner c l w) = l.zip ((w.walk nested c l).1.map Visit.stop) ∧
      (NoExec c (walkMoments nested inner c l w) → results c (walkMoments nested inner c l w) =
        (l.zip (w.walk nested c l).1).filterMap fun e => e.2.status?.map (e.1, ·)) := by
  induction l generalizing w with
  | nil => exact ⟨rfl, rfl, fun _ => rfl⟩
  | cons a l ih =>
    have hfirst := walk_firstStop nested inner c l a w
    generalize w.walk nested c (a :: l) = r, walkMoments nested inner c (a :: l) w = T
      at hfirst hT ⊢
    cases hfirst with
    | pass hl =>
      obtain ⟨hlen, hstops, hres⟩ := ih hw (List.forall_mem_cons.1 hT).2
      refine ⟨congrArg (· + 1) hlen, ?_, fun hn => ?_⟩
      · rw [stops_cons, hstops, if_pos rfl]
        rfl
      · rw [results_cons, hres (List.forall_mem_cons.1 hn).2, if_pos rfl]
        rfl
    | skip hl hr e =>
      obtain ⟨hlen, hstops, hres⟩ := ih (w := w.report e) hw (List.forall_mem_cons.1 hT).2
      refine ⟨congrArg (· + 1) hlen, ?_, fun hn => ?_⟩
      · rw [stops_cons, hstops, if_pos rfl]
        rfl
      · rw [results_cons, hres (List.forall_mem_cons.1 hn).2, if_pos rfl]
        rfl
    | @run agent status task v hl hr h =>
      have hprog := program_happens (c := c) (w := w.startTask a) ht (Behavior.exec a agent.task)
      rw [h] at hprog
      obtain ⟨hT₁, hT₂⟩ := List.forall_mem_append.1 (List.forall_mem_cons.1 hT).2
      have hv : v.Walking c := (hprog.during hT₁ hw).queued.walking hw
      obtain ⟨hlen, hstops, hres⟩ := ih (w := v.endTask a task) hv (List.forall_mem_cons.1 hT₂).2
      refine ⟨congrArg (· + 1) hlen, ?_, fun hn => ?_⟩
      · rw [stops_cons, stops_append, stops_cons, stops_task hprog hT₁ hw, hstops, if_pos rfl,
          if_pos rfl]
        rfl
      · obtain ⟨hn₁, hn₂⟩ := List.forall_mem_append.1 (List.forall_mem_cons.1 hn).2
        rw [results_cons, results_append, results_cons, results_task hprog hT₁ hw hn₁,
          hres (List.forall_mem_cons.1 hn₂).2, if_pos rfl, if_pos rfl]
        rfl

/-- The task of a living agent is run in a world: the moments that follow are those of its
program, up to its end, when the agent has the result. -/
def RunsTask (nested : Nested τ α) (c : ContextRef) (a : AgentRef) (u : World τ α)
    (next : List (Moment τ α)) : Prop :=
  ∃ agent status task v, u.live? a = some agent ∧ agent.running = false ∧
    (Behavior.exec a agent.task).run nested c (u.startTask a) = ((status, task), v) ∧
    ∃ meanwhile rest, Happens (.task c) (u.startTask a) meanwhile v ∧
      next = meanwhile ++ ⟨c, .ends a status, v.endTask a task⟩ :: rest

/-- Where a walk runs a task, it runs the program of that task. -/
theorem walk_runsTask {nested : Nested τ α} {inner : NestedMoments τ α} {l : List AgentRef}
    {before after : List (Moment τ α)} {u : World τ α} (ht : Traced nested inner)
    (hw : w.Walking c) (hT : TaskOpsOnly c (walkMoments nested inner c l w))
    (hsplit : walkMoments nested inner c l w = before ++ ⟨c, .runs a, u⟩ :: after) :
    RunsTask nested c a u after := by
  induction l generalizing w before with
  | nil => simp [walkMoments] at hsplit
  | cons b l ih =>
    have hfirst := walk_firstStop nested inner c l b w
    generalize w.walk nested c (b :: l) = r, walkMoments nested inner c (b :: l) w = T
      at hfirst hT hsplit
    cases hfirst with
    | pass hl =>
      obtain ⟨mid, -, hrest⟩ := eq_append_of_not_mem (l := [_]) (by simp) hsplit
      exact ih hw (List.forall_mem_cons.1 hT).2 hrest
    | skip hl hr e =>
      obtain ⟨mid, -, hrest⟩ := eq_append_of_not_mem (l := [_]) (by simp) hsplit
      exact ih (w := w.report e) hw (List.forall_mem_cons.1 hT).2 hrest
    | @run agent status task v hl hr h =>
      have hprog := program_happens (c := c) (w := w.startTask b) ht (Behavior.exec b agent.task)
      rw [h] at hprog
      obtain ⟨hT₁, hT₂⟩ := List.forall_mem_append.1 (List.forall_mem_cons.1 hT).2
      have hv : v.Walking c := (hprog.during hT₁ hw).queued.walking hw
      cases before with
      | nil =>
        obtain ⟨hhead, rfl⟩ := List.cons.inj hsplit
        cases hhead
        exact ⟨agent, status, task, v, hl, hr, h, _, _, hprog, rfl⟩
      | cons m before =>
        obtain ⟨-, hsplit⟩ := List.cons.inj hsplit
        -- the walk comes to nobody while the task runs
        have hnot : ⟨c, .runs a, u⟩ ∉
            programMoments nested inner c (Behavior.exec b agent.task) (w.startTask b) := by
          intro hm
          have hnone := List.filterMap_eq_nil_iff.1 (stops_task hprog hT₁ hw) _ hm
          simp [Happening.stop?] at hnone
        obtain ⟨mid, -, hsplit⟩ := eq_append_of_not_mem hnot hsplit
        obtain ⟨mid, -, hrest⟩ := eq_append_of_not_mem (l := [_]) (by simp) hsplit
        exact ih (w := v.endTask b task) hv (List.forall_mem_cons.1 hT₂).2 hrest

/-- What a walk comes to is as it says. -/
theorem Happens.stop_true (h : Happens p w T v) : ∀ m ∈ T,
    (∀ a, m.what = .passes a → m.world.live? a = none) ∧
    (∀ a, m.what = .skips a → ∃ agent, m.world.live? a = some agent ∧ agent.running = true) ∧
    (∀ a, m.what = .runs a → ∃ agent, m.world.live? a = some agent ∧ agent.running = false) := by
  induction h with
  | done | noExec | finish | refuse | noTick => exact fun m hm => by cases hm
  | serve _ _ _ ih => exact List.forall_mem_cons.2 ⟨⟨nofun, nofun, nofun⟩, ih⟩
  | call _ _ _ ih ih' =>
    exact List.forall_mem_cons.2 ⟨⟨nofun, nofun, nofun⟩, List.forall_mem_append.2 ⟨ih, ih'⟩⟩
  | exec _ _ _ ih =>
    exact List.forall_mem_append.2 ⟨ih, List.forall_mem_singleton.2 ⟨nofun, nofun, nofun⟩⟩
  | pass hl _ ih =>
    exact List.forall_mem_cons.2 ⟨⟨fun _ he => by cases he; exact hl, nofun, nofun⟩, ih⟩
  | skip hl hr _ _ ih =>
    exact List.forall_mem_cons.2 ⟨⟨nofun, fun _ he => by cases he; exact ⟨_, hl, hr⟩, nofun⟩, ih⟩
  | visit hl hr _ _ ih ih' =>
    refine List.forall_mem_cons.2 ⟨⟨nofun, nofun, fun _ he => by cases he; exact ⟨_, hl, hr⟩⟩, ?_⟩
    exact List.forall_mem_append.2 ⟨ih, List.forall_mem_cons.2 ⟨⟨nofun, nofun, nofun⟩, ih'⟩⟩
  | tick _ _ _ _ ih => exact ih

end World

/-! ## The report of a walk -/

namespace TickReport

/-- What visits add to a report. -/
theorem foldl_visit (visits : List Visit) (r : TickReport) :
    (visits.foldl visit r).stale = r.stale + visits.countP (·.stop = .passed) ∧
      (visits.foldl visit r).executed = r.executed + visits.countP (·.stop = .ran) ∧
      (visits.foldl visit r).success = r.success + visits.countP (·.status? = some .success) ∧
      (visits.foldl visit r).failure = r.failure + visits.countP (·.status? = some .failure) ∧
      (visits.foldl visit r).running = r.running + visits.countP (·.status? = some .running) := by
  induction visits generalizing r with
  | nil => simp
  | cons x visits ih =>
    obtain ⟨h₁, h₂, h₃, h₄, h₅⟩ := ih (r.visit x)
    rw [List.foldl_cons, h₁, h₂, h₃, h₄, h₅]
    rcases x with _ | _ | (_ | _ | _) <;>
      simp [visit, count, Visit.stop, Visit.status?, Nat.add_assoc, Nat.add_comm]

/-- Every task that ran ended in one of three ways. -/
theorem countP_ran (visits : List Visit) : visits.countP (·.stop = .ran) =
    visits.countP (·.status? = some .success) + visits.countP (·.status? = some .failure) +
      visits.countP (·.status? = some .running) := by
  induction visits with
  | nil => rfl
  | cons x visits ih =>
    rcases x with _ | _ | (_ | _ | _) <;>
      simp [Visit.stop, Visit.status?] at ih ⊢ <;> omega

/-- The agents whose tasks ran, with or without their results. -/
theorem ran_zip (l : List AgentRef) (visits : List Visit) :
    ((l.zip visits).filterMap fun e => e.2.status?.map (e.1, ·)).map Prod.fst =
      ((l.zip (visits.map Visit.stop)).filter (·.2 = .ran)).map Prod.fst := by
  induction l generalizing visits with
  | nil => rfl
  | cons a l ih =>
    cases visits with
    | nil => rfl
    | cons x visits =>
      have := ih visits
      rcases x with _ | _ | _ <;> simpa [Visit.stop, Visit.status?] using this

/-- The results of the visits, counted with their agents or without. -/
theorem countP_zip {l : List AgentRef} {visits : List Visit} (h : visits.length = l.length)
    (status : Status) :
    ((l.zip visits).filterMap fun e => e.2.status?.map (e.1, ·)).countP (·.2 = status) =
      visits.countP (·.status? = some status) := by
  induction visits generalizing l with
  | nil => rw [List.length_eq_zero_iff.1 h.symm]; rfl
  | cons x visits ih =>
    cases l with
    | nil => cases h
    | cons a l =>
      have := ih (Nat.succ.inj h)
      rcases x with _ | _ | _ <;> simpa [Visit.status?, List.countP_cons] using this

/-- Every visit has one of three outcomes. -/
theorem length_visits (visits : List Visit) : visits.length =
    visits.countP (·.stop = .ran) + visits.countP (·.stop = .passed) +
      visits.countP (·.stop = .skipped) := by
  induction visits with
  | nil => rfl
  | cons x visits ih =>
    rcases x with _ | _ | _ <;> simp [Visit.stop] at ih ⊢ <;> omega

end TickReport

namespace World

variable {τ α : Type} [Behavior τ α] {w v : World τ α} {c : ContextRef} {a : AgentRef}
  {ctx ctx' : Context} {T : List (Moment τ α)}

/-! ## A tick -/

/-- The world at the end of the walk of a tick. -/
def walkEnd (n : Nat) (w : World τ α) (c : ContextRef) (ctx : Context) : World τ α :=
  ((w.startWalk c).walk (nested n) c ctx.registry.walkOrder).2

/-- The worlds of the walk of a tick. -/
def walkWorlds (n : Nat) (w : World τ α) (c : ContextRef) (ctx : Context) : List (World τ α) :=
  (w.tickMoments n c).map (·.world) ++ [w.walkEnd n c ctx]

theorem tickMoments_eq (n : Nat) (hc : w.context? c = some ctx) (hx : ctx.executing = false) :
    w.tickMoments n c =
      walkMoments (nested n) (nestedMoments n) c ctx.registry.walkOrder (w.startWalk c) := by
  simp only [tickMoments, tickMomentsWith, hc, hx]
  rfl

theorem tickMoments_eq_nil (n : Nat)
    (h : ∀ ctx, w.context? c = some ctx → ctx.executing = true) : w.tickMoments n c = [] := by
  unfold tickMoments tickMomentsWith
  cases hc : w.context? c with
  | none => rfl
  | some ctx => simp only [h ctx hc, if_true]

omit [Behavior τ α] in
theorem walking_startWalk (hc : w.context? c = some ctx) : (w.startWalk c).Walking c :=
  ⟨_, context?_modifyContext_self hc _, rfl, rfl⟩

omit [Behavior τ α] in
/-- What a report counts of the visits of a walk. -/
theorem counted_tickReport (visits : List Visit) (counts : Nat × Nat) (c : ContextRef)
    (w : World τ α) :
    (tickReport visits counts c w).stale = visits.countP (·.stop = .passed) ∧
      (tickReport visits counts c w).executed = visits.countP (·.stop = .ran) ∧
      (tickReport visits counts c w).success = visits.countP (·.status? = some .success) ∧
      (tickReport visits counts c w).failure = visits.countP (·.status? = some .failure) ∧
      (tickReport visits counts c w).running = visits.countP (·.status? = some .running) := by
  have hcounts := TickReport.foldl_visit visits {}
  simp only [Nat.zero_add] at hcounts
  exact hcounts

/-- The report of a tick, and the world after it. -/
theorem tickWith_parts (n : Nat) (hc : w.context? c = some ctx) (hx : ctx.executing = false) :
    (w.tickWith (nested n) c).1 =
        tickReport ((w.startWalk c).walk (nested n) c ctx.registry.walkOrder).1
          ((w.walkEnd n c ctx).finishWalk c ctx.inUse).1 c
          ((w.walkEnd n c ctx).finishWalk c ctx.inUse).2 ∧
      ∃ e, (w.tickWith (nested n) c).2 =
        ((w.walkEnd n c ctx).finishWalk c ctx.inUse).2.report e := by
  rw [tickWith_eq hc hx]
  exact ⟨rfl, _, rfl⟩

/-- The walk of a tick, as what happens. -/
theorem tickWalk_happens (n : Nat) (hc : w.context? c = some ctx) (hx : ctx.executing = false) :
    Happens (.walk c ctx.registry.walkOrder) (w.startWalk c) (w.tickMoments n c)
      (w.walkEnd n c ctx) := by
  rw [tickMoments_eq n hc hx]
  exact walk_happens (traced_nested n) _

theorem tickWalk_during (n : Nat) (hc : w.context? c = some ctx) (hx : ctx.executing = false)
    (hT : TaskOpsOnly c (w.tickMoments n c)) :
    During c (.walk c ctx.registry.walkOrder) (w.startWalk c) (w.tickMoments n c)
      (w.walkEnd n c ctx) :=
  (tickWalk_happens n hc hx).during hT (walking_startWalk hc)

/-- Contexts and agents agree in all worlds of a walk. -/
theorem coherent_walkWorlds (n : Nat) (hw : w.DistinctIds ∧ w.Coherent)
    (hc : w.context? c = some ctx) (hx : ctx.executing = false) :
    ∀ v ∈ w.walkWorlds n c ctx, v.DistinctIds ∧ v.Coherent := by
  have hstart := coherent_durable.startWalk hc hx hw
  obtain ⟨hend, hmoments⟩ := coherent_durable.happens (tickWalk_happens n hc hx) hstart
  intro v hv
  rcases List.mem_append.1 hv with hv | hv
  · obtain ⟨m, hm, rfl⟩ := List.mem_map.1 hv
    exact hmoments m hm
  · exact List.mem_singleton.1 hv ▸ hend

/-- In all worlds of a walk, the context is as at its start but for names, values and
requests. -/
theorem core_walkWorlds (n : Nat) (hc : w.context? c = some ctx) (hx : ctx.executing = false)
    (hT : TaskOpsOnly c (w.tickMoments n c)) : ∀ v ∈ w.walkWorlds n c ctx, ∃ ctx',
      v.context? c = some ctx' ∧
        ctx'.core = { ctx with executing := true, inUse := true : Context }.core := by
  have hd := tickWalk_during n hc hx hT
  have hstart := context?_modifyContext_self hc
    fun ctx => { ctx with executing := true, inUse := true }
  intro v hv
  rcases List.mem_append.1 hv with hv | hv
  · obtain ⟨m, hm, rfl⟩ := List.mem_map.1 hv
    obtain ⟨adds, removes, hq⟩ := hd.moments m hm
    obtain ⟨ctx', hc', hcore, -⟩ := hq _ hstart rfl rfl
    exact ⟨ctx', hc', hcore⟩
  · rw [List.mem_singleton.1 hv]
    obtain ⟨ctx', hc', hcore, -⟩ := hd.queued _ hstart rfl rfl
    exact ⟨ctx', hc', hcore⟩

/-- What a tick of the context `ctx` comes to, and what it leaves alone meanwhile. -/
structure WalkInOrder (n : Nat) (w : World τ α) (c : ContextRef) (ctx : Context) : Prop where
  /-- The moments are those of the tick itself. -/
  happens : Happens (.tick c) w (w.tickMoments n c) (w.tickWith (nested n) c).2
  /-- The registrations are listed by priority and then by id, and all of them. -/
  sorted : ctx.registry.entries.Pairwise Registry.Before
  complete : ∀ p i, ctx.registry.index.get? i = some p ↔ ∃ a, (p, i, a) ∈ ctx.registry.entries
  /-- The walk comes to each of them, in this order, and to nothing else. -/
  visited : (stops c (w.tickMoments n c)).map Prod.fst = ctx.registry.entries.map (·.2.2)
  /-- It passes by an agent that is gone, skips one whose task runs, and runs all others. -/
  passes : ∀ m ∈ w.tickMoments n c, ∀ a, m.what = .passes a → m.world.live? a = none
  skips : ∀ m ∈ w.tickMoments n c, ∀ a, m.what = .skips a →
    ∃ agent, m.world.live? a = some agent ∧ agent.running = true
  runs : ∀ m ∈ w.tickMoments n c, ∀ a, m.what = .runs a →
    ∃ agent, m.world.live? a = some agent ∧ agent.running = false
  /-- To run a task is to run its program. -/
  executes : ∀ before a u after, w.tickMoments n c = before ++ ⟨c, .runs a, u⟩ :: after →
    RunsTask (nested n) c a u after
  /-- The tasks that the walk runs are the tasks that the context runs, unless one is asked to
  run another. -/
  once : NoExec c (w.tickMoments n c) → (results c (w.tickMoments n c)).map Prod.fst =
    ((stops c (w.tickMoments n c)).filter (·.2 = .ran)).map Prod.fst
  /-- Meanwhile the context walks, and its clock and its registrations stand still. -/
  still : ∀ v ∈ w.walkWorlds n c ctx, ∃ ctx', v.context? c = some ctx' ∧
    ctx'.executing = true ∧ ctx'.clock = ctx.clock ∧ ctx'.registry.index = ctx.registry.index ∧
    ctx'.registry.buckets = ctx.registry.buckets ∧ ctx'.registry.lastId = ctx.registry.lastId
  kept : ∀ v ∈ w.walkWorlds n c ctx, ∀ p i a agent, (p, i, a) ∈ ctx.registry.entries →
    v.live? a = some agent → agent.place = ⟨ctx.id, i⟩ ∧ agent.priority = p
  /-- The report counts what the walk passed by and what it ran. -/
  stale : (w.tickWith (nested n) c).1.stale =
    (stops c (w.tickMoments n c)).countP (·.2 = .passed)
  executed : (w.tickWith (nested n) c).1.executed =
    (stops c (w.tickMoments n c)).countP (·.2 = .ran)
  outcomes : (w.tickWith (nested n) c).1.executed = (w.tickWith (nested n) c).1.success +
    (w.tickWith (nested n) c).1.failure + (w.tickWith (nested n) c).1.running
  /-- It tells the tasks apart by their results. -/
  tallied : NoExec c (w.tickMoments n c) →
    (w.tickWith (nested n) c).1.success =
        (results c (w.tickMoments n c)).countP (·.2 = .success) ∧
      (w.tickWith (nested n) c).1.failure =
        (results c (w.tickMoments n c)).countP (·.2 = .failure) ∧
      (w.tickWith (nested n) c).1.running =
        (results c (w.tickMoments n c)).countP (·.2 = .running)
  accounted : ctx.registry.entries.length = (w.tickWith (nested n) c).1.executed +
    (w.tickWith (nested n) c).1.stale + (stops c (w.tickMoments n c)).countP (·.2 = .skipped)

/-- A tick whose tasks ask their context only for what every task may ask is a walk in order. -/
theorem walk_in_order (n : Nat) (w : World τ α) (c : ContextRef) (ctx : Context)
    (hids : w.DistinctIds) (hcoh : w.Coherent) (hc : w.context? c = some ctx)
    (hx : ctx.executing = false) (hT : TaskOpsOnly c (w.tickMoments n c)) :
    w.WalkInOrder n c ctx := by
  have hsound := hcoh.sound c ctx hc
  have htrue := (tickWalk_happens n hc hx).stop_true
  -- the stops and results are those of the visits
  have hwalk := walk_stops (traced_nested n) (walking_startWalk hc)
    (l := ctx.registry.walkOrder) (tickMoments_eq n hc hx ▸ hT)
  rw [← tickMoments_eq n hc hx] at hwalk
  obtain ⟨hlen, hstops, hresults⟩ := hwalk
  have hreport := (tickWith_parts n hc hx).1
  generalize ((w.startWalk c).walk (nested n) c ctx.registry.walkOrder).1 = visits
    at hlen hstops hresults hreport
  have hzip : ∀ x : Stop, (stops c (w.tickMoments n c)).countP (·.2 = x) =
      visits.countP (·.stop = x) := by
    intro x
    have : (stops c (w.tickMoments n c)).map Prod.snd = visits.map Visit.stop := by
      rw [hstops, List.map_snd_zip (by simp [hlen])]
    have := congrArg (List.countP (· = x)) this
    rwa [List.countP_map, List.countP_map] at this
  obtain ⟨hstale, hexecuted, hs, hf, hr⟩ := counted_tickReport visits
    ((w.walkEnd n c ctx).finishWalk c ctx.inUse).1 c ((w.walkEnd n c ctx).finishWalk c ctx.inUse).2
  rw [← hreport] at hstale hexecuted hs hf hr
  constructor
  case happens => exact tickWith_happens (traced_nested n)
  case sorted => exact Registry.entries_pairwise
  case complete => exact hsound.indexed
  case visited =>
    rw [hstops, List.map_fst_zip (by simp [hlen])]
    rfl
  case passes => exact fun m hm => (htrue m hm).1
  case skips => exact fun m hm => (htrue m hm).2.1
  case runs => exact fun m hm => (htrue m hm).2.2
  case executes =>
    intro before a u after hsplit
    rw [tickMoments_eq n hc hx] at hT hsplit
    exact walk_runsTask (traced_nested n) (walking_startWalk hc) hT hsplit
  case once =>
    intro hn
    rw [hresults hn, hstops]
    exact TickReport.ran_zip _ visits
  case still =>
    intro v hv
    obtain ⟨ctx', hc', hcore⟩ := core_walkWorlds n hc hx hT v hv
    obtain ⟨-, -, hclock, hx', -, hlast, hbuckets, hindex⟩ := Context.parts_of_core hcore
    exact ⟨ctx', hc', hx', hclock, hindex, hbuckets, hlast⟩
  case kept =>
    intro v hv p i a agent he hl
    obtain ⟨ctx', hc', hcore⟩ := core_walkWorlds n hc hx hT v hv
    have hv := (coherent_walkWorlds n ⟨hids, hcoh⟩ hc hx v hv).2
    obtain ⟨hid, -, -, -, -, -, hbuckets, -⟩ := Context.parts_of_core hcore
    rw [← show ctx'.id = ctx.id from hid]
    refine (hv.entered c ctx' a agent hc' hl p i).1 ?_
    rw [Registry.entries, hbuckets]
    exact he
  case stale => rw [hstale, hzip]
  case executed => rw [hexecuted, hzip]
  case outcomes => rw [hexecuted, TickReport.countP_ran, hs, hf, hr]
  case tallied =>
    intro hn
    rw [hresults hn, TickReport.countP_zip hlen, TickReport.countP_zip hlen,
      TickReport.countP_zip hlen]
    exact ⟨hs, hf, hr⟩
  case accounted =>
    have hlength : ctx.registry.entries.length = visits.length := by
      rw [hlen, Registry.walkOrder, List.length_map]
    rw [hlength, hexecuted, hstale, hzip]
    exact TickReport.length_visits visits

/-- Two contexts and five agents of several priorities. A tick of the first context asks for one
agent and gives up another, and has one removed that it has yet to come to. -/
def walkDeeds : List (Deed Routine Unit) :=
  let first : ContextRef := ⟨0⟩
  let second : ContextRef := ⟨1⟩
  [.newContext ⟨1⟩ {} 10, .newContext ⟨2⟩ {} 10,
    .create ⟨"late", "Agent", 7, ⟨[]⟩⟩, .create ⟨"brief", "Agent", 7, ⟨[]⟩⟩,
    .create ⟨"busy", "Agent", 5, ⟨[.here (.add ⟨3⟩), .here (.remove ⟨0⟩), .disown ⟨1⟩,
      .here .isExecuting, .there second .tick]⟩⟩,
    .create ⟨"wanted", "Agent", 0, ⟨[]⟩⟩, .create ⟨"other", "Agent", 0, ⟨[.here (.add ⟨3⟩)]⟩⟩,
    .on first (.task (.add ⟨0⟩)), .on first (.task (.add ⟨1⟩)), .on first (.task (.add ⟨2⟩)),
    .on second (.task (.add ⟨4⟩))]

/-- The world before such a tick. -/
def walkWorld : World Routine Unit := run walkDeeds { host := { app := () } }

theorem walk_in_order_sample : ∃ ctx, walkWorld.context? ⟨0⟩ = some ctx ∧
    TaskOpsOnly ⟨0⟩ (walkWorld.tickMoments 2 ⟨0⟩) ∧ walkWorld.WalkInOrder 2 ⟨0⟩ ctx := by
  have hids : ∀ v ∈ points walkDeeds ({ host := { app := () } } : World Routine Unit),
      v.contextIds.Nodup ∧ .invalid ∉ v.contextIds := by decide +kernel
  have hd : ∀ v ∈ points walkDeeds ({ host := { app := () } } : World Routine Unit),
      v.DistinctIds := fun v hv => .of_contextIds (hids v hv)
  have hlast : walkWorld ∈ points walkDeeds { host := { app := () } } := run_mem_points ..
  have hidle : (walkWorld.context? ⟨0⟩).any (!·.executing) = true := by decide +kernel
  have hT : TaskOpsOnly ⟨0⟩ (walkWorld.tickMoments 2 ⟨0⟩) := by decide +kernel
  obtain ⟨ctx, hc, hx⟩ := (Option.any_eq_true _ _).1 hidle
  exact ⟨ctx, hc, hT, walk_in_order 2 walkWorld ⟨0⟩ ctx (hd _ hlast)
    (coherent_points _ walkDeeds hd _ hlast) hc (by simpa using hx) hT⟩

end World

end AgentScheduler
