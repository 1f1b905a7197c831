/-
What the arena's tasks make of states. A task reads one integer from a state (`Kind.Reads`) and
keeps it: a minion as it is, a spawner its last 32 bits (`Kind.kept`), so a spawner saves another
number than it was given from 2³² on. A state without such an integer is refused.

A task of the arena gets back exactly what it was before a load (`loadTask_undone`), so a refused
load of a context leaves the very same world. The tasks of a context may be among others of the
application; `Embeds` says that they save and load as in the arena.
-/
import AgentScheduler.Proofs.Loading
import AgentScheduler.Proofs.Soundness
import AgentScheduler.Session.Play

namespace AgentScheduler

namespace Arena

/-- The two kinds of tasks. -/
inductive Kind
  | spawner
  | minion
  deriving DecidableEq

namespace Kind

/-- The key of the counter in a state. -/
def key : Kind → String
  | spawner => "spawned"
  | minion => "hp"

/-- The least integer that is read. -/
def lowest : Kind → Int
  | spawner => 0
  | minion => -0x8000000000000000

/-- The greatest integer that is read. -/
def highest : Kind → Int
  | spawner => 0xffffffffffffffff
  | minion => 0x7fffffffffffffff

/-- Why a state is refused. -/
def refusal : Kind → AgentError
  | spawner => .state "spawner state lacks 'spawned'"
  | minion => .state "minion state lacks 'hp'"

/-- What is kept of an integer that was read: a spawner counts in 32 bits. -/
def kept : Kind → Int → Int
  | spawner, n => n % 0x100000000
  | minion, n => n

/-- The state that a task with this counter saves. -/
def record (k : Kind) (n : Int) : Json := .obj [(k.key, .int n)]

/-- The state holds this integer under the key, and it can be read. -/
structure Reads (k : Kind) (state : Json) (n : Int) : Prop where
  held : state.member? k.key = some (.int n)
  range : k.lowest ≤ n ∧ n ≤ k.highest

/-- An integer that was read is kept as it is, unless it is too great for a spawner. -/
theorem kept_eq_iff {k : Kind} {n : Int} (h : k.lowest ≤ n ∧ n ≤ k.highest) :
    k.kept n = n ↔ (k = .spawner → n < 0x100000000) := by
  cases k with
  | spawner =>
    simp only [lowest, highest, kept, true_implies] at h ⊢
    omega
  | minion => simp [kept]

theorem record_inj {k : Kind} {m n : Int} : k.record m = k.record n ↔ m = n := by
  simp [record, Json.int]

end Kind

namespace Task

variable {γ : Type} [Draws γ] {t : Task γ} {state : Json} {n : Int}

/-- Whether it is a spawner or a minion. -/
def kind : Task γ → Kind
  | spawner _ => .spawner
  | minion _ => .minion

/-- The task with another counter. -/
def withCounter (n : Int) : Task γ → Task γ
  | spawner s => .spawner { s with spawned := .ofNat n.toNat }
  | minion _ => .minion ⟨.ofInt n⟩

omit [Draws γ] in
@[simp] theorem kind_withCounter (n : Int) (t : Task γ) : (t.withCounter n).kind = t.kind := by
  cases t <;> rfl

/-- A state that is read sets the counter. -/
theorem load_of_reads (h : t.kind.Reads state n) :
    Behavior.load (α := Keep) state t = (.ok (), t.withCounter n) := by
  obtain ⟨hheld, hrange⟩ := h
  cases t with
  | spawner s =>
    have hread : (state.member? "spawned").bind Json.unsigned? = some (.ofNat n.toNat) := by
      simp only [kind, Kind.key, Kind.lowest, Kind.highest] at hheld hrange
      simp [hheld, Json.int, Json.unsigned?, hrange]
    show ((s.load state).1, spawner (s.load state).2) = _
    simp [Spawner.load, hread, withCounter]
  | minion m =>
    have hread : (state.member? "hp").bind Json.signed? = some (.ofInt n) := by
      simp only [kind, Kind.key, Kind.lowest, Kind.highest] at hheld hrange
      simp [hheld, Json.int, Json.signed?, hrange]
    show ((m.load state).1, minion (m.load state).2) = _
    simp [Minion.load, hread, withCounter]

/-- Any other state is refused and leaves the task as it is. -/
theorem load_of_not_reads (h : ∀ n, ¬t.kind.Reads state n) :
    Behavior.load (α := Keep) state t = (.error t.kind.refusal, t) := by
  cases t with
  | spawner s =>
    have hread : (state.member? "spawned").bind Json.unsigned? = none := by
      refine Option.bind_eq_none_iff.2 fun j hj => ?_
      unfold Json.unsigned?
      split
      · next i => exact if_neg fun hi => h i ⟨hj, hi⟩
      · rfl
    show ((s.load state).1, spawner (s.load state).2) = _
    simp [Spawner.load, hread, kind, Kind.refusal]
  | minion m =>
    have hread : (state.member? "hp").bind Json.signed? = none := by
      refine Option.bind_eq_none_iff.2 fun j hj => ?_
      unfold Json.signed?
      split
      · next i => exact if_neg fun hi => h i ⟨hj, hi⟩
      · rfl
    show ((m.load state).1, minion (m.load state).2) = _
    simp [Minion.load, hread, kind, Kind.refusal]

/-- A task with a counter that was read saves what it kept of it. -/
theorem save_withCounter (h : t.kind.lowest ≤ n ∧ n ≤ t.kind.highest) :
    Behavior.save (α := Keep) (t.withCounter n) = t.kind.record (t.kind.kept n) := by
  cases t with
  | spawner s =>
    have hkept : ((UInt32.ofNat n.toNat).toNat : Int) = n % 0x100000000 := by
      simp only [kind, Kind.lowest] at h
      simp only [UInt32.toNat_ofNat']
      omega
    show Json.obj [("spawned", .int (UInt32.ofNat n.toNat).toNat)] = _
    rw [hkept]
    rfl
  | minion m =>
    have hkept : (Int64.ofInt n).toInt = n := by
      simp only [kind, Kind.lowest, Kind.highest] at h
      exact Int64.toInt_ofInt_of_le (by simpa using h.1) (by omega)
    show Json.obj [("hp", .int (Int64.ofInt n).toInt)] = _
    rw [hkept]
    rfl

/-- What one load leaves is a task of the same kind. -/
theorem exists_load (state : Json) (t : Task γ) : ∃ t' : Task γ,
    (Behavior.load (α := Keep) state t).2 = t' ∧ t'.kind = t.kind ∧
      Reloaded (α := Keep) t t' := by
  refine ⟨_, rfl, ?_, .single ⟨state, rfl⟩⟩
  by_cases h : ∃ n, t.kind.Reads state n
  · obtain ⟨n, hn⟩ := h
    rw [load_of_reads hn, kind_withCounter]
  · rw [load_of_not_reads (not_exists.1 h)]

theorem load_ok_iff : (Behavior.load (α := Keep) state t).1 = .ok () ↔
    ∃ n, t.kind.Reads state n := by
  constructor
  · intro hok
    refine Classical.byContradiction fun h => ?_
    rw [load_of_not_reads (not_exists.1 h)] at hok
    cases hok
  · rintro ⟨n, hn⟩
    rw [load_of_reads hn]

end Task

/-- The tasks of the arena are among the tasks of an application, and save and load there as in
the arena. -/
structure Embeds {τ α γ : Type} [Behavior τ α] [Draws γ] (into : Task γ → τ) : Prop where
  save : ∀ t, Behavior.save (α := α) (into t) = Behavior.save (α := Keep) t
  load : ∀ state t, Behavior.load (α := α) state (into t) =
    ((Behavior.load (α := Keep) state t).1, into (Behavior.load (α := Keep) state t).2)

theorem embeds_id {γ : Type} [Draws γ] : Embeds (α := Keep) (id : Task γ → Task γ) :=
  ⟨fun _ => rfl, fun _ _ => rfl⟩

/-- Sessions run the tasks of the arena among others. -/
theorem embeds_session : Embeds (α := Session.App) (fun
    | .spawner s => .spawner s
    | .minion m => .minion m : Task Generator → Session.Task) where
  save t := by cases t <;> rfl
  load state t := by cases t <;> rfl

end Arena

open Arena (Embeds)

namespace World

variable {τ α γ : Type} [Behavior τ α] [Arena.Draws γ] {w v w₀ : World τ α} {c : ContextRef}
  {ctx : Context} {a : AgentRef} {agent : Agent τ} {into : Arena.Task γ → τ} {t : Arena.Task γ}
  {s : Snapshot} {targets done : List (AgentRef × Json)} {r : Registry}

/-! ## Loads -/

/-- After any states an arena's task is one of the same kind. -/
theorem exists_afterLoads (hinto : Embeds (α := α) into) (states : List Json)
    (t : Arena.Task γ) :
    ∃ t', afterLoads (α := α) (into t) states = into t' ∧ t'.kind = t.kind := by
  induction states generalizing t with
  | nil => exact ⟨t, rfl, rfl⟩
  | cons state states ih =>
    obtain ⟨t₁, hload, hkind, -⟩ := t.exists_load state
    obtain ⟨t', hafter, hkind'⟩ := ih t₁
    refine ⟨t', ?_, hkind'.trans hkind⟩
    rw [← hafter]
    simp [afterLoads, hinto.load, hload]

omit [Behavior τ α] in
/-- A change of an agent that changes nothing of it. -/
theorem modifyAgent_self {f : Agent τ → Agent τ}
    (h : ∀ agent, w.agent? a = some agent → f agent = agent) : w.modifyAgent a f = w := by
  have hagents : (w.modifyAgent a f).agents = w.agents := by
    refine agents_ext fun b => ?_
    rw [agent?_modifyAgent]
    split
    · next hb =>
      cases ha : w.agent? b with
      | none => rfl
      | some agent => rw [Option.map_some, h agent (hb ▸ ha)]
    · rfl
  show { w with agents := (w.modifyAgent a f).agents } = w
  rw [hagents]

omit [Behavior τ α] in
/-- Two changes of an agent are one. -/
theorem modifyAgent_modifyAgent (f g : Agent τ → Agent τ) :
    (w.modifyAgent a f).modifyAgent a g = w.modifyAgent a fun agent => g (f agent) := by
  have hagents : ((w.modifyAgent a f).modifyAgent a g).agents =
      (w.modifyAgent a fun agent => g (f agent)).agents := by
    refine agents_ext fun b => ?_
    simp only [agent?_modifyAgent]
    split
    · rw [Option.map_map]; rfl
    · rfl
  show { w with agents := ((w.modifyAgent a f).modifyAgent a g).agents } = _
  rw [hagents]
  rfl

/-- Giving the former state back after a load leads to the former world. -/
theorem loadTask_undone (hinto : Embeds (α := α) into) (hl : w.live? a = some agent)
    (hr : agent.running = false) (ht : agent.task = into t) (state : Json) :
    (w.loadTask a state).2.loadTask a (Behavior.save (α := α) agent.task) = (.ok (), w) := by
  obtain ⟨t', hload, -, hreloaded⟩ := t.exists_load state
  have hfirst : (w.loadTask a state).2 =
      w.modifyAgent a fun agent => { agent with task := into t' } := by
    rw [loadTask_of_live state hl hr, ht, hinto.load, hload]
  have hlive : (w.modifyAgent a fun agent => { agent with task := into t' }).live? a =
      some { agent with task := into t' } := by
    have hmap := live?_map (w := w) (a := a)
      (f := fun agent => { agent with task := into t' }) (fun _ => rfl)
      (by rw [agent?_modifyAgent, if_pos rfl])
    rw [hmap, hl, Option.map_some]
  rw [hfirst, loadTask_of_live _ hlive hr, ht, hinto.save, hinto.load,
    Arena.Task.load_save hreloaded, modifyAgent_modifyAgent]
  refine Prod.ext rfl (modifyAgent_self fun agent' ha => ?_)
  rw [(live?_eq_some.1 hl).1, Option.some.injEq] at ha
  rw [← ha, ← ht]

/-- The agents of a list run tasks of the arena. -/
def RunArena (into : Arena.Task γ → τ) (w : World τ α) (as : List AgentRef) : Prop :=
  ∀ a ∈ as, ∀ agent, w.live? a = some agent → ∃ t, agent.task = into t

/-- A task that refuses a state leaves the world as it was. -/
theorem loadTask_refused (hinto : Embeds (α := α) into) (ht : agent.task = into t)
    (hl : w.live? a = some agent) {state : Json} {e : AgentError}
    (he : w.loadTask a state = (.error e, v)) : v = w := by
  cases hr : agent.running with
  | true =>
    simp only [loadTask, hl, hr, if_true, Prod.mk.injEq] at he
    exact he.2.symm
  | false =>
    rw [loadTask_of_live state hl hr, ht, hinto.load, Prod.mk.injEq] at he
    rw [← he.2, Arena.Task.refused state t he.1]
    refine modifyAgent_self fun agent' ha => ?_
    rw [(live?_eq_some.1 hl).1, Option.some.injEq] at ha
    rw [← ha, ← ht]

/-- One load changes no kind of task. -/
theorem RunArena.loadTask {as : List AgentRef} (h : RunArena into w as)
    (hinto : Embeds (α := α) into) (a : AgentRef) (state : Json) :
    RunArena into (w.loadTask a state).2 as := by
  intro b hb agent' hl'
  rw [live?_eq_some, agent?_loadTask] at hl'
  obtain ⟨agent, ha, hagent⟩ := Option.map_eq_some_iff.1 hl'.1
  have hsame : agent'.alive = agent.alive := by
    subst hagent
    unfold Agent.given
    split <;> try split
    all_goals rfl
  obtain ⟨t, ht⟩ := h b hb agent (live?_eq_some.2 ⟨ha, hsame ▸ hl'.2⟩)
  subst hagent
  unfold Agent.given
  split <;> try split
  · obtain ⟨t', hafter, -⟩ := exists_afterLoads hinto [state] t
    exact ⟨t', by rw [← hafter, ← ht]⟩
  · exact ⟨t, ht⟩
  · exact ⟨t, ht⟩

theorem rollBack_cons {before : Json} (h : w.loadTask a before = (.ok (), v)) :
    rollBack ((a, before) :: done) w = rollBack done v := by
  rw [rollBack, h]

/-- If a state is refused, giving the former states back leads to the very world that they were
taken from. -/
theorem restore_undone (hinto : Embeds (α := α) into) (hrun : RunArena into w (targets.map (·.1)))
    (hdone : rollBack done w = w₀) {e : AgentError} (he : (restore targets done w).1 = .error e) :
    (restore targets done w).2 = w₀ := by
  induction targets generalizing w done with
  | nil => cases he
  | cons target targets ih =>
    obtain ⟨a, state⟩ := target
    have hrest : RunArena into w (targets.map (·.1)) := fun b hb => hrun b (.tail _ hb)
    rw [restore] at he ⊢
    cases hl : w.live? a with
    | none =>
      -- an agent that is gone is passed over, now and when states are given back
      have hskip (state : Json) : w.loadTask a state = (.ok (), w) := loadTask_of_gone state hl
      simp only [saveTask, hl, hskip] at he ⊢
      exact ih hrest ((rollBack_cons (hskip .null)).trans hdone) he
    | some agent =>
      cases hr : agent.running with
      | true => simp only [saveTask, hl, hr, if_true]; exact hdone
      | false =>
        obtain ⟨t, ht⟩ := hrun a List.mem_cons_self agent hl
        have hback := loadTask_undone hinto hl hr ht state
        have hkeep := hrest.loadTask hinto a state
        simp only [saveTask, hl, hr, Bool.false_eq_true, if_false] at he ⊢
        cases hv : w.loadTask a state with
        | mk result v =>
          rw [hv] at hback hkeep
          simp only [hv] at he ⊢
          cases result with
          | ok => exact ih hkeep ((rollBack_cons hback).trans hdone) he
          | error e' => rw [loadTask_refused hinto ht hl hv]; exact hdone

/-! ## Saves -/

/-- When agents are saved, none of their tasks runs. -/
theorem idle_of_saveAgents {as : List AgentRef} {agents : List AgentSnapshot}
    (h : w.saveAgents as = .ok agents) :
    ∀ a ∈ as, ∀ agent, w.live? a = some agent → agent.running = false := by
  induction as generalizing agents with
  | nil => exact fun a ha => by cases ha
  | cons a as ih =>
    unfold saveAgents at h ih
    rw [List.filterMapM_cons] at h
    obtain ⟨first, hfirst, h⟩ := bind_ok.1 h
    have htail : ∀ b ∈ as, ∀ agent, w.live? b = some agent → agent.running = false := by
      cases first with
      | none => exact ih h
      | some snap =>
        obtain ⟨rest, hrest, -⟩ := bind_ok.1 h
        exact ih hrest
    refine List.forall_mem_cons.2 ⟨fun agent hl => ?_, htail⟩
    simp only [hl] at hfirst
    obtain ⟨state, hstate, -⟩ := bind_ok.1 hfirst
    cases hr : agent.running with
    | false => rfl
    | true => simp [saveTask, hl, hr] at hstate

/-- A save between ticks goes through if no task of a member runs, and lists the members. -/
theorem save_between (hc : w.context? c = some ctx) (hidle : ctx.executing = false) :
    ((∃ s', (w.save c).1 = .ok s') ↔
      ∀ a ∈ ctx.registry.walkOrder, ∀ agent, w.live? a = some agent → agent.running = false) ∧
      ∀ s', (w.save c).1 = .ok s' →
        s'.agents = (w.members ctx.registry).map (·.2.snapshot) := by
  simp only [save, hc, Context.ensureIdle, hidle, Bool.false_eq_true, if_false, pure, Except.pure]
  by_cases hrest : ∀ a ∈ ctx.registry.walkOrder, ∀ agent, w.live? a = some agent →
      agent.running = false
  · rw [saveAgents_members hrest]
    refine ⟨iff_of_true ⟨_, rfl⟩ hrest, fun s' hs => ?_⟩
    cases hs
    rfl
  · cases hsave : w.saveAgents (w.handles ctx.registry) with
    | error e =>
      refine ⟨iff_of_false (fun hok => ?_) hrest, fun s' hs => by cases hs⟩
      obtain ⟨s', hs⟩ := hok
      cases hs
    | ok agents =>
      refine absurd (fun a ha agent hl => ?_) hrest
      exact idle_of_saveAgents hsave a (List.mem_filter.2 ⟨ha, alive_of_live? hl⟩) agent hl

/-! ## Contexts of the arena -/

/-- How a save tells of an agent whose task read this integer from a state. -/
structure Reports (w : World τ α) (snap : AgentSnapshot) (agent : Agent τ) (k : Arena.Kind)
    (n : Int) (agents : List AgentSnapshot) : Prop where
  /-- It lists the agent with what the task kept of the integer. -/
  entry : ⟨agent.place.id, snap.cls, agent.priority, k.record (k.kept n)⟩ ∈ agents
  /-- If agents and registries agree, that is the one entry for the id of the listed state. -/
  only : w.Coherent → agent.place.id = snap.id ∧ ∀ e ∈ agents, e.id = snap.id →
    e = ⟨snap.id, snap.cls, agent.priority, k.record (k.kept n)⟩
  /-- A minion keeps every integer that it reads, a spawner those of 32 bits. -/
  exact : k.record (k.kept n) = .obj [(k.key, .int n)] ↔ (k = .spawner → n < 0x100000000)

/-- What loading states into a context does whose agents run tasks of the arena. -/
structure LoadsArena (into : Arena.Task γ → τ) (c : ContextRef) (ctx : Context) (s : Snapshot)
    (w : World τ α) : Prop where
  /-- A load goes through exactly if it is between ticks, the snapshot matches, and every listed
  state can be read. -/
  accepted : (w.load c s).1 = .ok () ↔ ctx.executing = false ∧ w.Matches ctx s ∧
    ∀ snap ∈ s.agents, ∀ a agent t, ctx.registry.agent? snap.id = some a →
      w.live? a = some agent → agent.task = into t →
      agent.running = false ∧ ∃ n, t.kind.Reads snap.state n
  /-- Then a save goes through unless a task runs. -/
  saved : (w.load c s).1 = .ok () →
    ((∃ s', ((w.load c s).2.save c).1 = .ok s') ↔
      ∀ a ∈ ctx.registry.walkOrder, ∀ agent, w.live? a = some agent → agent.running = false)
  /-- It tells of each agent that was listed once. -/
  reported : (w.load c s).1 = .ok () → ∀ s', ((w.load c s).2.save c).1 = .ok s' →
    ∀ snap ∈ s.agents, ∀ a, ctx.registry.agent? snap.id = some a →
      ctx.registry.statesFor a s.agents = [snap.state] →
      ∃ agent t n, w.live? a = some agent ∧ agent.task = into t ∧ t.kind.Reads snap.state n ∧
        Reports w snap agent t.kind n s'.agents
  /-- A load that fails leaves the very same world. -/
  refused : ∀ e, (w.load c s).1 = .error e → (w.load c s).2 = w

section Load

variable (hinto : Embeds (α := α) into) (hsound : ctx.registry.Sound)
  (hrun : RunArena into w ctx.registry.walkOrder)

include hinto hsound hrun

/-- Whether a state is accepted does not depend on those before it: the kind of a task stays. -/
theorem tasksAccept_iff : w.TasksAccept ctx.registry s.agents ↔
    ∀ snap ∈ s.agents, ∀ a agent t, ctx.registry.agent? snap.id = some a →
      w.live? a = some agent → agent.task = into t →
      agent.running = false ∧ ∃ n, t.kind.Reads snap.state n := by
  have hstate (states : List Json) (t : Arena.Task γ) (state : Json) :
      (Behavior.load (α := α) state (afterLoads (α := α) (into t) states)).1 = .ok () ↔
        ∃ n, t.kind.Reads state n := by
    obtain ⟨t', hafter, hkind⟩ := exists_afterLoads hinto states t
    rw [hafter, hinto.load, ← hkind]
    exact Arena.Task.load_ok_iff
  constructor
  · intro haccept snap hs a agent t ha hl ht
    obtain ⟨before, after, hsplit⟩ := List.append_of_mem hs
    obtain ⟨hr, hload⟩ := haccept before snap after a agent hsplit ha hl
    rw [ht, hstate] at hload
    exact ⟨hr, hload⟩
  · intro hall before snap after a agent hsplit ha hl
    obtain ⟨p, he⟩ := (hsound.agent?_eq_some_iff).1 ha
    obtain ⟨t, ht⟩ := hrun a (Registry.mem_walkOrder.2 ⟨p, snap.id, he⟩) agent hl
    obtain ⟨hr, hread⟩ := hall snap (by simp [hsplit]) a agent t ha hl ht
    rw [ht, hstate]
    exact ⟨hr, hread⟩

/-- A load that fails leaves the very same world. -/
theorem load_arena_refused (hc : w.context? c = some ctx) {e : ContextError}
    (he : (w.load c s).1 = .error e) : (w.load c s).2 = w := by
  unfold load at he ⊢
  simp only [hc] at he ⊢
  cases hidle : ctx.ensureIdle with
  | error e => rfl
  | ok =>
    simp only [hidle] at he ⊢
    cases hfound : w.resolveAll ctx s with
    | error m => rfl
    | ok found =>
      obtain ⟨named, targets⟩ := found
      simp only [hfound] at he ⊢
      have hmatches := matches_of_resolveAll hfound
      rw [hmatches.resolveAll, Except.ok.injEq, Prod.mk.injEq] at hfound
      -- the states go to agents of the context
      have htargets : RunArena into w (targets.map (·.1)) := by
        intro a ha agent hl
        rw [← hfound.2, Registry.targets, List.map_map] at ha
        obtain ⟨snap, hs, rfl⟩ := List.mem_map.1 ha
        obtain ⟨b, hb, -⟩ := hmatches.agents snap hs
        obtain ⟨p, hentry⟩ := hsound.agent?_eq_some_iff.1 hb
        simp only [Function.comp_apply, Registry.agent?_eq_seat hb] at hl
        exact hrun b (Registry.mem_walkOrder.2 ⟨p, snap.id, hentry⟩) agent hl
      have hundone (e : AgentError) (he : (restore targets [] w).1 = .error e) :
          (restore targets [] w).2 = w := restore_undone hinto htargets rfl he
      cases hv : restore targets [] w with
      | mk result v =>
        rw [hv] at hundone
        simp only [hv] at he ⊢
        cases result with
        | ok => cases he
        | error e => exact hundone e rfl

omit [Arena.Draws γ] hinto hsound hrun in
/-- The living agents after a load, with what their own states made of their tasks. -/
theorem Loaded.live? (h : Loaded c ctx s w v) (a : AgentRef) :
    v.live? a = (w.live? a).map fun agent =>
      { agent with task := afterLoads agent.task (ctx.registry.statesFor a s.agents) } :=
  live?_map (fun _ => rfl) (h.agents a)

omit [Arena.Draws γ] hinto hsound hrun in
/-- A load between ticks leaves a context between ticks, with the same registrations. -/
theorem Loaded.between (h : Loaded c ctx s w v) (hidle : ctx.executing = false) :
    ∃ ctx', v.context? c = some ctx' ∧ ctx'.executing = false ∧
      ctx'.registry.walkOrder = ctx.registry.walkOrder := by
  obtain ⟨ctx', hc', hfrom⟩ := h.context
  refine ⟨ctx', hc', ?_, ?_⟩
  · rw [hfrom.rest]; exact hidle
  · rw [hfrom.registry]; rfl

omit [Arena.Draws γ] hinto hsound hrun in
theorem loaded_of_ok (hc : w.context? c = some ctx) (hidle : ctx.executing = false)
    (hok : (w.load c s).1 = .ok ()) : Loaded c ctx s w (w.load c s).2 := by
  obtain ⟨hmatches, haccept⟩ := (load_ok_iff hc hidle).1 hok
  exact loaded_of_accepted hc hidle hmatches haccept

/-- A load goes through between ticks only. -/
theorem load_arena_ok_iff (hc : w.context? c = some ctx) :
    (w.load c s).1 = .ok () ↔ ctx.executing = false ∧ w.Matches ctx s ∧
      ∀ snap ∈ s.agents, ∀ a agent t, ctx.registry.agent? snap.id = some a →
        w.live? a = some agent → agent.task = into t →
        agent.running = false ∧ ∃ n, t.kind.Reads snap.state n := by
  cases hx : ctx.executing with
  | false =>
    rw [load_ok_iff hc hx, tasksAccept_iff hinto hsound hrun]
    simp
  | true =>
    refine iff_of_false (fun hok => ?_) (fun h => by cases h.1)
    simp [load, hc, Context.ensureIdle, hx, throw, throwThe, MonadExceptOf.throw] at hok

/-- What a load does to a context whose agents run tasks of the arena. -/
theorem load_arena (hc : w.context? c = some ctx) : LoadsArena into c ctx s w := by
  have hload := load_arena_ok_iff (s := s) hinto hsound hrun hc
  refine ⟨hload, fun hok => ?_, fun hok s' hs' snap hs a ha hstates => ?_,
    fun e he => load_arena_refused hinto hsound hrun hc he⟩
  · obtain ⟨hidle, -⟩ := hload.1 hok
    have hloaded := loaded_of_ok hc hidle hok
    obtain ⟨ctx', hc', hidle', horder⟩ := hloaded.between hidle
    rw [(save_between hc' hidle').1, horder]
    refine forall_congr' fun a => forall_congr' fun _ => ?_
    rw [hloaded.live?]
    cases w.live? a <;> simp
  · obtain ⟨hidle, hmatches, hreads⟩ := hload.1 hok
    have hloaded := loaded_of_ok hc hidle hok
    obtain ⟨b, hb, agent, hl, hcls⟩ := hmatches.agents snap hs
    obtain rfl := Option.some.inj (ha.symm.trans hb)
    obtain ⟨p, hentry⟩ := hsound.agent?_eq_some_iff.1 ha
    have hmem : a ∈ ctx.registry.walkOrder := Registry.mem_walkOrder.2 ⟨p, snap.id, hentry⟩
    obtain ⟨t, ht⟩ := hrun a hmem agent hl
    obtain ⟨-, n, hn⟩ := hreads snap hs a agent t ha hl ht
    refine ⟨agent, t, n, hl, ht, hn, ?_⟩
    obtain ⟨ctx', hc', hidle', horder⟩ := hloaded.between hidle
    have hlist := (save_between hc' hidle').2 s' hs'
    -- the save finds the task with the counter that was read
    have hlive := hloaded.live? a
    have hafter : afterLoads (α := α) agent.task [snap.state] = into (t.withCounter n) := by
      simp [afterLoads, ht, hinto.load, Arena.Task.load_of_reads hn]
    rw [hl, Option.map_some, hstates, hafter] at hlive
    have hsnapshot : ({ agent with task := into (t.withCounter n) } : Agent τ).snapshot =
        ⟨agent.place.id, snap.cls, agent.priority, t.kind.record (t.kind.kept n)⟩ := by
      rw [Agent.snapshot, hinto.save, Arena.Task.save_withCounter hn.range, ← hcls]
    have hmember : (a, { agent with task := into (t.withCounter n) }) ∈
        (w.load c s).2.members ctx'.registry := mem_members.2 ⟨horder ▸ hmem, hlive⟩
    constructor
    case entry =>
      rw [hlist, ← hsnapshot]
      exact List.mem_map.2 ⟨_, hmember, rfl⟩
    case only =>
      intro hcoh
      have hid : agent.place.id = snap.id :=
        congrArg Registration.id ((hcoh.entered c ctx a agent hc hl p snap.id).1 hentry).1
      refine ⟨hid, fun e he heid => ?_⟩
      rw [hlist] at he
      obtain ⟨⟨b, agent'⟩, hb, rfl⟩ := List.mem_map.1 he
      rw [mem_members, horder, hloaded.live?, Option.map_eq_some_iff] at hb
      obtain ⟨hbmem, old, hold, rfl⟩ := hb
      obtain ⟨q, i, hseat⟩ := Registry.mem_walkOrder.1 hbmem
      have hi : old.place.id = i :=
        congrArg Registration.id ((hcoh.entered c ctx b old hc hold q i).1 hseat).1
      obtain rfl : i = snap.id := hi.symm.trans heid
      obtain rfl : b = a := Option.some.inj
        ((hsound.agent?_eq_some_iff.2 ⟨q, hseat⟩).symm.trans ha)
      obtain rfl := Option.some.inj (hold.symm.trans hl)
      rw [hstates, hafter, hsnapshot, hid]
    case exact =>
      rw [← Arena.Kind.kept_eq_iff hn.range]
      exact Arena.Kind.record_inj

end Load

/-- At every point of every run, states that are loaded into a context of the arena's tasks are
taken over and saved again, or refused and nothing changes. Only a spawner's counter can be another
one in the end. -/
theorem arena_states_exact (hinto : Embeds (α := α) into) (h : Host α) (ds : List (Deed τ α)) :
    ∀ v ∈ points ds ({ host := h } : World τ α), ∀ c ctx, v.context? c = some ctx →
      RunArena into v ctx.registry.walkOrder → ∀ s, LoadsArena into c ctx s v := by
  intro v hv c ctx hc hrun s
  exact load_arena hinto (sound_points h ds v hv c ctx hc) hrun hc

section Sample

/-- A spawner and a minion in an arena. -/
def pairDeeds : List (Deed (Arena.Task Arena.Generator) Arena.Keep) :=
  [.newContext ⟨1⟩ { classes := .ofList [("Minion", ⟨none, .empty⟩), ("Spawner", ⟨none, .empty⟩)] }
      100,
    .create ⟨"spawner", "Spawner", 0, .spawner ⟨default, "0", 0⟩⟩,
    .create ⟨"minion", "Minion", 1, .minion ⟨5⟩⟩,
    .on ⟨0⟩ (.task (.add ⟨0⟩)), .on ⟨0⟩ (.task (.add ⟨1⟩))]

/-- A spawner's counter of more than 32 bits, and the greatest counter of a minion. -/
def greatStates : Snapshot where
  agents := [⟨⟨1⟩, "Spawner", 0, .obj [("spawned", .int 4294967297)]⟩,
    ⟨⟨2⟩, "Minion", 1, .obj [("hp", .int 9223372036854775807)]⟩]

theorem arena_states_exact_sample :
    let v := run pairDeeds { host := { app := {} } }
    v ∈ points pairDeeds { host := { app := {} } } ∧
      ∃ ctx, v.context? ⟨0⟩ = some ctx ∧ RunArena id v ctx.registry.walkOrder ∧
        (v.load ⟨0⟩ greatStates).1 = .ok () ∧
        ((v.load ⟨0⟩ greatStates).2.save ⟨0⟩).1.toOption.map (·.agents.map (·.state)) =
          some [.obj [("spawned", .int 1)], .obj [("hp", .int 9223372036854775807)]] ∧
        LoadsArena id ⟨0⟩ ctx greatStates v := by
  have hv := run_mem_points pairDeeds ({ host := { app := {} } } :
    World (Arena.Task Arena.Generator) Arena.Keep)
  have hrun {as : List AgentRef} : RunArena (id : Arena.Task Arena.Generator → _)
      (run pairDeeds { host := { app := {} } }) as := fun _ _ agent _ => ⟨agent.task, rfl⟩
  exact ⟨hv, _, rfl, hrun, by rfl, by rfl,
    arena_states_exact Arena.embeds_id { app := {} } pairDeeds _ hv ⟨0⟩ _ rfl hrun greatStates⟩

end Sample

end World

end AgentScheduler
