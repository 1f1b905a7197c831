/-
A load that fails leaves everything as it was. Only the tasks' states are
changed before a load can fail, and they are given back, the last one first:
`Undoes` says that a list of former states leads back to an earlier world, from
wherever later loads may have led. One more load keeps it (`Undoes.cons`), so it
carries through the whole list, however often an agent is in it.
-/
import AgentScheduler.Arena.Run
import AgentScheduler.Proofs.Invariance

namespace AgentScheduler

section Tasks

variable {τ α : Type} [Behavior τ α] {t u v : τ}

/-- The task after any number of loads, accepted or refused. -/
def Reloaded : τ → τ → Prop :=
  Relation.ReflTransGen fun t u => ∃ state, u = (Behavior.load state t).2

/-- A state that the task refuses leaves it as it is; and it takes back what it saved earlier,
and then saves it again. -/
structure TakesBack (t : τ) : Prop where
  refuses : ∀ u, Reloaded t u → ∀ state e, (Behavior.load state u).1 = .error e →
    (Behavior.load state u).2 = u
  accepts : ∀ u v, Reloaded t u → Reloaded u v →
    (Behavior.load (Behavior.save u) v).1 = .ok () ∧
      Behavior.save (Behavior.load (Behavior.save u) v).2 = Behavior.save u

theorem TakesBack.reloaded (h : TakesBack t) (hu : Reloaded t u) : TakesBack u where
  refuses v hv := h.refuses v (hu.trans hv)
  accepts v x hv hx := h.accepts v x (hu.trans hv) hx

end Tasks

namespace World

variable {τ α : Type} [Behavior τ α] {w v x : World τ α} {a b : AgentRef} {c : ContextRef}
  {targets done : List (AgentRef × Json)} {before : Json}

/-! ## Loads of tasks -/

/-- Nothing but loads of tasks leads from one world to the other. -/
structure OnlyLoads (w v : World τ α) : Prop where
  contexts : SameContexts w v
  host : v.host = w.host
  known : ∀ a agent, w.agent? a = some agent →
    ∃ task, v.agent? a = some { agent with task } ∧ Reloaded agent.task task
  unknown : ∀ a, w.agent? a = none → v.agent? a = none

namespace OnlyLoads

theorem refl (w : World τ α) : OnlyLoads w w :=
  ⟨.refl w, rfl, fun _ agent ha => ⟨agent.task, ha, .refl⟩, fun _ ha => ha⟩

theorem trans (h : OnlyLoads w v) (h' : OnlyLoads v x) : OnlyLoads w x where
  contexts := h.contexts.trans h'.contexts
  host := h'.host.trans h.host
  known a agent ha := by
    obtain ⟨task, hv, hr⟩ := h.known a agent ha
    obtain ⟨task', hx, hr'⟩ := h'.known a _ hv
    exact ⟨task', hx, hr.trans hr'⟩
  unknown a ha := h'.unknown a (h.unknown a ha)

theorem sameAgents (h : OnlyLoads w v) : SameAgents w v := by
  intro a
  cases ha : w.agent? a with
  | none => rw [h.unknown a ha]
  | some agent =>
    obtain ⟨task, hv, -⟩ := h.known a agent ha
    rw [hv]
    rfl

theorem live (h : OnlyLoads w v) {agent : Agent τ} (hl : w.live? a = some agent) :
    ∃ task, v.live? a = some { agent with task } ∧ Reloaded agent.task task := by
  rw [live?_eq_some] at hl
  obtain ⟨task, hv, hr⟩ := h.known a agent hl.1
  exact ⟨task, live?_eq_some.2 ⟨hv, hl.2⟩, hr⟩

theorem gone (h : OnlyLoads w v) (hl : w.live? a = none) : v.live? a = none := by
  cases ha : w.agent? a with
  | none => rw [live?, h.unknown a ha]; rfl
  | some agent =>
    obtain ⟨task, hv, -⟩ := h.known a agent ha
    rw [live?, ha] at hl
    rw [live?, hv]
    cases hal : agent.alive with
    | true => simp [Option.filter, hal] at hl
    | false =>
      have : Agent.alive { agent with task } = false := hal
      simp [Option.filter, this]

theorem takesBack (h : OnlyLoads w v)
    (ht : ∀ a agent, w.agent? a = some agent → TakesBack agent.task) :
    ∀ a agent, v.agent? a = some agent → TakesBack agent.task := by
  intro a agent hv
  cases ha : w.agent? a with
  | none => rw [h.unknown a ha] at hv; cases hv
  | some old =>
    obtain ⟨task, hv', hr⟩ := h.known a old ha
    rw [hv] at hv'
    cases hv'
    exact (ht a old ha).reloaded hr

end OnlyLoads

theorem loadTask_of_gone (state : Json) (hl : w.live? a = none) :
    w.loadTask a state = (.ok (), w) := by
  simp only [loadTask, hl]

theorem loadTask_of_live (state : Json) {agent : Agent τ} (hl : w.live? a = some agent)
    (hr : agent.running = false) : w.loadTask a state =
      ((Behavior.load state agent.task).1, w.modifyAgent a fun agent' =>
        { agent' with task := (Behavior.load state agent.task).2 }) := by
  simp only [loadTask, hl, hr, Bool.false_eq_true, if_false]

theorem loadTask_onlyLoads (state : Json) : OnlyLoads w (w.loadTask a state).2 := by
  cases hl : w.live? a with
  | none => rw [loadTask_of_gone state hl]; exact .refl w
  | some agent =>
    cases hr : agent.running with
    | true => simp only [loadTask, hl, hr, if_true]; exact .refl w
    | false =>
      rw [loadTask_of_live state hl hr]
      refine ⟨fun _ => rfl, rfl, fun b x hb => ?_, fun b hb => ?_⟩
      · rw [agent?_modifyAgent]
        by_cases hba : b = a
        · rw [hba, (live?_eq_some.1 hl).1] at hb
          cases hb
          rw [if_pos hba, hba, (live?_eq_some.1 hl).1]
          exact ⟨_, rfl, .single ⟨state, rfl⟩⟩
        · rw [if_neg hba]
          exact ⟨x.task, hb, .refl⟩
      · rw [agent?_modifyAgent, hb]
        split <;> rfl

/-! ## What tasks save -/

theorem saveTask_congr (h : v.live? a = w.live? a) : v.saveTask a = w.saveTask a := by
  simp only [saveTask, h]

/-- A load of one task leaves what the others save. -/
theorem saveTask_loadTask_ne (state : Json) (hb : b ≠ a) :
    (w.loadTask a state).2.saveTask b = w.saveTask b := by
  refine saveTask_congr (live?_congr ?_)
  cases hl : w.live? a with
  | none => rw [loadTask_of_gone state hl]
  | some agent =>
    cases hr : agent.running with
    | true => simp only [loadTask, hl, hr, if_true]
    | false => rw [loadTask_of_live state hl hr, agent?_modifyAgent, if_neg hb]

/-- A refused load leaves what the task saves, too. -/
theorem saveTask_of_refused (ht : ∀ a agent, w.agent? a = some agent → TakesBack agent.task)
    {state : Json} {e : AgentError} (h : (w.loadTask a state).1 = .error e) (b : AgentRef) :
    (w.loadTask a state).2.saveTask b = w.saveTask b := by
  by_cases hb : b = a
  · subst hb
    cases hl : w.live? b with
    | none => rw [loadTask_of_gone state hl]
    | some agent =>
      cases hr : agent.running with
      | true => simp only [loadTask, hl, hr, if_true]
      | false =>
        rw [loadTask_of_live state hl hr] at h ⊢
        have hsame := (ht b agent (live?_eq_some.1 hl).1).refuses _ .refl state e h
        refine saveTask_congr (live?_congr ?_)
        rw [agent?_modifyAgent, if_pos rfl, (live?_eq_some.1 hl).1, Option.map_some, hsame]
  · exact saveTask_loadTask_ne state hb

/-- After any loads, a task takes back what it saved before them. -/
theorem loadTask_back (ht : ∀ a agent, v.agent? a = some agent → TakesBack agent.task)
    (hs : v.saveTask a = .ok before) (h : OnlyLoads v x) :
    (x.loadTask a before).1 = .ok () ∧ (x.loadTask a before).2.saveTask a = .ok before := by
  cases hl : v.live? a with
  | none =>
    have hx := h.gone hl
    rw [loadTask_of_gone before hx]
    refine ⟨rfl, ?_⟩
    rw [← hs]
    exact saveTask_congr (hx.trans hl.symm)
  | some agent =>
    obtain ⟨task, hx, hr⟩ := h.live hl
    cases hrun : agent.running with
    | true =>
      simp only [saveTask, hl, hrun, if_true] at hs
      cases hs
    | false =>
      simp only [saveTask, hl, hrun, Bool.false_eq_true, if_false] at hs
      cases hs
      obtain ⟨hok, hsave⟩ := (ht a agent (live?_eq_some.1 hl).1).accepts _ task .refl hr
      rw [loadTask_of_live _ hx hrun]
      refine ⟨hok, ?_⟩
      have hlive := live?_map (w := x) (a := a)
        (f := fun agent' => { agent' with
          task := (Behavior.load (Behavior.save agent.task) task).2 })
        (fun _ => rfl) (by rw [agent?_modifyAgent, if_pos rfl])
      rw [hx, Option.map_some] at hlive
      simp only [saveTask, hlive, hrun, Bool.false_eq_true, if_false, hsave]

/-! ## Giving states back -/

/-- The former states lead back to what the tasks of `w` save, from every world that saves what
`v` saves, whatever loads were made since. -/
def Undoes (done : List (AgentRef × Json)) (w v : World τ α) : Prop :=
  ∀ x, OnlyLoads v x → (∀ a, x.saveTask a = v.saveTask a) →
    OnlyLoads x (rollBack done x) ∧ ∀ a, (rollBack done x).saveTask a = w.saveTask a

theorem Undoes.nil (w : World τ α) : Undoes [] w w := fun x _ hs => ⟨.refl x, hs⟩

/-- One more load, with what the task saved before it. -/
theorem Undoes.cons (h : Undoes done w v)
    (ht : ∀ a agent, v.agent? a = some agent → TakesBack agent.task)
    (hs : v.saveTask a = .ok before) (state : Json) :
    Undoes ((a, before) :: done) w (v.loadTask a state).2 := by
  intro x hx hsaves
  have hvx : OnlyLoads v x := (loadTask_onlyLoads state).trans hx
  obtain ⟨hok, hback⟩ := loadTask_back ht hs hvx
  have hxy : OnlyLoads x (x.loadTask a before).2 := loadTask_onlyLoads before
  -- giving back the last state leads to what was saved before the last load
  have hsame : ∀ b, (x.loadTask a before).2.saveTask b = v.saveTask b := by
    intro b
    by_cases hb : b = a
    · rw [hb, hback, hs]
    · rw [saveTask_loadTask_ne before hb, hsaves, saveTask_loadTask_ne state hb]
  have hroll : rollBack ((a, before) :: done) x = rollBack done (x.loadTask a before).2 := by
    rw [rollBack]
    split
    · next y hy => rw [hy]
    · next e y hy => rw [hy] at hok; cases hok
  obtain ⟨hloads, hend⟩ := h _ (hvx.trans hxy) hsame
  rw [hroll]
  exact ⟨hxy.trans hloads, hend⟩

/-- When a state is refused, the tasks save what they saved at first. -/
theorem restore_refused (ht : ∀ a agent, v.agent? a = some agent → TakesBack agent.task)
    (hw : OnlyLoads w v) (hu : Undoes done w v) {e : AgentError}
    (h : (restore targets done v).1 = .error e) :
    OnlyLoads w (restore targets done v).2 ∧
      ∀ a, (restore targets done v).2.saveTask a = w.saveTask a := by
  have back {x : World τ α} (hx : OnlyLoads v x) (hs : ∀ a, x.saveTask a = v.saveTask a) :
      OnlyLoads w (rollBack done x) ∧ ∀ a, (rollBack done x).saveTask a = w.saveTask a :=
    ⟨(hw.trans hx).trans (hu x hx hs).1, (hu x hx hs).2⟩
  induction targets generalizing v done with
  | nil => cases h
  | cons target rest ih =>
    obtain ⟨a, state⟩ := target
    have hload : OnlyLoads v (v.loadTask a state).2 := loadTask_onlyLoads state
    rw [restore] at h ⊢
    split at h
    · exact back (.refl v) fun _ => rfl
    · next before hs =>
      have hcons := hu.cons ht hs state
      have hrefused (e : AgentError) (he : (v.loadTask a state).1 = .error e) (b : AgentRef) :
          (v.loadTask a state).2.saveTask b = v.saveTask b := saveTask_of_refused ht he b
      split at h
      · next v' hv =>
        rw [hv] at hload hcons
        refine ih (hload.takesBack ht) (hw.trans hload) hcons h fun hx hs => ?_
        exact ⟨((hw.trans hload).trans hx).trans (hcons _ hx hs).1, (hcons _ hx hs).2⟩
      · next e' v' hv =>
        rw [hv] at hload hrefused
        exact back hload (hrefused e' rfl)

/-! ## Loads of contexts -/

/-- The same contexts, the same host, and the same agents up to the inside of their tasks, which
save the same. -/
structure Unchanged (w v : World τ α) : Prop where
  contexts : SameContexts w v
  agents : SameAgents w v
  saves : ∀ a, v.saveTask a = w.saveTask a
  host : v.host = w.host

/-- A load that fails changes nothing, whatever the snapshot says. -/
theorem load_refused (w : World τ α) (c : ContextRef) (s : Snapshot) (e : ContextError)
    (ht : ∀ a agent, w.agent? a = some agent → TakesBack agent.task)
    (h : (w.load c s).1 = .error e) : Unchanged w (w.load c s).2 := by
  have same : Unchanged w w := ⟨.refl w, .refl w, fun _ => rfl, rfl⟩
  unfold load at h ⊢
  cases hc : w.context? c with
  | none => exact same
  | some ctx =>
    simp only [hc] at h ⊢
    cases hidle : ctx.ensureIdle with
    | error e => exact same
    | ok =>
      simp only [hidle] at h ⊢
      cases hr : w.resolveAll ctx s with
      | error m => exact same
      | ok found =>
        obtain ⟨named, targets⟩ := found
        simp only [hr] at h ⊢
        have hundone (e : AgentError) (he : (restore targets [] w).1 = .error e) :=
          restore_refused ht (.refl w) (.nil w) he
        cases hv : restore targets [] w with
        | mk result v =>
          rw [hv] at hundone
          simp only [hv] at h ⊢
          cases result with
          | error e =>
            obtain ⟨hloads, hsaves⟩ := hundone e rfl
            exact ⟨hloads.contexts, hloads.sameAgents, hsaves, hloads.host⟩
          | ok => cases h

end World

/-! ## The arena's tasks -/

namespace Arena.Task

variable {γ : Type} [Draws γ]

theorem load_minion (state : Json) (m : Minion) : ∃ m', (Behavior.load (α := Keep) state
    (minion m : Task γ)).2 = .minion m' := ⟨_, rfl⟩

/-- A load reaches the counter of a spawner, and nothing else in it. -/
theorem load_spawner (state : Json) (s : Spawner γ) : ∃ n, (Behavior.load (α := Keep) state
    (spawner s : Task γ)).2 = .spawner { s with spawned := n } := by
  show ∃ n, spawner (s.load state).2 = _
  unfold Spawner.load
  split
  · exact ⟨_, rfl⟩
  · exact ⟨s.spawned, rfl⟩

theorem refused (state : Json) (t : Task γ) {e : AgentError}
    (h : (Behavior.load (α := Keep) state t).1 = .error e) :
    (Behavior.load (α := Keep) state t).2 = t := by
  cases t with
  | spawner s =>
    show spawner (s.load state).2 = _
    replace h : (s.load state).1 = .error e := h
    unfold Spawner.load at h ⊢
    split at h
    · cases h
    · rfl
  | minion m =>
    show minion (m.load state).2 = _
    replace h : (m.load state).1 = .error e := h
    unfold Minion.load at h ⊢
    split at h
    · cases h
    · rfl

/-- A task of the arena that gets back what it saved is again as it was then. -/
theorem load_save {t u : Task γ} (h : Reloaded (α := Keep) t u) :
    Behavior.load (α := Keep) (Behavior.save (α := Keep) t) u = (.ok (), t) := by
  cases t with
  | spawner s =>
    have hu : ∃ n, u = .spawner { s with spawned := n } := by
      induction h with
      | refl => exact ⟨s.spawned, rfl⟩
      | tail _ hstep ih =>
        obtain ⟨n, rfl⟩ := ih
        obtain ⟨state, rfl⟩ := hstep
        exact load_spawner state _
    obtain ⟨n, rfl⟩ := hu
    have hlt := s.spawned.toNat_lt
    have hmember : (s.save.member? "spawned").bind Json.unsigned? =
        some (.ofNat s.spawned.toNat) := by
      simp [Spawner.save, Json.int, Json.member?, SortedMap.lookup, Json.unsigned?]
      omega
    show ((Spawner.load s.save { s with spawned := n }).1,
      spawner (Spawner.load s.save { s with spawned := n }).2) = _
    simp [Spawner.load, hmember]
  | minion m =>
    have hu : ∃ m', u = .minion m' := by
      induction h with
      | refl => exact ⟨m, rfl⟩
      | tail _ hstep ih =>
        obtain ⟨m', rfl⟩ := ih
        obtain ⟨state, rfl⟩ := hstep
        exact load_minion state m'
    obtain ⟨m', rfl⟩ := hu
    have hle := m.hp.le_toInt
    have hlt := m.hp.toInt_lt
    have hmember : (m.save.member? "hp").bind Json.signed? = some m.hp := by
      simp [Minion.save, Json.int, Json.member?, SortedMap.lookup, Json.signed?]
      omega
    show ((Minion.load m.save m').1, minion (Minion.load m.save m').2) = _
    simp [Minion.load, hmember]

/-- The tasks of the arena can be given back. -/
theorem takesBack (t : Task γ) : TakesBack (α := Keep) t where
  refuses u _ state _ h := refused state u h
  accepts u v _ hv := by rw [load_save hv]; exact ⟨rfl, rfl⟩

end Arena.Task

namespace World

section Sample

/-- Two minions in an arena. -/
def twoMinions : World (Arena.Task Arena.Generator) Arena.Keep :=
  run [.newContext ⟨1⟩ { classes := .ofList [("Minion", ⟨none, .empty⟩)] } 100,
    .create ⟨"first", "Minion", 1, .minion ⟨3⟩⟩, .create ⟨"second", "Minion", 1, .minion ⟨5⟩⟩,
    .on ⟨0⟩ (.task (.add ⟨0⟩)), .on ⟨0⟩ (.task (.add ⟨1⟩))] { host := { app := {} } }

/-- Two states for the first minion, and then one that the second refuses. -/
def minionStates : Snapshot where
  agents := [⟨⟨1⟩, "Minion", 1, .obj [("hp", .int 1)]⟩, ⟨⟨1⟩, "Minion", 1, .obj [("hp", .int 2)]⟩,
    ⟨⟨2⟩, "Minion", 1, .obj []⟩]

theorem load_refused_sample :
    (twoMinions.load ⟨0⟩ minionStates).1 = .error (.agent (.state "minion state lacks 'hp'")) ∧
      Unchanged twoMinions (twoMinions.load ⟨0⟩ minionStates).2 := by
  have hrefused : (twoMinions.load ⟨0⟩ minionStates).1 =
      .error (.agent (.state "minion state lacks 'hp'")) := by rfl
  exact ⟨hrefused, load_refused _ _ _ _ (fun _ agent _ => Arena.Task.takesBack agent.task) hrefused⟩

end Sample

end World

end AgentScheduler
