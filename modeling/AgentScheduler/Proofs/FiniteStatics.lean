/-
Finite static variables. The values of a context come from four sides: its
classes declare them, they are set, logged and loaded. Setting refuses what is
not finite and no text is read as such a value, so all values and baselines of
a context stay finite if the declared ones are (`Happens.finite`). Nothing
checks those: a new context is exactly as finite as its classes
(`finite_seeded`).
-/
import AgentScheduler.Proofs.Acceptance
import AgentScheduler.Proofs.Declarations
import AgentScheduler.Proofs.Receiver
import AgentScheduler.Proofs.Routine

namespace AgentScheduler

/-! ## Values by name -/

theorem Variables.isFinite_iff {vars : Variables} :
    vars.isFinite = true ↔ ∀ name v, vars.get? name = some v → v.isFinite = true := by
  simp only [isFinite, List.all_eq_true, Prod.forall, SortedMap.get?_eq_some_iff]

theorem Variables.isFinite_insert {vars : Variables} {name : String} {v : Value}
    (h : vars.isFinite = true) (hv : v.isFinite = true) :
    Variables.isFinite (vars.insert name v) = true := by
  rw [isFinite_iff] at h ⊢
  intro name' v' hget
  rw [SortedMap.get?_insert] at hget
  split at hget
  · exact Option.some.inj hget ▸ hv
  · exact h name' v' hget

theorem Snapshot.allFinite_iff_get? {m : SortedMap String Variables} :
    allFinite m = true ↔ ∀ cls vars, m.get? cls = some vars → vars.isFinite = true := by
  simp only [allFinite, List.all_eq_true, Prod.forall, SortedMap.get?_eq_some_iff]

/-! ## Declared values -/

namespace Hierarchy

/-- All values that classes declare for static variables are finite. -/
def declaresFinite (h : Hierarchy) : Bool := h.classes.toList.all fun e => e.2.statics.isFinite

theorem declaresFinite_iff {h : Hierarchy} : h.declaresFinite = true ↔
    ∀ cls info, h.classes.get? cls = some info → info.statics.isFinite = true := by
  simp only [declaresFinite, List.all_eq_true, Prod.forall, SortedMap.get?_eq_some_iff]

/-- Finite declarations make a hierarchy that declares nothing else. -/
theorem declaresFinite_of_build {ds : List Declaration} {h : Hierarchy} (hb : build ds = .ok h)
    (hds : ∀ cls name v, Declaration.static cls name v ∈ ds → v.isFinite = true) :
    h.declaresFinite = true := by
  have hid : ∀ l : List String, (id l).Perm l := .refl
  rcases buildIn_cases hid ds with ⟨h', hok, -, hd⟩ | ⟨⟨e, herr⟩, -⟩
  · cases hb.symm.trans hok
    refine declaresFinite_iff.2 fun cls info hi => Variables.isFinite_iff.2 fun name v hv => ?_
    have hlast := hd.statics cls name
    rw [staticDefaults?, hi, Option.map_some, Option.bind_some, hv] at hlast
    exact hds cls name v (mem_staticDecls.1 (mem_of_lastValue? hlast.symm))
  · cases hb.symm.trans herr

end Hierarchy

/-! ## Live values and baselines -/

namespace Statics

/-- All live values and all baselines are finite. -/
structure Finite (s : Statics) : Prop where
  live : Snapshot.allFinite s.live = true
  baselines : Snapshot.allFinite s.baselines = true

variable {types : Hierarchy} {s s' : Statics} {T : List Told}

/-- A new context is as finite as its classes. -/
theorem finite_seeded : (seeded types).Finite ↔ types.declaresFinite = true := by
  have hlive : Snapshot.allFinite (seeded types).live = true ↔ types.declaresFinite = true := by
    rw [Snapshot.allFinite_iff_get?, Hierarchy.declaresFinite_iff, seeded,
      Hierarchy.allStaticDefaults]
    simp only [SortedMap.get?_mapValues, SortedMap.get?_filter, Option.map_eq_some_iff,
      Option.filter_eq_some_iff]
    constructor
    · intro h cls info hinfo
      by_cases he : info.statics.isEmpty = true
      · rw [SortedMap.isEmpty_iff.1 he]
        rfl
      · exact h cls info.statics ⟨info, ⟨hinfo, by simp [he]⟩, rfl⟩
    · rintro h cls _ ⟨info, ⟨hinfo, -⟩, rfl⟩
      exact h cls info hinfo
  exact ⟨fun h => hlive.1 h.live, fun h => ⟨hlive.2 h, rfl⟩⟩

theorem Finite.set {cls name : String} {v : Value} (hs : s.Finite)
    (h : s.set types cls name v = .ok s') : s'.Finite := by
  unfold Statics.set at h
  split at h
  · cases h
  split at h
  · cases h
  next hv =>
  cases h
  refine ⟨?_, hs.baselines⟩
  have hlive := Snapshot.allFinite_iff_get?.1 hs.live
  refine Snapshot.allFinite_iff_get?.2 fun cls' vars hget => ?_
  rw [SortedMap.get?_insert] at hget
  split at hget
  · obtain rfl := Option.some.inj hget
    refine Variables.isFinite_insert ?_ (by simpa using hv)
    cases hc : s.live.get? cls with
    | none => rfl
    | some vars => exact hlive cls vars hc
  · exact hlive cls' vars hget

theorem Finite.commit (hs : s.Finite) (cls : String) : (s.commit cls).Finite := by
  refine ⟨hs.live, Snapshot.allFinite_iff_get?.2 fun cls' vars hget => ?_⟩
  have hbase := Snapshot.allFinite_iff_get?.1 hs.baselines
  unfold Statics.commit at hget
  cases hl : s.live.get? cls with
  | some live =>
    simp only [hl, SortedMap.get?_insert] at hget
    split at hget
    · exact Option.some.inj hget ▸ Snapshot.allFinite_iff_get?.1 hs.live cls live hl
    · exact hbase cls' vars hget
  | none =>
    simp only [hl, SortedMap.get?_erase] at hget
    split at hget
    · cases hget
    · exact hbase cls' vars hget

theorem Finite.logged {l : List String} {through : Bool} (hs : s.Finite)
    (h : Logged l s T through s') : s'.Finite := by
  induction h with
  | done | refused => exact hs
  | still _ _ ih => exact ih hs
  | sent _ _ ih => exact ih (hs.commit _)

/-- Every step but a load keeps values and baselines finite. -/
theorem Finite.step (hs : s.Finite) (h : Step types s T s') (hT : ∀ b, .loaded b ∉ T) :
    s'.Finite := by
  cases h with
  | set h => exact hs.set h
  | log h => exact hs.logged h
  | clear => exact ⟨hs.live, rfl⟩
  | replace => exact absurd List.mem_cons_self (hT _)

/-- No log loads anything. -/
theorem not_loaded_of_accepted {α : Type} {context : ContextId} {frame : UInt64}
    {cls : Option String} {sink : Sink α} {h : Host α} {b : SortedMap String Variables} :
    .loaded b ∉ s.accepted context frame cls sink h := by
  intro hb
  obtain ⟨r, -, hr⟩ := List.mem_filterMap.1 hb
  cases r <;> cases hr

end Statics

namespace World

variable {τ α : Type} [Behavior τ α] {w v : World τ α} {c c' : ContextRef} {told : List Told}
  {s : Snapshot}

/-- The values and baselines of a context are finite if its classes declare no others. -/
def FiniteAt (c : ContextRef) (w : World τ α) : Prop :=
  ∀ ctx, w.context? c = some ctx → ctx.types.declaresFinite = true → ctx.statics.Finite

/-! ## Loads -/

/-- The snapshots that a moment loads into a context, or tries to. -/
def loadsMoment (c : ContextRef) (m : Moment τ α) : List Snapshot :=
  match m.what with
  | .asks (.here (.load s)) => if c = m.context then [s] else []
  | .asks (.there other (.load s)) => if c = other then [s] else []
  | _ => []

/-- The snapshots that a deed loads into a context, or tries to. -/
def loadsDeed (c : ContextRef) (w : World τ α) : Deed τ α → List Snapshot
  | .on other (.load s) => if c = other then [s] else []
  | d => (w.deedMoments d).flatMap (loadsMoment c)

/-- The snapshots that a run loads into a context, or tries to. -/
def loads (c : ContextRef) : List (Deed τ α) → World τ α → List Snapshot
  | [], _ => []
  | d :: ds, w => loadsDeed c w d ++ loads c ds (w.perform d)

omit [Behavior τ α] in
theorem not_loaded_of_tellsLog {cls : Option String} {sink : Sink α}
    {b : SortedMap String Variables} : .loaded b ∉ w.tellsLog c cls sink := by
  unfold tellsLog
  split
  · exact List.not_mem_nil
  · split
    · exact List.not_mem_nil
    · exact Statics.not_loaded_of_accepted

/-- Only a load tells of a load. -/
theorem load_of_tellsOp {op : ContextOp α} {b : SortedMap String Variables}
    (h : .loaded b ∈ w.tellsOp c op) : ∃ s, op = .load s := by
  cases op with
  | load s => exact ⟨s, rfl⟩
  | logStatics cls sink => exact absurd h not_loaded_of_tellsLog
  | logState sink =>
    simp only [tellsOp, tellsState] at h
    split at h
    · cases h
    · split at h
      · cases h
      · exact absurd h not_loaded_of_tellsLog
  | release | clearBaselines =>
    simp only [tellsOp] at h
    split at h
    · cases List.mem_singleton.1 h
    · cases h
  | task | counts | tick | save | clearBindings | setClock => cases h

/-! ## Steps -/

omit [Behavior τ α] in
theorem FiniteAt.follows (hw : FiniteAt c w) (h : Follows c told w v)
    (ht : ∀ b, .loaded b ∉ told) : FiniteAt c v := by
  intro ctx' hc' htypes
  cases hc : w.context? c with
  | none =>
    rw [((h.absent hc).2 ctx' hc').2]
    exact Statics.finite_seeded.2 htypes
  | some ctx =>
    rcases h.present ctx hc with ⟨-, hgone⟩ | ⟨y, hy, hsame, hstep⟩
    · rw [hgone] at hc'; cases hc'
    · obtain rfl := Option.some.inj (hy.symm.trans hc')
      exact (hw ctx hc (hsame ▸ htypes)).step hstep ht

omit [Behavior τ α] in
theorem FiniteAt.silent (hw : FiniteAt c w) (h : v.valuation = w.valuation) : FiniteAt c v :=
  hw.follows (.silent h) fun _ => List.not_mem_nil

/-- A load brings in the values of its snapshot, or changes none. -/
theorem FiniteAt.load (hw : FiniteAt c w) (hs : s.Encodable) : FiniteAt c (w.load c s).2 := by
  rcases load_cases (w := w) (c := c) s with ⟨-, hload⟩ | ⟨e, v, hload, -, hvars⟩ |
    ⟨ctx, named, targets, v, hc, -, -, hv, hload⟩
  · rw [hload]
    exact hw
  · rw [hload]
    exact hw.silent hvars
  · rw [hload]
    have hsame := (restore_edits (w := w) targets []).1 c
    rw [hv] at hsame
    intro ctx' hc' _
    have hself := context?_modifyContext_self (hsame.trans hc) (Context.reloaded s named)
    obtain rfl := Option.some.inj (hself.symm.trans hc')
    exact ⟨Snapshot.allFinite_iff.2 hs.values, Snapshot.allFinite_iff.2 hs.baselines⟩

/-- An operation that runs no task keeps values and baselines finite, if it loads no others. -/
theorem FiniteAt.answerContextOp (hw : FiniteAt c w) (nested : Nested τ α) {op : ContextOp α}
    (hop : op ≠ .tick) (hs : ∀ s, op = .load s → c = c' → s.Encodable) :
    FiniteAt c (w.answerContextOp nested c' op).2 := by
  by_cases hload : ∃ s, op = .load s ∧ c = c'
  · obtain ⟨s, rfl, rfl⟩ := hload
    exact hw.load (hs s rfl rfl)
  · refine hw.follows ((answerContextOp_turns nested op hop).follows c) fun b hb => hload ?_
    split at hb
    · next he =>
      obtain ⟨s, rfl⟩ := load_of_tellsOp hb
      exact ⟨s, rfl, he⟩
    · cases hb

theorem FiniteAt.answer (hw : FiniteAt c w) (nested : Nested τ α) {r : Request τ α}
    (hp : r.phase? c' = none) (hs : ∀ s ∈ loadsMoment c ⟨c', .asks r, w⟩, s.Encodable) :
    FiniteAt c (w.answer nested c' r).2 := by
  cases r with
  | here op =>
    refine hw.answerContextOp nested (fun he => by rw [he] at hp; cases hp) ?_
    rintro s rfl rfl
    exact hs s (by simp [loadsMoment])
  | there other op =>
    simp only [World.answer]
    split
    · exact hw
    · split
      · exact hw
      · refine hw.answerContextOp nested (fun he => by rw [he] at hp; cases hp) ?_
        rintro s rfl rfl
        exact hs s (by simp [loadsMoment])
  | dropContext | create | disown | view | exec | saveTask | loadTask | describeTask | app | setApp
  | report => exact hw.follows (answer_follows nested hp) fun _ => List.not_mem_nil

/-- Values and baselines stay finite throughout a phase that loads no others. -/
theorem Happens.finite {p : Phase} {T : List (Moment τ α)} (h : Happens p w T v)
    (hw : FiniteAt c w) (hT : ∀ m ∈ T, ∀ s ∈ loadsMoment c m, s.Encodable) :
    FiniteAt c v ∧ ∀ m ∈ T, FiniteAt c m.world := by
  have start {w : World τ α} {a : AgentRef} (hw : FiniteAt c w) : FiniteAt c (w.startTask a) :=
    hw.silent (valuation_modifyAgent _)
  have stop {w : World τ α} {a : AgentRef} (task : τ) (hw : FiniteAt c w) :
      FiniteAt c (w.endTask a task) := hw.silent (valuation_modifyAgent _)
  induction h with
  | done | noExec | finish | noTick => exact ⟨hw, fun m hm => by cases hm⟩
  | refuse e => exact ⟨hw.silent (valuation_report e), fun m hm => by cases hm⟩
  | serve nested hp _ ih =>
    obtain ⟨hfirst, hrest⟩ := List.forall_mem_cons.1 hT
    obtain ⟨hv, hall⟩ := ih (hw.answer nested hp hfirst) hrest
    exact ⟨hv, List.forall_mem_cons.2 ⟨hw, hall⟩⟩
  | call _ _ _ ih ih' =>
    obtain ⟨hleft, hright⟩ := List.forall_mem_append.1 (List.forall_mem_cons.1 hT).2
    obtain ⟨hv, hall⟩ := ih hw hleft
    obtain ⟨hu, hall'⟩ := ih' hv hright
    exact ⟨hu, List.forall_mem_cons.2 ⟨hw, List.forall_mem_append.2 ⟨hall, hall'⟩⟩⟩
  | @exec c' a w v T agent status task _ _ _ ih =>
    obtain ⟨hv, hall⟩ := ih (start hw) (List.forall_mem_append.1 hT).1
    refine ⟨stop task hv, List.forall_mem_append.2 ⟨hall, ?_⟩⟩
    exact List.forall_mem_singleton.2 (stop task hv)
  | pass _ _ ih =>
    obtain ⟨hv, hall⟩ := ih hw (List.forall_mem_cons.1 hT).2
    exact ⟨hv, List.forall_mem_cons.2 ⟨hw, hall⟩⟩
  | skip _ _ e _ ih =>
    obtain ⟨hv, hall⟩ := ih (hw.silent (valuation_report e)) (List.forall_mem_cons.1 hT).2
    exact ⟨hv, List.forall_mem_cons.2 ⟨hw, hall⟩⟩
  | @visit c' a l w v u T T' agent status task _ _ _ _ ih ih' =>
    obtain ⟨hleft, hright⟩ := List.forall_mem_append.1 (List.forall_mem_cons.1 hT).2
    obtain ⟨hv, hall⟩ := ih (start hw) hleft
    have hend := stop (a := a) task hv
    obtain ⟨hu, hall'⟩ := ih' hend (List.forall_mem_cons.1 hright).2
    refine ⟨hu, List.forall_mem_cons.2 ⟨hw, List.forall_mem_append.2 ⟨hall, ?_⟩⟩⟩
    exact List.forall_mem_cons.2 ⟨hend, hall'⟩
  | tick _ _ _ e ih =>
    obtain ⟨hv, hall⟩ := ih (hw.silent valuation_startWalk) hT
    exact ⟨(hv.silent (valuation_finishWalk _)).silent (valuation_report e), hall⟩

/-! ## Runs -/

/-- Values and baselines stay finite throughout a deed that loads no others. -/
theorem FiniteAt.perform (hw : FiniteAt c w) (d : Deed τ α)
    (hs : ∀ s ∈ loadsDeed c w d, s.Encodable) :
    FiniteAt c (w.perform d) ∧ ∀ m ∈ w.deedMoments d, FiniteAt c m.world := by
  have only {v : World τ α} (hv : FiniteAt c v) :
      FiniteAt c v ∧ ∀ m ∈ ([] : List (Moment τ α)), FiniteAt c m.world :=
    ⟨hv, fun m hm => by cases hm⟩
  cases d with
  | create g => exact only (hw.silent rfl)
  | disown a => exact only (hw.silent rfl)
  | loadTask a state => exact only (hw.silent (valuation_loadTask state))
  | newContext id types stepMillis =>
    exact only (hw.follows (newContext_follows id types stepMillis) fun _ => List.not_mem_nil)
  | dropContext c' => exact only (hw.follows dropContext_follows fun _ => List.not_mem_nil)
  | setCreated c' created => exact only (hw.silent (valuation_modifyContext fun _ => rfl))
  | on c' op =>
    by_cases hop : op = .tick
    · subst hop
      refine Happens.finite (tickWith_happens (traced_nested nestingLimit)) hw fun m hm s hms => ?_
      exact hs s (List.mem_flatMap.2 ⟨m, hm, hms⟩)
    · have hnone : w.deedMoments (.on c' op) = [] := by
        unfold deedMoments
        split
        · next heq => cases heq; exact absurd rfl hop
        · next heq => cases heq
        · rfl
      rw [hnone]
      refine only (hw.answerContextOp _ hop ?_)
      rintro s rfl rfl
      exact hs s (by simp [loadsDeed])
  | exec c' a =>
    have hs : ∀ m ∈ w.deedMoments (.exec c' a), ∀ s ∈ loadsMoment c m, s.Encodable :=
      fun m hm s hms => hs s (List.mem_flatMap.2 ⟨m, hm, hms⟩)
    simp only [World.perform, World.exec, deedMoments] at hs ⊢
    cases hc : w.context? c' with
    | none => exact only hw
    | some ctx =>
      simp only [hc] at hs
      have hbegin : FiniteAt c (w.modifyContext c' fun ctx => { ctx with inUse := true }) :=
        hw.silent (valuation_modifyContext fun _ => rfl)
      obtain ⟨hend, hm⟩ := Happens.finite (task_happens (traced_nested nestingLimit)) hbegin hs
      exact ⟨hend.silent (valuation_modifyContext fun _ => rfl), hm⟩
  | host f => exact only (hw.silent rfl)

/-- Along a run that loads no others, values and baselines stay finite. -/
theorem FiniteAt.points (ds : List (Deed τ α)) (hw : FiniteAt c w)
    (hs : ∀ s ∈ loads c ds w, s.Encodable) : ∀ v ∈ points ds w, FiniteAt c v := by
  induction ds generalizing w with
  | nil => exact fun v hv => List.mem_singleton.1 hv ▸ hw
  | cons d ds ih =>
    obtain ⟨hdeed, hrest⟩ := List.forall_mem_append.1 hs
    obtain ⟨hafter, hm⟩ := hw.perform d hdeed
    refine List.forall_mem_cons.2 ⟨hw, List.forall_mem_append.2 ⟨?_, ih hafter hrest⟩⟩
    intro v hv
    obtain ⟨m, hmem, rfl⟩ := List.mem_map.1 hv
    exact hm m hmem

/-! ## Saves -/

/-- The states of a save are states of tasks. -/
theorem state_of_saveAgents {as : List AgentRef} {agents : List AgentSnapshot}
    (h : w.saveAgents as = .ok agents) :
    ∀ snap ∈ agents, ∃ t : τ, snap.state = Behavior.save t := by
  induction as generalizing agents with
  | nil =>
    cases h
    exact fun snap hs => by cases hs
  | cons a as ih =>
    unfold saveAgents at h ih
    rw [List.filterMapM_cons] at h
    obtain ⟨found, ha, h⟩ := bind_ok.1 h
    cases hl : w.live? a with
    | none =>
      simp only [hl] at ha
      cases ha
      exact ih h
    | some agent =>
      simp only [hl] at ha
      obtain ⟨state, hstate, ha⟩ := bind_ok.1 ha
      cases ha
      obtain ⟨rest, hrest, h⟩ := bind_ok.1 h
      cases h
      refine List.forall_mem_cons.2 ⟨⟨agent.task, ?_⟩, ih hrest⟩
      simp only [saveTask, hl] at hstate
      split at hstate
      · cases hstate
      · cases hstate
        rfl

/-- A save has the values and baselines of its context, and states of tasks. -/
theorem save_parts {ctx : Context} (hc : w.context? c = some ctx) (h : w.save c = (.ok s, v)) :
    s.values = ctx.statics.live ∧ s.baselines = ctx.statics.baselines ∧
      ∀ snap ∈ s.agents, ∃ t : τ, snap.state = Behavior.save t := by
  simp only [save, hc] at h
  split at h
  · cases h
  · split at h
    · cases h
    · next agents hagents =>
      cases h
      exact ⟨rfl, rfl, state_of_saveAgents hagents⟩

/-- A save is written to a text that is accepted exactly if its context has finite values only and
no task state is nested too deep. -/
theorem save_accepted {ctx : Context} (hc : w.context? c = some ctx) (h : w.save c = (.ok s, v))
    (hproper : ∀ t : τ, (Behavior.save t).Proper) :
    (∃ s', Snapshot.decode s.toText = .ok s') ↔
      ctx.statics.Finite ∧ ∀ a ∈ s.agents, a.state.depth ≤ 124 := by
  obtain ⟨hvalues, hbaselines, hstates⟩ := save_parts hc h
  have hs : s.Proper := fun a ha => by
    obtain ⟨t, ht⟩ := hstates a ha
    rw [ht]
    exact hproper t
  rw [Snapshot.decode_accepts hs]
  constructor
  · intro he
    refine ⟨⟨?_, ?_⟩, he.states⟩
    · exact hvalues ▸ Snapshot.allFinite_iff.2 he.values
    · exact hbaselines ▸ Snapshot.allFinite_iff.2 he.baselines
  · rintro ⟨hfinite, hdepth⟩
    exact ⟨Snapshot.allFinite_iff.1 (hbaselines ▸ hfinite.baselines),
      Snapshot.allFinite_iff.1 (hvalues ▸ hfinite.live), hdepth⟩

/-- Finite declarations make classes that declare finite values only, and a new context has finite
values only exactly if its classes declare no others. In every run in which the snapshots that are
loaded into it were read from texts, such a context has finite values and baselines only, at every
point. Exactly then its saves are written to texts that are accepted, apart from task states that
are nested too deep. -/
theorem values_stay_finite :
    (∀ ds types, Hierarchy.build ds = .ok types →
      (∀ cls name v, Declaration.static cls name v ∈ ds → v.isFinite = true) →
      types.declaresFinite = true) ∧
    (∀ id types stepMillis,
      (Context.new id types stepMillis).statics.Finite ↔ types.declaresFinite = true) ∧
    ∀ (h : Host α) (ds : List (Deed τ α)) (c : ContextRef),
      (∀ s ∈ loads c ds { host := h }, ∃ text, Snapshot.decode text = .ok s) →
      (∀ t : τ, (Behavior.save t).Proper) →
      ∀ w ∈ points ds { host := h }, ∀ ctx, w.context? c = some ctx →
        (ctx.types.declaresFinite = true → ctx.statics.Finite) ∧
        ∀ s v, w.save c = (.ok s, v) → ((∃ s', Snapshot.decode s.toText = .ok s') ↔
          ctx.statics.Finite ∧ ∀ a ∈ s.agents, a.state.depth ≤ 124) := by
  refine ⟨fun ds types => Hierarchy.declaresFinite_of_build,
    fun id types stepMillis => Statics.finite_seeded, ?_⟩
  intro h ds c hloads hproper w hw ctx hc
  have hnone : FiniteAt c ({ host := h } : World τ α) := fun ctx hc => by simp [context?] at hc
  have hfinite : FiniteAt c w := by
    refine hnone.points ds (fun s hs => ?_) w hw
    obtain ⟨text, htext⟩ := hloads s hs
    exact (Snapshot.decode_spec htext).2
  exact ⟨hfinite ctx hc, fun s v hsave => save_accepted hc hsave hproper⟩

section Sample

/-- A text with a value and a baseline. -/
def measuredText : String :=
  "\x7b\"context_id\":1,\"clock\":[7,70,10],\"named\":\x7b\x7d,\"agents\":[],\"static_baselines\":"
    ++ "\x7b\"Agent\":\x7b\"x\":\x7b\"type\":\"int\",\"value\":4\x7d\x7d\x7d,\"static_values\":"
    ++ "\x7b\"Agent\":\x7b\"x\":\x7b\"type\":\"float\",\"value\":1e300\x7d\x7d\x7d\x7d"

/-- The snapshot it stands for. -/
def measured : Snapshot := (Snapshot.decode measuredText).toOption.getD {}

/-- A class with a declared value. -/
def gaugeTypes : Hierarchy :=
  ((Hierarchy.build [.cls "Agent" none,
    .static "Agent" "x" (.float ⟨0x3ff8000000000000⟩)]).toOption).getD {}

/-- The value is logged, set by a task during a tick and loaded. -/
def gaugeDeeds : List (Deed Routine Unit) :=
  let gauge : ContextRef := ⟨0⟩
  [.newContext ⟨1⟩ gaugeTypes 10, .on gauge (.logStatics none fun _ h => (.ok (), h)),
    .create ⟨"writer", "Agent", 0, ⟨[.here (.setStatic "Agent" "x" (.float .nan)),
      .here (.setStatic "Agent" "x" (.int 4))]⟩⟩,
    .on gauge (.task (.add ⟨0⟩)), .on gauge .tick, .on gauge (.load measured)]

theorem values_stay_finite_sample :
    (∀ s ∈ loads ⟨0⟩ gaugeDeeds ({ host := { app := () } } : World Routine Unit),
      ∃ text, Snapshot.decode text = .ok s) ∧
    (∀ t : Routine, (Behavior.save t).Proper) ∧
    ∃ ctx s v, (run gaugeDeeds ({ host := { app := () } } : World Routine Unit)).context? ⟨0⟩
        = some ctx ∧ ctx.types.declaresFinite = true ∧ ctx.statics.Finite ∧
      (run gaugeDeeds ({ host := { app := () } } : World Routine Unit)).save ⟨0⟩ = (.ok s, v) ∧
      ∃ s', Snapshot.decode s.toText = .ok s' := by
  have hmeasured : Snapshot.decode measuredText = .ok measured := by
    have hok : (Snapshot.decode measuredText).isOk = true := by decide +kernel
    cases hs : Snapshot.decode measuredText with
    | error e => rw [hs] at hok; cases hok
    | ok s => rw [measured, hs]; rfl
  have hloads : ∀ s ∈ loads ⟨0⟩ gaugeDeeds ({ host := { app := () } } : World Routine Unit),
      ∃ text, Snapshot.decode text = .ok s := by
    have hlist : loads ⟨0⟩ gaugeDeeds ({ host := { app := () } } : World Routine Unit)
        = [measured] := by rfl
    rw [hlist]
    exact List.forall_mem_singleton.2 ⟨_, hmeasured⟩
  have hproper : ∀ t : Routine, (Behavior.save t).Proper := fun _ => trivial
  refine ⟨hloads, hproper, ?_⟩
  have hparts := values_stay_finite.2.2 { app := () } gaugeDeeds ⟨0⟩ hloads hproper _
    (run_mem_points ..)
  have htypes : ((run gaugeDeeds ({ host := { app := () } } : World Routine Unit)).context?
      ⟨0⟩).any (·.types.declaresFinite) = true := by decide +kernel
  have hstates : ((run gaugeDeeds ({ host := { app := () } } : World Routine Unit)).save
      ⟨0⟩).1.toOption.any (·.agents.all fun a => a.state.depth ≤ 124) = true := by decide +kernel
  generalize run gaugeDeeds ({ host := { app := () } } : World Routine Unit) = w at *
  obtain ⟨ctx, hc, hdeclared⟩ := (Option.any_eq_true _ _).1 htypes
  obtain ⟨hfinite, haccepted⟩ := hparts ctx hc
  cases hs : w.save ⟨0⟩ with
  | mk result v =>
    cases result with
    | error e => rw [hs] at hstates; cases hstates
    | ok s =>
      rw [hs] at hstates
      have hflat : ∀ a ∈ s.agents, a.state.depth ≤ 124 := fun a ha => by
        simpa using List.all_eq_true.1 hstates a ha
      exact ⟨ctx, s, v, hc, hdeclared, hfinite hdeclared, rfl,
        (haccepted s v hs).2 ⟨hfinite hdeclared, hflat⟩⟩

end Sample

end World

end AgentScheduler
