/-
Binding a name and dropping it. Whether a name can be bound is a question of three conditions,
asked in this order: the name suits the class of the agent (`Suits`), the agent belongs to this
context and to no other one (`Joined`), nobody else holds the name (`Free`). Reading the tests of
`bindFault?` as these conditions needs that registries and agents agree (`bindFault?_verdict`);
`naming_exact` says for every point of every run what `bind` and `unbind` answer, which names
they change, and that they change nothing else.
-/
import AgentScheduler.Proofs.Bindings
import AgentScheduler.Proofs.Drain

namespace AgentScheduler

namespace World

variable {τ α : Type} {w v : World τ α} {c d : ContextRef} {ctx : Context} {a : AgentRef}
  {agent : Agent τ} {name n : String}

/-! ## Conditions -/

/-- The name belongs to the class of the agent or to an ancestor of it. -/
def Suits (ctx : Context) (name : String) (agent : Agent τ) : Prop :=
  ∃ owner ∈ ctx.types.lineage agent.cls, ctx.types.instanceClass? name = some owner

/-- No other context has the agent, and this one has it or is to take it up after the walk. -/
structure Joined (w : World τ α) (c : ContextRef) (ctx : Context) (a : AgentRef) : Prop where
  nowhereElse : ∀ d, d ≠ c → w.containsAgent d a = false
  here : w.containsAgent c a = true ∨ a ∈ ctx.registry.pendingAdd

/-- The name is not bound, or bound to an agent that is gone, or to this agent. -/
def Free (w : World τ α) (ctx : Context) (name : String) (a : AgentRef) : Prop :=
  ∀ b, ctx.registry.named.get? name = some b → b = a ∨ w.alive b = false

/-- The first condition that fails is the one that is named. -/
inductive Verdict (w : World τ α) (c : ContextRef) (ctx : Context) (name : String)
    (a : AgentRef) (agent : Agent τ) : Option AgentError → Prop
  | unsuited (hs : ¬Suits ctx name agent) :
    Verdict w c ctx name a agent (some (.unregisteredName name agent.cls))
  | apart (hs : Suits ctx name agent) (hj : ¬Joined w c ctx a) :
    Verdict w c ctx name a agent (some (.notRegistered agent.name))
  | taken (hs : Suits ctx name agent) (hj : Joined w c ctx a) (hf : ¬Free w ctx name a) :
    Verdict w c ctx name a agent (some (.nameAlreadyBound name))
  | free (hs : Suits ctx name agent) (hj : Joined w c ctx a) (hf : Free w ctx name a) :
    Verdict w c ctx name a agent none

/-- The place of an agent says whether another context has it. -/
theorem elsewhere_iff (hw : w.DistinctIds ∧ w.Coherent) (hc : w.context? c = some ctx)
    (hl : w.live? a = some agent) :
    (agent.place.context.isValid && agent.place.context != ctx.id) = true ↔
      ∃ d, d ≠ c ∧ w.containsAgent d a = true := by
  rw [← isElsewhere_iff hw hc, isElsewhere_eq hl]
  rfl

theorem joined_iff (hw : w.DistinctIds ∧ w.Coherent) (hc : w.context? c = some ctx)
    (hl : w.live? a = some agent) : Joined w c ctx a ↔
      (agent.place.context.isValid && agent.place.context != ctx.id) = false ∧
        (!ctx.holds agent.place && !ctx.registry.pendingAdd.contains a) = false := by
  have hhere : (w.containsAgent c a = true ∨ a ∈ ctx.registry.pendingAdd) ↔
      (!ctx.holds agent.place && !ctx.registry.pendingAdd.contains a) = false := by
    rw [containsAgent_iff hc hl, ← List.contains_iff_mem]
    cases ctx.holds agent.place <;> cases ctx.registry.pendingAdd.contains a <;> simp
  have hnowhere : (∀ d, d ≠ c → w.containsAgent d a = false) ↔
      (agent.place.context.isValid && agent.place.context != ctx.id) = false := by
    rw [← Bool.not_eq_true, elsewhere_iff hw hc hl]
    simp
  rw [← hhere, ← hnowhere]
  exact ⟨fun hj => ⟨hj.nowhereElse, hj.here⟩, fun hj => ⟨hj.1, hj.2⟩⟩

/-- The tests of a binding, one after the other. -/
theorem bindFault?_verdict (hw : w.DistinctIds ∧ w.Coherent) (hc : w.context? c = some ctx)
    (hl : w.live? a = some agent) (name : String) :
    Verdict w c ctx name a agent (w.bindFault? ctx name a agent) := by
  have hj := joined_iff hw hc hl
  unfold bindFault?
  cases hvalid : ctx.types.isValidInstanceName name agent.cls with
  | false =>
    refine .unsuited fun hs => ?_
    rw [Hierarchy.isValidInstanceName_iff.2 hs] at hvalid
    cases hvalid
  | true =>
    have hs : Suits ctx name agent := Hierarchy.isValidInstanceName_iff.1 hvalid
    cases helse : agent.place.context.isValid && agent.place.context != ctx.id with
    | true => exact .apart hs fun h => by rw [hj, helse] at h; cases h.1
    | false =>
      cases hhere : !ctx.holds agent.place && !ctx.registry.pendingAdd.contains a with
      | true => exact .apart hs fun h => by rw [hj, hhere] at h; cases h.2
      | false =>
        have hjoined : Joined w c ctx a := hj.2 ⟨helse, hhere⟩
        cases hn : ctx.registry.named.get? name with
        | none => exact .free hs hjoined fun b hb => by rw [hn] at hb; cases hb
        | some other =>
          by_cases hother : other ≠ a ∧ w.alive other = true
          · simp only [Bool.not_true, Bool.false_eq_true, if_false, if_pos hother]
            refine .taken hs hjoined fun hf => ?_
            rcases hf other hn with he | hgone
            · exact hother.1 he
            · simp [hgone] at hother
          · simp only [Bool.not_true, Bool.false_eq_true, if_false, if_neg hother]
            refine .free hs hjoined fun b hb => ?_
            rw [hn, Option.some.injEq] at hb
            subst hb
            by_cases he : other = a
            · exact .inl he
            · exact .inr (by simpa [he] using hother)

/-! ## What is left alone -/

/-- No agent changes, and of the contexts only the names of one. -/
structure OnlyNames (c : ContextRef) (w v : World τ α) : Prop where
  agents : v.agents = w.agents
  contexts : ∃ named, ∀ d, v.context? d =
    if d = c then (w.context? d).map (·.withRegistry ({ · with named })) else w.context? d

namespace OnlyNames

theorem refl (hc : w.context? c = some ctx) : OnlyNames c w w where
  agents := rfl
  contexts := by
    refine ⟨ctx.registry.named, fun d => ?_⟩
    split
    · next hd => rw [hd, hc]; rfl
    · rfl

theorem report (h : OnlyNames c w v) (e : Event) : OnlyNames c w (v.report e) :=
  ⟨h.agents, h.contexts⟩

theorem modifyRegistry (hc : w.context? c = some ctx) {f : Registry → Registry}
    {named : SortedMap String AgentRef} (hf : f ctx.registry = { ctx.registry with named }) :
    OnlyNames c w (w.modifyRegistry c f) where
  agents := rfl
  contexts := by
    refine ⟨named, fun d => ?_⟩
    rw [becomes_modifyRegistry hc f d]
    split
    · next hd => rw [hd, hc, Option.map_some, Context.withRegistry, hf, Context.withRegistry]
    · rfl

theorem live? (h : OnlyNames c w v) (b : AgentRef) : v.live? b = w.live? b :=
  live?_congr (by rw [agent?, agent?, h.agents])

/-- Who is registered where stays as it is. -/
theorem containsAgent (h : OnlyNames c w v) (d : ContextRef) (b : AgentRef) :
    v.containsAgent d b = w.containsAgent d b := by
  obtain ⟨named, hcontexts⟩ := h.contexts
  rw [World.containsAgent, World.containsAgent, h.live?, hcontexts]
  by_cases hd : d = c
  · rw [if_pos hd]
    cases w.context? d <;> cases w.live? b <;> rfl
  · rw [if_neg hd]

end OnlyNames

/-! ## Names of a context -/

theorem lookup_of_context (hc : w.context? c = some ctx) :
    w.lookup c name = (ctx.registry.named.get? name).filter w.alive := by
  rw [lookup, hc, Option.bind_some]

/-- What a name stands for after a change of the names alone. -/
theorem lookup_modifyRegistry (hc : w.context? c = some ctx) (f : Registry → Registry)
    (n : String) : (w.modifyRegistry c f).lookup c n =
      ((f ctx.registry).named.get? n).filter w.alive :=
  lookup_of_context (context?_modifyContext_self hc _)

/-- Exactly what binding a name to a live agent does. -/
structure Binds (w : World τ α) (c : ContextRef) (ctx : Context) (name : String) (a : AgentRef)
    (agent : Agent τ) : Prop where
  accepted : (w.bind c name a).1 = .ok () ↔
    Suits ctx name agent ∧ Joined w c ctx a ∧ Free w ctx name a
  unsuited : (w.bind c name a).1 = .error (.unregisteredName name agent.cls) ↔
    ¬Suits ctx name agent
  apart : (w.bind c name a).1 = .error (.notRegistered agent.name) ↔
    Suits ctx name agent ∧ ¬Joined w c ctx a
  taken : (w.bind c name a).1 = .error (.nameAlreadyBound name) ↔
    Suits ctx name agent ∧ Joined w c ctx a ∧ ¬Free w ctx name a
  found : (w.bind c name a).1 = .ok () → ∀ n, (w.bind c name a).2.lookup c n =
    if n = name then some a else w.lookup c n
  refused : ∀ e, (w.bind c name a).1 = .error e →
    ∀ n, (w.bind c name a).2.lookup c n = w.lookup c n
  onlyNames : OnlyNames c w (w.bind c name a).2
  members : ∀ d b, (w.bind c name a).2.containsAgent d b = w.containsAgent d b

/-- A refused binding changes nothing at all. -/
theorem bind_of_fault {e : AgentError} (hc : w.context? c = some ctx)
    (hl : w.live? a = some agent) (hfault : w.bindFault? ctx name a agent = some e) :
    w.bind c name a = (.error e, w) := by
  simp [bind, hc, hl, hfault]

/-- A binding that nothing speaks against is made, unless it is there already. -/
theorem bind_of_free (hc : w.context? c = some ctx) (hl : w.live? a = some agent)
    (hfault : w.bindFault? ctx name a agent = none) :
    (w.bind c name a).1 = .ok () ∧ OnlyNames c w (w.bind c name a).2 ∧
      ∀ n, (w.bind c name a).2.lookup c n = if n = name then some a else w.lookup c n := by
  have halive : w.alive a = true := alive_of_live? hl
  simp only [bind, hc, hl, hfault]
  by_cases hn : ctx.registry.named.get? name = some a
  · rw [if_pos hn]
    refine ⟨rfl, .refl hc, fun n => ?_⟩
    split
    · next he => simp [he, lookup_of_context hc, hn, Option.filter, halive]
    · rfl
  · rw [if_neg hn]
    refine ⟨rfl, (OnlyNames.modifyRegistry hc rfl).report _, fun n => ?_⟩
    show (w.modifyRegistry c (·.setBinding name a)).lookup c n = _
    rw [lookup_modifyRegistry hc, Registry.setBinding, SortedMap.get?_insert]
    split
    · simp [Option.filter, halive]
    · rw [lookup_of_context hc]

/-- What is answered tells which condition failed first. -/
theorem Verdict.answers {fault : Option AgentError} {answer : Except AgentError Unit}
    (hv : Verdict w c ctx name a agent fault) (ha : answer = fault.elim (.ok ()) .error) :
    (answer = .ok () ↔ Suits ctx name agent ∧ Joined w c ctx a ∧ Free w ctx name a) ∧
      (answer = .error (.unregisteredName name agent.cls) ↔ ¬Suits ctx name agent) ∧
      (answer = .error (.notRegistered agent.name) ↔
        Suits ctx name agent ∧ ¬Joined w c ctx a) ∧
      (answer = .error (.nameAlreadyBound name) ↔
        Suits ctx name agent ∧ Joined w c ctx a ∧ ¬Free w ctx name a) := by
  subst ha
  cases hv with
  | unsuited hs => simp [hs]
  | apart hs hj => simp [hs, hj]
  | taken hs hj hf => simp [hs, hj, hf]
  | free hs hj hf => simp [hs, hj, hf]

theorem binds (hw : w.DistinctIds ∧ w.Coherent) (hc : w.context? c = some ctx)
    (hl : w.live? a = some agent) : Binds w c ctx name a agent := by
  have hverdict := bindFault?_verdict hw hc hl name
  cases hfault : w.bindFault? ctx name a agent with
  | some e =>
    have hb := bind_of_fault hc hl hfault
    rw [hfault] at hverdict
    obtain ⟨haccepted, hunsuited, hapart, htaken⟩ :=
      hverdict.answers (show (w.bind c name a).1 = .error e by rw [hb])
    have hrest : OnlyNames c w (w.bind c name a).2 := hb ▸ .refl hc
    exact {
      accepted := haccepted
      unsuited := hunsuited
      apart := hapart
      taken := htaken
      found := fun hok => by rw [hb] at hok; cases hok
      refused := fun _ _ n => by rw [hb]
      onlyNames := hrest
      members := hrest.containsAgent }
  | none =>
    obtain ⟨hok, hrest, hlookup⟩ := bind_of_free hc hl hfault
    rw [hfault] at hverdict
    obtain ⟨haccepted, hunsuited, hapart, htaken⟩ := hverdict.answers hok
    exact {
      accepted := haccepted
      unsuited := hunsuited
      apart := hapart
      taken := htaken
      found := fun _ => hlookup
      refused := fun e he => by rw [hok] at he; cases he
      onlyNames := hrest
      members := hrest.containsAgent }

/-- Exactly what dropping a name does. -/
structure Unbinds (w : World τ α) (c : ContextRef) (name : String) : Prop where
  accepted : (w.unbind c name).1 = .ok () ↔ ∃ a, w.lookup c name = some a
  missing : (w.unbind c name).1 = .error (.nameNotBound name) ↔ w.lookup c name = none
  found : (w.unbind c name).1 = .ok () → ∀ n, (w.unbind c name).2.lookup c n =
    if n = name then none else w.lookup c n
  refused : ∀ e, (w.unbind c name).1 = .error e →
    ∀ n, (w.unbind c name).2.lookup c n = w.lookup c n
  onlyNames : OnlyNames c w (w.unbind c name).2
  members : ∀ d b, (w.unbind c name).2.containsAgent d b = w.containsAgent d b

/-- Dropping a name, whether it was bound to a living agent, to one that is gone, or not. -/
theorem unbind_cases (hc : w.context? c = some ctx) (name : String) :
    (w.unbind c name).1 =
        (if (w.lookup c name).isSome then .ok () else .error (.nameNotBound name)) ∧
      OnlyNames c w (w.unbind c name).2 ∧
      ∀ n, (w.unbind c name).2.lookup c n = if n = name then none else w.lookup c n := by
  have hany : (ctx.registry.named.get? name).any w.alive = (w.lookup c name).isSome := by
    rw [lookup_of_context hc]
    cases ctx.registry.named.get? name with
    | none => rfl
    | some b => cases hb : w.alive b <;> simp [Option.filter, hb]
  have hdropped : ∀ n, (w.modifyRegistry c (·.dropBinding name)).lookup c n =
      if n = name then none else w.lookup c n := by
    intro n
    rw [lookup_modifyRegistry hc, Registry.dropBinding, SortedMap.get?_erase]
    split
    · rfl
    · rw [lookup_of_context hc]
  have hrest : OnlyNames c w (w.modifyRegistry c (·.dropBinding name)) :=
    .modifyRegistry hc rfl
  simp only [unbind, hc, hany]
  split
  · exact ⟨rfl, hrest.report _, hdropped⟩
  · exact ⟨rfl, hrest, hdropped⟩

theorem unbinds (hc : w.context? c = some ctx) (name : String) : Unbinds w c name := by
  obtain ⟨hresult, hrest, hlookup⟩ := unbind_cases hc name
  cases hn : w.lookup c name with
  | none =>
    have herr : (w.unbind c name).1 = .error (.nameNotBound name) := by simp [hresult, hn]
    exact {
      accepted := by simp [herr, hn]
      missing := by simp [herr, hn]
      found := fun hok => by rw [herr] at hok; cases hok
      refused := fun _ _ n => by
        rw [hlookup]
        split
        · next he => rw [he, hn]
        · rfl
      onlyNames := hrest
      members := hrest.containsAgent }
  | some a =>
    have hok : (w.unbind c name).1 = .ok () := by simp [hresult, hn]
    exact {
      accepted := by simp [hok, hn]
      missing := by simp [hok, hn]
      found := fun _ => hlookup
      refused := fun e he => by rw [hok] at he; cases he
      onlyNames := hrest
      members := hrest.containsAgent }

/-! ## Runs -/

section Runs

variable [Behavior τ α]

/-- At every point of every run, whether a tick is under way or not, names are bound and dropped
exactly so. -/
theorem naming_exact (h : Host α) (ds : List (Deed τ α))
    (hd : ∀ v ∈ points ds ({ host := h } : World τ α), v.DistinctIds) :
    ∀ v ∈ points ds ({ host := h } : World τ α), ∀ c ctx, v.context? c = some ctx → ∀ name,
      (∀ a agent, v.live? a = some agent → v.Binds c ctx name a agent) ∧ v.Unbinds c name := by
  intro v hv c ctx hc name
  have hw : v.DistinctIds ∧ v.Coherent := ⟨hd v hv, coherent_points h ds hd v hv⟩
  exact ⟨fun a agent hl => binds hw hc hl, unbinds hc name⟩

/-- Two agents get names while they are queued, and one of them is refused in the end. -/
theorem naming_exact_sample :
    (∀ v ∈ points namingDeeds ({ host := { app := () } } : World Routine Unit), v.DistinctIds) ∧
      ∀ v ∈ points namingDeeds ({ host := { app := () } } : World Routine Unit), ∀ c ctx,
        v.context? c = some ctx → ∀ name,
          (∀ a agent, v.live? a = some agent → v.Binds c ctx name a agent) ∧
            v.Unbinds c name := by
  have hids : ∀ v ∈ points namingDeeds ({ host := { app := () } } : World Routine Unit),
      v.contextIds.Nodup ∧ .invalid ∉ v.contextIds := by decide +kernel
  have hd : ∀ v ∈ points namingDeeds ({ host := { app := () } } : World Routine Unit),
      v.DistinctIds := fun v hv => .of_contextIds (hids v hv)
  exact ⟨hd, naming_exact { app := () } namingDeeds hd⟩

end Runs

end World

end AgentScheduler
