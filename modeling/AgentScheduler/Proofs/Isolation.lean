/-
Contexts are isolated. An operation on one context changes no other one, and the
agents of the others stay where they are (`contexts_isolated`). A request for an
agent of another context comes to nothing: between ticks at once, during a tick
when its turn comes after the walk, even if the agent was free when it was made.
-/
import AgentScheduler.Proofs.RunOnce

namespace AgentScheduler.World

variable {τ α : Type} {w v : World τ α} {c d : ContextRef} {a : AgentRef} {ctx : Context}

/-! ## Agents of other contexts -/

/-- Another context has registered the agent. -/
def Foreign (w : World τ α) (c : ContextRef) (a : AgentRef) : Prop :=
  ∃ d, d ≠ c ∧ w.containsAgent d a = true

theorem containsAgent_cases (h : w.containsAgent d a = true) : ∃ ctx agent,
    w.context? d = some ctx ∧ w.live? a = some agent ∧ ctx.holds agent.place = true := by
  cases hd : w.context? d with
  | none => simp [containsAgent, hd] at h
  | some ctx =>
    cases hl : w.live? a with
    | none => simp [containsAgent, hl] at h
    | some agent => exact ⟨ctx, agent, rfl, rfl, (containsAgent_iff hd hl).1 h⟩

/-- A foreign agent names a context with another id, so it is not held here and is refused. -/
theorem Foreign.place (ha : w.Foreign c a) (hids : w.DistinctIds) (hc : w.context? c = some ctx) :
    ∃ agent, w.live? a = some agent ∧ agent.place.context ≠ ctx.id ∧
      ctx.holds agent.place = false ∧ ctx.entry agent.place = .elsewhere agent.place.context := by
  obtain ⟨d, hne, hd⟩ := ha
  obtain ⟨x, agent, hx, hl, hh⟩ := containsAgent_cases hd
  rw [Context.holds, Bool.and_eq_true, beq_iff_eq] at hh
  have hctx : agent.place.context ≠ ctx.id := fun he =>
    hne (hids.unique c d ctx x hc hx (he.symm.trans hh.1))
  have hvalid : agent.place.context ≠ .invalid := hh.1 ▸ hids.valid d x hx
  have hfalse : ctx.holds agent.place = false := by simp [Context.holds, hctx]
  refine ⟨agent, hl, hctx, hfalse, ?_⟩
  simp [Context.entry, hfalse, ContextId.isValid, hvalid, hctx]

/-! ## Requests for them -/

/-- No agent changes, and no context but that `f` changes the registry of `c` if a tick is under
way there. -/
def WaitsAtMost (c : ContextRef) (f : Registry → Registry) (w v : World τ α) : Prop :=
  (∀ b, v.agent? b = w.agent? b) ∧ ∀ c', v.context? c' = (w.context? c').map fun ctx =>
    if c' = c ∧ ctx.executing = true then ctx.withRegistry f else ctx

/-- During a tick the registry of `c` changes. -/
theorem waitsAtMost_modifyRegistry (hc : w.context? c = some ctx) (hx : ctx.executing = true)
    (f : Registry → Registry) (e : Event) :
    WaitsAtMost c f w ((w.modifyRegistry c f).report e) := by
  refine ⟨fun _ => rfl, fun c' => ?_⟩
  rw [context?_report, modifyRegistry, context?_modifyContext]
  split
  · next he =>
    subst he
    simp [hc, hx]
  · next hne => simp [hne]

/-- Without a tick under way nothing changes. -/
theorem waitsAtMost_of_same (hi : w.Idle c) (f : Registry → Registry)
    (ha : ∀ b, v.agent? b = w.agent? b) (hv : SameContexts w v) : WaitsAtMost c f w v := by
  refine ⟨ha, fun c' => (hv c').trans ?_⟩
  cases hc' : w.context? c' with
  | none => rfl
  | some ctx =>
    have hnot : ¬(c' = c ∧ ctx.executing = true) := by
      rintro ⟨rfl, hx⟩
      rw [hi ctx hc'] at hx
      cases hx
    rw [Option.map_some, if_neg hnot]

/-- What becomes of requests to `c` for an agent of another context. -/
structure Declined (c : ContextRef) (a : AgentRef) (w : World τ α) : Prop where
  add : WaitsAtMost c (fun r => { r with pendingAdd := r.pendingAdd ++ [a] }) w (w.addAgent c a)
  remove : WaitsAtMost c (fun r => { r with pendingRemove := r.pendingRemove ++ [a] }) w
    (w.removeAgent c a)
  bind : ∀ name, ∃ e, w.bind c name a = (.error e, w)

theorem Foreign.declined (ha : w.Foreign c a) (hids : w.DistinctIds) : Declined c a w := by
  cases hc : w.context? c with
  | none =>
    have hi : w.Idle c := fun ctx hctx => by rw [hc] at hctx; cases hctx
    refine ⟨?_, ?_, fun name => ⟨.notRegistered "", by simp only [bind, hc]⟩⟩
    · simp only [addAgent, hc]
      exact waitsAtMost_of_same hi _ (fun _ => rfl) (.refl w)
    · simp only [removeAgent, hc]
      exact waitsAtMost_of_same hi _ (fun _ => rfl) (.refl w)
  | some ctx =>
    obtain ⟨agent, hl, hctx, hholds, hentry⟩ := ha.place hids hc
    have hvalid := (Context.entry_elsewhere hentry).1
    refine ⟨?_, ?_, fun name => ?_⟩
    · cases hx : ctx.executing with
      | true =>
        simp only [addAgent, hc, hl, hx, if_true]
        exact waitsAtMost_modifyRegistry hc hx _ _
      | false =>
        simp only [addAgent, insertNow, hc, hl, hx, hentry, Bool.false_eq_true, if_false]
        exact waitsAtMost_of_same (idle_of hc hx) _ (fun _ => rfl) (.refl w)
    · cases hx : ctx.executing with
      | true =>
        simp only [removeAgent, hc, hl, hx, if_true]
        exact waitsAtMost_modifyRegistry hc hx _ _
      | false =>
        simp only [removeAgent, removeNow, hc, hl, hx, hctx, Bool.false_eq_true, if_false]
        exact waitsAtMost_of_same (idle_of hc hx) _ (fun _ => rfl) (.refl w)
    · have hfault : ∃ e, w.bindFault? ctx name a agent = some e := by
        unfold bindFault?
        split
        · exact ⟨_, rfl⟩
        · rw [if_pos (by simp [ContextId.isValid, hvalid, hctx])]
          exact ⟨_, rfl⟩
      obtain ⟨e, he⟩ := hfault
      exact ⟨e, by simp only [bind, hc, hl, he]⟩

/-! ## Requests that waited -/

/-- The requests of a list, each with the world in which its turn comes. -/
def drainTurns (apply : AgentRef → World τ α → Bool × World τ α) :
    List AgentRef → World τ α → List (AgentRef × World τ α)
  | [], _ => []
  | a :: l, w => (a, w) :: drainTurns apply l (apply a w).2

/-- The turns are chained by edits of a context between ticks. -/
theorem drainTurns_edits {apply : AgentRef → World τ α → Bool × World τ α}
    (happly : ∀ (w : World τ α) a, w.Idle c → Edits c w (apply a w).2) (l : List AgentRef)
    (hi : w.Idle c) : ∀ turn ∈ drainTurns apply l w, Edits c w turn.2 := by
  induction l generalizing w with
  | nil => exact fun turn ht => by cases ht
  | cons a l ih =>
    have h := happly w a hi
    exact List.forall_mem_cons.2 ⟨.refl, fun turn ht => h.trans (ih (h.idle hi) turn ht)⟩

/-- What becomes of a request for an agent of another context when its turn comes: no agent and no
registration changes, and the names that waited with it go. -/
structure TurnedAway (c : ContextRef) (ctx : Context) (a : AgentRef) (u : World τ α) : Prop where
  addition : (u.drainAddition c a).1 = false ∧
    (∀ b, (u.drainAddition c a).2.agent? b = u.agent? b) ∧
    Becomes c (ctx.withRegistry (·.unbindAgent a)) u (u.drainAddition c a).2
  removal : u.drainRemoval c a = (false, u)

theorem Foreign.turnedAway {u : World τ α} (ha : u.Foreign c a) (hids : u.DistinctIds)
    (hc : u.context? c = some ctx) : TurnedAway c ctx a u := by
  obtain ⟨agent, hl, hctx, hholds, hentry⟩ := ha.place hids hc
  refine ⟨?_, ?_⟩
  · have h := drainAddition_cases (a := a) hc
    generalize u.drainAddition c a = r at h
    have agree {x : Agent τ} (hx : u.live? a = some x) : ctx.entry x.place =
        .elsewhere agent.place.context := by
      rw [hl] at hx
      cases hx
      exact hentry
    cases h with
    | gone hdead => rw [hl] at hdead; cases hdead
    | already hx he => rw [agree hx] at he; cases he
    | fresh hx he => rw [agree hx] at he; cases he
    | refused hx he hv hag => exact ⟨rfl, hag, hv⟩
  · simp only [drainRemoval, removeNow, hc, hl, hholds, hctx, if_false]

section Ticks

variable [Behavior τ α]

/-- What waits at the end of the walk of a tick, with the worlds in which the turns come: additions
first, then removals. -/
def waitingTurns (n : Nat) (c : ContextRef) (w : World τ α) : List (AgentRef × World τ α) :=
  match w.context? c with
  | none => []
  | some ctx =>
    let u := w.walkEnd n c ctx
    match u.context? c with
    | none => []
    | some ended =>
      let v := u.settle c ctx.inUse
      drainTurns (drainAddition c) ended.registry.pendingAdd v ++
        drainTurns (drainRemoval c) ended.registry.pendingRemove
          (v.drain (drainAddition c) ended.registry.pendingAdd).2

/-- All turns come in worlds that edits make of the world in which the requests are taken out. -/
theorem waitingTurns_edits (n : Nat) : ∀ turn ∈ w.waitingTurns n c, ∃ ctx ended,
    w.context? c = some ctx ∧ (w.walkEnd n c ctx).context? c = some ended ∧
      Edits c ((w.walkEnd n c ctx).settle c ctx.inUse) turn.2 := by
  intro turn ht
  cases hc : w.context? c with
  | none => simp only [waitingTurns, hc] at ht; cases ht
  | some ctx =>
    simp only [waitingTurns, hc] at ht
    cases hended : (w.walkEnd n c ctx).context? c with
    | none => rw [hended] at ht; cases ht
    | some ended =>
      simp only [hended] at ht
      have hi : ((w.walkEnd n c ctx).settle c ctx.inUse).Idle c := idle_settle ctx.inUse hended
      have hadd := drain_edits (drainAddition c) (fun _ _ => drainAddition_edits)
        ended.registry.pendingAdd hi
      refine ⟨ctx, ended, rfl, hended, ?_⟩
      rcases List.mem_append.1 ht with ht | ht
      · exact drainTurns_edits (fun _ _ => drainAddition_edits) _ hi turn ht
      · exact hadd.trans
          (drainTurns_edits (fun _ _ => drainRemoval_edits) _ (hadd.idle hi) turn ht)

/-- A durable property that the end of a walk keeps holds when turns come. -/
theorem waitingTurns_durable {P : World τ α → Prop} (hP : Durable P)
    (hsettle : ∀ {u : World τ α} {ctx : Context} (inUse : Bool), u.context? c = some ctx → P u →
      P (u.settle c inUse))
    (n : Nat) (hi : w.Idle c) (hw : P w) : ∀ turn ∈ w.waitingTurns n c, P turn.2 := by
  intro turn ht
  obtain ⟨ctx, ended, hc, hended, hedits⟩ := waitingTurns_edits n turn ht
  have hx := hi ctx hc
  have hend := (hP.happens (tickWalk_happens n hc hx) (hP.startWalk hc hx hw)).1
  exact hP.edits hedits (hsettle _ hended hend)

/-- All turns come in worlds that are coherent and have the context. -/
theorem waitingTurns_worlds (n : Nat) (hw : w.DistinctIds ∧ w.Coherent)
    (hc : w.context? c = some ctx) (hx : ctx.executing = false) :
    ∀ turn ∈ w.waitingTurns n c,
      turn.2.DistinctIds ∧ ∃ ctx', turn.2.context? c = some ctx' := by
  intro turn ht
  have hcoh := waitingTurns_durable coherent_durable
    (fun inUse hc h => coherent_settle h inUse hc) n (idle_of hc hx) hw turn ht
  obtain ⟨_, ended, -, hended, hedits⟩ := waitingTurns_edits n turn ht
  have hs := hedits.shell c
  rw [context?_settle_self hended, Option.map_some, Option.map_eq_some_iff] at hs
  obtain ⟨ctx', hctx', -⟩ := hs
  exact ⟨hcoh.1, ctx', hctx'⟩

/-! ## Operations -/

/-- The tasks that an operation runs, if it is a tick, act on contexts through the one they are
given only. -/
def ConfinedOp (n : Nat) (c : ContextRef) (op : ContextOp α) (w : World τ α) : Prop :=
  op = .tick → Confined (w.tickMoments n c)

/-- What an operation on `c` means for the other contexts. -/
structure Isolation (n : Nat) (c : ContextRef) (op : ContextOp α) (w : World τ α) : Prop where
  /-- Every other context is as before: registrations, names, values, time and requests. -/
  others : w.ConfinedOp n c op → ∀ d, d ≠ c →
    (w.answerContextOp (nested (n + 1)) c op).2.context? d = w.context? d
  /-- Their agents stay where they are, as long as they live. -/
  settled : w.ConfinedOp n c op → ∀ d a agent agent', d ≠ c → w.containsAgent d a = true →
    w.live? a = some agent → (w.answerContextOp (nested (n + 1)) c op).2.live? a = some agent' →
      agent'.place = agent.place ∧
        (w.answerContextOp (nested (n + 1)) c op).2.containsAgent d a = true
  /-- Only a tick can end the life of an agent. -/
  spared : op ≠ .tick → ∀ a, (w.answerContextOp (nested (n + 1)) c op).2.alive a = w.alive a
  /-- Requests for an agent of another context are declined. -/
  declined : ∀ a, w.Foreign c a → Declined c a w
  /-- So are those that waited for the end of a walk, whatever the tasks did meanwhile, if the agent
  is in another context when their turn comes. -/
  turnedAway : op = .tick → ∀ ctx, w.context? c = some ctx → ctx.executing = false →
    ∀ turn ∈ w.waitingTurns n c, turn.2.Foreign c turn.1 →
      ∃ ctx', turn.2.context? c = some ctx' ∧ TurnedAway c ctx' turn.1 turn.2

/-- What an operation with confined tasks leaves. -/
theorem confinedOp_others (n : Nat) (op : ContextOp α) (hT : w.ConfinedOp n c op) (hne : d ≠ c) :
    (w.answerContextOp (nested (n + 1)) c op).2.context? d = w.context? d := by
  by_cases hop : op = .tick
  · have h : Happens (.tick c) w (w.tickMoments n c) (w.tickWith (nested n) c).2 :=
      tickWith_happens (traced_nested n)
    have hothers := (h.confined (hT hop)).2 d hne
    subst hop
    exact hothers
  · exact (answerContextOp_edits (nested (n + 1)) op hop).other hne

theorem coherent_answerContextOp (n : Nat) (op : ContextOp α) (hw : w.DistinctIds ∧ w.Coherent) :
    (w.answerContextOp (nested (n + 1)) c op).2.DistinctIds ∧
      (w.answerContextOp (nested (n + 1)) c op).2.Coherent := by
  by_cases hop : op = .tick
  · subst hop
    exact (coherent_durable.happens (tickWith_happens (traced_nested n)) hw).1
  · exact Coherent.edits (answerContextOp_edits (nested (n + 1)) op hop) hw

/-- At every point of every run in which contexts have distinct ids, an operation on one context
leaves the others and their agents alone. -/
theorem contexts_isolated (h : Host α) (ds : List (Deed τ α))
    (hd : ∀ v ∈ points ds ({ host := h } : World τ α), v.DistinctIds) (w : World τ α)
    (hw : w ∈ points ds { host := h }) (n : Nat) (c : ContextRef) (op : ContextOp α) :
    w.Isolation n c op := by
  have hcoh : w.DistinctIds ∧ w.Coherent := ⟨hd w hw, coherent_points h ds hd w hw⟩
  have hafter := (coherent_answerContextOp (c := c) n op hcoh).2
  refine ⟨fun hT d hne => confinedOp_others n op hT hne,
    fun hT d a agent agent' hne ha hl hl' => ?_, fun hop a => ?_,
    fun a ha => ha.declined hcoh.1, fun _ ctx hc hx turn ht ha => ?_⟩
  · -- the entry of the agent is still there, and says where the agent is
    obtain ⟨x, agent₀, hx, hl₀, hh⟩ := containsAgent_cases ha
    obtain rfl := Option.some.inj (hl.symm.trans hl₀)
    have hx' := (confinedOp_others n op hT hne).trans hx
    obtain ⟨p, i, he⟩ := (hcoh.2.holds_iff hx hl).1 hh
    have hplace := ((hcoh.2.entered d x a agent hx hl p i).1 he).1
    have hplace' := ((hafter.entered d x a agent' hx' hl' p i).1 he).1
    exact ⟨hplace'.trans hplace.symm,
      (containsAgent_iff hx' hl').2 ((hafter.holds_iff hx' hl').2 ⟨p, i, he⟩)⟩
  · exact alive_of_self ((answerContextOp_edits (nested (n + 1)) op hop).self a)
  · obtain ⟨hids, ctx', hc'⟩ := waitingTurns_worlds n hcoh hc hx turn ht
    exact ⟨ctx', hc', ha.turnedAway hids hc'⟩

end Ticks

section Sample

/-- Two contexts. The first one's agent asks for an agent of the second one, wants it removed and
named, and asks for a free agent too. -/
def rivalDeeds : List (Deed Routine Unit) :=
  let first : ContextRef := ⟨0⟩
  let second : ContextRef := ⟨1⟩
  let asker : AgentRef := ⟨0⟩
  let taken : AgentRef := ⟨1⟩
  let free : AgentRef := ⟨2⟩
  [.newContext ⟨1⟩ sampleTypes 10, .newContext ⟨2⟩ sampleTypes 10,
    .create ⟨"asker", "Agent", 0, ⟨[.here (.add taken), .here (.remove taken),
      .here (.bind "Boss" taken), .here (.add free), .here (.bind "Boss" free)]⟩⟩,
    .create ⟨"taken", "Agent", 0, ⟨[]⟩⟩, .create ⟨"free", "Agent", 3, ⟨[]⟩⟩,
    .on first (.task (.add asker)), .on second (.task (.add taken))]

/-- The world in which the first context is ticked. -/
def rivalWorld : World Routine Unit := run rivalDeeds { host := { app := () } }

theorem contexts_isolated_sample :
    rivalWorld.ConfinedOp 2 ⟨0⟩ .tick ∧ rivalWorld.Foreign ⟨0⟩ ⟨1⟩ ∧
      rivalWorld.Isolation 2 ⟨0⟩ .tick := by
  have hids : ∀ v ∈ points rivalDeeds ({ host := { app := () } } : World Routine Unit),
      v.contextIds.Nodup ∧ .invalid ∉ v.contextIds := by decide +kernel
  have hd : ∀ v ∈ points rivalDeeds ({ host := { app := () } } : World Routine Unit),
      v.DistinctIds := fun v hv => .of_contextIds (hids v hv)
  have hT : Confined (rivalWorld.tickMoments 2 ⟨0⟩) := by decide +kernel
  have hforeign : rivalWorld.containsAgent ⟨1⟩ ⟨1⟩ = true := by decide +kernel
  exact ⟨fun _ => hT, ⟨⟨1⟩, by decide, hforeign⟩,
    contexts_isolated { app := () } rivalDeeds hd rivalWorld (run_mem_points ..) 2 ⟨0⟩ .tick⟩

/-- Of the three requests for agents one is served: the free agent is registered under its name. -/
example : let (report, v) := rivalWorld.tickWith (nested 2) ⟨0⟩
    (report.added, report.removed, v.containsAgent ⟨0⟩ ⟨2⟩, v.containsAgent ⟨1⟩ ⟨1⟩,
      v.lookup ⟨0⟩ "Boss") = (1, 0, true, true, some ⟨2⟩) := by
  decide +kernel

end Sample

end AgentScheduler.World
