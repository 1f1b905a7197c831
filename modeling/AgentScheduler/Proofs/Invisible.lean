/-
Registrations and names of agents that are gone are invisible. An application
that uses a context between ticks in any way it likes gets the same answers, runs
the same tasks and hands the same records to receivers, whether the context still
has such leftovers or they were dropped before (`leftovers_invisible`). Only raw
reads and the first tick tell the two apart: the tick counts the leftovers, and
drops them, so that from then on the two are the same.
-/
import AgentScheduler.Proofs.Bindings
import AgentScheduler.Proofs.Discretion

namespace AgentScheduler

section Uses

variable {τ α : Type}

/-- What an application asks of a context while no task runs, or does besides. -/
inductive Use (τ α : Type)
  /-- A request, an operation on the context or something else. -/
  | ask (r : Request τ α)
  /-- The living agents, in the order in which a tick visits them. -/
  | agents
  /-- The living agent registered under an id. -/
  | agent (id : AgentId)
  /-- The context has registered this agent. -/
  | contains (a : AgentRef)
  /-- Index and buckets as they are: priorities, the ids of a bucket, the priority of an id. -/
  | raw

/-- A tick of the context. -/
def Use.tick : Use τ α := .ask (.here .tick)

/-- The answer; to a request also what happened meanwhile. -/
def Use.Answer : Use τ α → Type
  | ask r => r.Answer × List (ContextRef × Happening τ α)
  | agents => List AgentRef
  | agent _ => Option AgentRef
  | contains _ => Bool
  | raw => Option (SortedMap AgentId Int32 × SortedMap Int32 (SortedMap AgentId AgentRef))

/-- Other contexts are not ticked, no task runs outside a tick, and receivers are plain. -/
def Use.Fair (c : ContextRef) : Use τ α → Prop
  | ask (.there d op) => d ≠ c ∧ op ≠ .tick ∧ op.Plain
  | ask (.exec _) => False
  | ask r => r.Plain
  | _ => True

/-- Equal answers. Of a tick, the number of entries of agents that are gone may differ; of the
counts, the raw number of entries; a raw read may find anything. -/
def Use.Blurred : (u : Use τ α) → u.Answer → u.Answer → Prop
  | ask (.here .tick) => fun x y => TickReport.fresh x.1 = TickReport.fresh y.1 ∧ x.2 = y.2
  | ask r => fun x y => r.Blurred x.1 y.1 ∧ x.2 = y.2
  | raw => fun _ _ => True
  | _ => fun x y => x = y

/-- A request that is no tick of the context. -/
theorem Use.blurred_request {r : Request τ α} (hr : r ≠ .here .tick) {x y : (Use.ask r).Answer}
    (h : r.Blurred x.1 y.1) (hd : x.2 = y.2) : (Use.ask r).Blurred x y := by
  cases r with
  | here op =>
    cases op with
    | tick => exact absurd rfl hr
    | _ => exact ⟨h, hd⟩
  | _ => exact ⟨h, hd⟩

end Uses

namespace World

variable {τ α : Type} {gone : ContextRef → AgentRef → Bool} {w v u : World τ α} {c d : ContextRef}
  {a : AgentRef} {ctx : Context}

/-- The same agents and contexts, and the same is shown of the host. -/
def Same (w v : World τ α) : Prop :=
  v.agents = w.agents ∧ v.contexts = w.contexts ∧ v.host.shown = w.host.shown

theorem contexts_ext (hsize : v.contexts.size = w.contexts.size)
    (h : ∀ d, v.context? d = w.context? d) : v.contexts = w.contexts := by
  refine Array.ext hsize fun i hi hi' => ?_
  have hd := h ⟨i⟩
  rw [context?, context?, Array.getElem?_eq_getElem hi, Array.getElem?_eq_getElem hi'] at hd
  exact hd

theorem Grounded.none (hw : Grounded gone w) : Grounded (fun _ _ => false) w :=
  ⟨hw.1, fun _ _ h => by cases h⟩

/-- Where all contexts are the same, nothing is left. -/
theorem Veiled.none (h : Veiled gone w v) (hd : ∀ d, v.context? d = w.context? d) :
    Veiled (fun _ _ => false) w v := by
  refine ⟨h.agents, h.size, fun d => ?_, h.shown⟩
  rw [hd d]
  cases w.context? d with
  | none => exact .inl ⟨rfl, rfl⟩
  | some ctx => exact .inr ⟨ctx, ctx.registry, rfl, rfl, .refl _ _⟩

variable [Behavior τ α]

/-- A use of the context `c`. -/
def use (c : ContextRef) (w : World τ α) : (u : Use τ α) → u.Answer × World τ α
  | .ask r =>
    let (answer, v) := w.answer (nested (nestingLimit + 1)) c r
    ((answer, doings (requestMoments (nestedMoments (nestingLimit + 1)) c w r)), v)
  | .agents => (((w.context? c).map fun ctx => w.handles ctx.registry).getD [], w)
  | .agent id => ((w.context? c).bind fun ctx => (ctx.registry.agent? id).filter w.alive, w)
  | .contains a => (w.containsAgent c a, w)
  | .raw => ((w.context? c).map fun ctx => (ctx.registry.index, ctx.registry.buckets), w)

/-- One use after the other. -/
def uses (c : ContextRef) (us : List (Use τ α)) (w : World τ α) : World τ α :=
  us.foldl (fun w u => (w.use c u).2) w

/-! ## One use -/

theorem use_durable {P : World τ α → Prop} (hP : Durable P) (u : Use τ α) (hw : P w) :
    P (w.use c u).2 := by
  cases u with
  | ask r => exact hP.request (traced_nested _) r hw
  | agents | agent | contains | raw => exact hw

theorem use_idle (u : Use τ α) (hi : w.Idle c) : (w.use c u).2.Idle c := by
  cases u with
  | ask r =>
    intro ctx' hc'
    obtain ⟨ctx, hc, hx, -⟩ := (request_sameActivity (traced_nested _) r).contexts c ctx' hc'
    exact hx.trans (hi ctx hc)
  | agents | agent | contains | raw => exact hi

/-- Two coherent worlds that are the same but for what the context `c` has left of agents that are
gone, and in which it is between ticks. -/
structure Twins (gone : ContextRef → AgentRef → Bool) (c : ContextRef) (w v : World τ α) :
    Prop where
  veiled : Veiled gone w v
  left : Grounded gone w
  right : Grounded gone v
  idle : w.Idle c
  only : ∀ d a, d ≠ c → gone d a = false

/-- What becomes of a use. -/
structure UseVeiled (gone : ContextRef → AgentRef → Bool) (c : ContextRef) (u : Use τ α)
    (x y : u.Answer × World τ α) : Prop where
  blurred : u.Blurred y.1 x.1
  /-- Without leftovers the answers are the same. -/
  same : (∀ a, gone c a = false) → y.1 = x.1
  veiled : Veiled gone x.2 y.2
  cleared : u = .tick → y.2.context? c = x.2.context? c

theorem Twins.request (h : Twins gone c w v) {r : Request τ α} (hr : r ≠ .here .tick)
    (hf : (Use.ask r).Fair c) :
    UseVeiled gone c (.ask r) (w.use c (.ask r)) (v.use c (.ask r)) := by
  have hp : r.phase? c = none := by
    unfold Request.phase?
    split
    · exact absurd rfl hr
    · exact absurd rfl hf.2.1
    · exact hf.elim
    · rfl
  have hplain : r.Plain := by
    cases r with
    | there d op => exact hf.2.2
    | exec a => trivial
    | _ => exact hf
  obtain ⟨hblurred, hafter⟩ := h.veiled.serve h.left h.right (nested (nestingLimit + 1)) c hp hplain
    fun d op _ he _ _ => by
      subst he
      exact fun a => h.only d a hf.1
  have hmoments (u : World τ α) :
      requestMoments (nestedMoments (nestingLimit + 1)) c u r = [] := requestMoments_none _ u hp
  refine ⟨Use.blurred_request hr hblurred ?_, fun hd => Prod.ext ?_ ?_, hafter, fun he => ?_⟩
  · show doings (requestMoments _ c v r) = doings (requestMoments _ c w r)
    rw [hmoments, hmoments]
  · cases r with
    | here op =>
      refine (h.veiled.answerContextOp h.left h.right _ c ?_ hplain).2.1 hd
      rintro rfl
      exact hr rfl
    | _ => exact hblurred
  · show doings (requestMoments _ c v r) = doings (requestMoments _ c w r)
    rw [hmoments, hmoments]
  · exact absurd (Use.ask.inj he) hr

section Tasks

variable (tasks : ∀ (a : AgentRef) (t : τ), (Behavior.exec a t : Prog τ α _).Discreet)

include tasks

theorem Twins.tick (h : Twins gone c w v) :
    UseVeiled gone c .tick (w.use c .tick) (v.use c .tick) := by
  obtain ⟨htick, hdoings⟩ := Veiled.tickWith tasks (oblivious_nested tasks nestingLimit) h.veiled
    h.left h.right h.idle (busy_startWalk fun d a ctx hne ha _ => by
      rw [h.only d a hne] at ha
      cases ha)
  exact ⟨⟨htick.fresh, hdoings⟩, fun hd => Prod.ext (htick.same hd) hdoings, htick.veiled,
    fun _ => htick.cleared⟩

theorem Twins.use (h : Twins gone c w v) {u : Use τ α} (hf : u.Fair c) :
    UseVeiled gone c u (w.use c u) (v.use c u) := by
  have hveiled := h.veiled
  cases u with
  | ask r =>
    by_cases hr : r = .here .tick
    · subst hr
      exact Twins.tick tasks h
    · exact h.request hr hf
  | agents =>
    have hanswer : (v.use c .agents).1 = (w.use c .agents).1 := by
      simp only [World.use]
      rcases hveiled.context c with ⟨hc, hc'⟩ | ⟨ctx, r, hc, hc', hs⟩
      · rw [hc, hc']
        rfl
      · rw [hc, hc']
        exact hveiled.handles h.left hs
    exact ⟨hanswer, fun _ => hanswer, hveiled, fun he => by cases he⟩
  | agent id =>
    have hanswer : (v.use c (.agent id)).1 = (w.use c (.agent id)).1 := by
      simp only [World.use, hveiled.alive]
      rcases hveiled.context c with ⟨hc, hc'⟩ | ⟨ctx, r, hc, hc', hs⟩
      · rw [hc, hc']
      · rw [hc, hc']
        obtain ⟨hsound, hsound'⟩ := Veiled.sounds h.left h.right hc hc'
        exact hs.agent?_alive (Veiled.dead h.left c) hsound hsound' id
    exact ⟨hanswer, fun _ => hanswer, hveiled, fun he => by cases he⟩
  | contains a =>
    have hanswer : (v.use c (.contains a)).1 = (w.use c (.contains a)).1 := by
      simp only [World.use, containsAgent, hveiled.live? a]
      rcases hveiled.context c with ⟨hc, hc'⟩ | ⟨ctx, r, hc, hc', -⟩
      · rw [hc, hc']
      · rw [hc, hc']
        cases hl : w.live? a with
        | none => rfl
        | some agent => exact hveiled.holds h.left h.right hc hc' hl
    exact ⟨hanswer, fun _ => hanswer, hveiled, fun he => by cases he⟩
  | raw =>
    refine ⟨trivial, fun hd => ?_, hveiled, fun he => by cases he⟩
    exact congrArg (Option.map _) (hveiled.exact h.left.1.2 h.right.1.2 hd)

/-! ## One use after the other -/

/-- After uses the two worlds are still the same but for leftovers, and after a tick nothing is
left. -/
theorem Twins.uses (h : Twins gone c w v) (us : List (Use τ α)) (hf : ∀ u ∈ us, u.Fair c) :
    ∃ gone', Twins gone' c (w.uses c us) (v.uses c us) ∧
      (Use.tick ∈ us ∨ (∀ a, gone c a = false) → ∀ a, gone' c a = false) := by
  induction us generalizing gone w v with
  | nil => exact ⟨gone, h, fun ht a => ht.elim (fun hm => by cases hm) fun hd => hd a⟩
  | cons u us ih =>
    obtain ⟨hu, hus⟩ := List.forall_mem_cons.1 hf
    have huse := Twins.use tasks h hu
    have hleft : Grounded gone (w.use c u).2 := use_durable grounded_durable u h.left
    have hright : Grounded gone (v.use c u).2 := use_durable grounded_durable u h.right
    have hidle : (w.use c u).2.Idle c := use_idle u h.idle
    by_cases ht : u = .tick
    · -- the tick drops what was left
      have hsame (d : ContextRef) : (v.use c u).2.context? d = (w.use c u).2.context? d := by
        by_cases hd : d = c
        · rw [hd]
          exact huse.cleared ht
        · exact huse.veiled.exact hleft.1.2 hright.1.2 fun a => h.only d a hd
      have htwins : Twins (fun _ _ => false) c (w.use c u).2 (v.use c u).2 :=
        ⟨huse.veiled.none hsame, hleft.none, hright.none, hidle, fun _ _ _ => rfl⟩
      obtain ⟨gone', hend, hnone⟩ := ih htwins hus
      exact ⟨gone', hend, fun _ => hnone (.inr fun _ => rfl)⟩
    · obtain ⟨gone', hend, hnone⟩ := ih ⟨huse.veiled, hleft, hright, hidle, h.only⟩ hus
      refine ⟨gone', hend, fun hm => hnone (hm.imp_left fun hm => ?_)⟩
      exact (List.mem_cons.1 hm).resolve_left fun he => ht he.symm

end Tasks

/-! ## With and without leftovers -/

/-- The agents that the context `c` may have something left of. -/
def leftovers (w : World τ α) (c d : ContextRef) (a : AgentRef) : Bool :=
  d == c && (w.agent? a).isSome && !w.alive a

omit [Behavior τ α] in
/-- Dropping what is left of agents that are gone makes no other difference. -/
theorem twins_prune (hids : w.DistinctIds) (hw : w.Coherent) (hi : w.Idle c)
    (hnames : ∀ ctx name a, w.context? c = some ctx → ctx.registry.named.get? name = some a →
      ∃ agent, w.agent? a = some agent) : Twins (w.leftovers c) c w (w.prune c) := by
  have hground : Grounded (w.leftovers c) w := by
    refine ⟨⟨hids, hw⟩, fun d a ha => ?_⟩
    simp only [leftovers, Bool.and_eq_true, Bool.not_eq_true'] at ha
    exact ⟨ha.2, Option.isSome_iff_exists.1 ha.1.2⟩
  refine ⟨?_, hground, grounded_durable.edits prune_edits hground, hi, fun d a hd => ?_⟩
  · cases hc : w.context? c with
    | none =>
      simp only [prune, hc]
      exact .refl _ w
    | some ctx =>
      have hlive {a : AgentRef} (hknown : ∃ agent, w.agent? a = some agent)
          (ha : w.leftovers c c a = false) : w.alive a = true := by
        simpa [leftovers, Option.isSome_iff_exists.2 hknown] using ha
      have hs : Registry.SameBut (w.leftovers c c) ctx.registry (ctx.registry.prune w.alive) :=
        .of_prune (fun p i a he => hlive (hw.known c ctx p i a hc he))
          fun name a hn => hlive (hnames ctx name a hc hn)
      have hpruned : Veiled (w.leftovers c) w (w.modifyRegistry c (·.prune w.alive)) := by
        refine ⟨rfl, Array.size_modify .., fun d => ?_, rfl⟩
        rw [becomes_modifyRegistry hc _ d]
        split
        · next hd => exact .inr ⟨ctx, _, hd ▸ hc, rfl, hd ▸ hs⟩
        · exact (Veiled.refl (w.leftovers c) w).context d
      rcases prune_cases hc with he | ⟨n, he⟩
      · exact he ▸ hpruned
      · exact he ▸ hpruned.report_right rfl
  · simp [leftovers, hd]

/-- What becomes of uses of the context `c` and of one more, in a world and in another one that
differs in what the context has left of agents that are gone. -/
structure Invisible (c : ContextRef) (us : List (Use τ α)) (u : Use τ α) (w v : World τ α) :
    Prop where
  /-- All agents, and where they are registered, are the same. -/
  agents : (v.uses c us).agents = (w.uses c us).agents
  /-- So are the application's state, what receivers put there included, and all reports. -/
  shown : (v.uses c us).host.shown = (w.uses c us).host.shown
  /-- So are all answers, and what tasks do meanwhile. -/
  answers : u.Blurred ((v.uses c us).use c u).1 ((w.uses c us).use c u).1
  /-- After a tick raw reads are no exception. -/
  exact : Use.tick ∈ us → ((v.uses c us).use c u).1 = ((w.uses c us).use c u).1
  /-- After a tick there is no difference at all. -/
  states : Use.tick ∈ us → Same (w.uses c us) (v.uses c us)

/-- What a context has left of agents that are gone is invisible: it might as well have been
dropped. -/
theorem leftovers_invisible
    (tasks : ∀ (a : AgentRef) (t : τ), (Behavior.exec a t : Prog τ α _).Discreet)
    (hids : w.DistinctIds) (hw : w.Coherent) (hi : w.Idle c)
    (hnames : ∀ ctx name a, w.context? c = some ctx → ctx.registry.named.get? name = some a →
      ∃ agent, w.agent? a = some agent)
    (us : List (Use τ α)) (hus : ∀ u ∈ us, u.Fair c) (u : Use τ α) (hu : u.Fair c) :
    Invisible c us u w (w.prune c) := by
  obtain ⟨gone, htwins, hnone⟩ := Twins.uses tasks (twins_prune hids hw hi hnames) us hus
  have huse := Twins.use tasks htwins hu
  have hveiled := htwins.veiled
  refine ⟨hveiled.agents, hveiled.shown, huse.blurred, fun ht => huse.same (hnone (.inl ht)),
    fun ht => ⟨hveiled.agents, contexts_ext hveiled.size fun d => ?_, hveiled.shown⟩⟩
  refine hveiled.exact htwins.left.1.2 htwins.right.1.2 fun a => ?_
  by_cases hd : d = c
  · exact hd ▸ hnone (.inl ht) a
  · exact htwins.only d a hd

section Sample

theorem Chore.discreet {β : Type} (b : β) (ops : List TaskOp) : (Chore.program b ops).Discreet := by
  induction ops with
  | nil => trivial
  | cons op ops ih => exact ⟨trivial, fun _ _ _ => rfl, fun _ => ih⟩

/-- Keeps all records. -/
def keepingSink : Sink (List Record) := fun r h => (.ok (), { h with app := h.app ++ [r] })

theorem keepingSink_plain : keepingSink.Plain := by
  intro r g g' h
  have happ : g'.app = g.app := congrArg Prod.fst h
  have hreports : g'.shown.2 = g.shown.2 := congrArg Prod.snd h
  exact ⟨rfl, Prod.ext (congrArg (· ++ [r]) happ) hreports⟩

/-- A context with two agents, of which one is gone; it had a name. -/
def hauntedDeeds : List (Deed Chore (List Record)) :=
  let context : ContextRef := ⟨0⟩
  [.newContext ⟨1⟩ sampleTypes 10, .create ⟨"keeper", "Agent", 0, ⟨[.add ⟨2⟩]⟩⟩,
    .create ⟨"ghost", "Agent", 0, ⟨[]⟩⟩, .create ⟨"late", "Agent", 0, ⟨[]⟩⟩,
    .on context (.task (.add ⟨0⟩)), .on context (.task (.add ⟨1⟩)),
    .on context (.task (.bind "Boss" ⟨1⟩)), .disown ⟨1⟩]

/-- The world in which the context is used. -/
def hauntedWorld : World Chore (List Record) := run hauntedDeeds { host := { app := [] } }

/-- The other agent gets the name, everything is saved and logged, and then the context is
ticked. -/
def hauntedUses : List (Use Chore (List Record)) :=
  [.ask (.here (.task (.bind "Boss" ⟨0⟩))), .ask (.here .save),
    .ask (.here (.logState keepingSink)), .tick]

theorem leftovers_invisible_sample :
    hauntedWorld.DistinctIds ∧ hauntedWorld.Coherent ∧ hauntedWorld.Idle ⟨0⟩ ∧
      (∀ u ∈ hauntedUses, u.Fair ⟨0⟩) ∧
      Invisible ⟨0⟩ hauntedUses (.agent ⟨3⟩) hauntedWorld (hauntedWorld.prune ⟨0⟩) := by
  have hids : ∀ v ∈ points hauntedDeeds ({ host := { app := [] } } : World Chore (List Record)),
      v.contextIds.Nodup ∧ .invalid ∉ v.contextIds := by decide +kernel
  have hd : ∀ v ∈ points hauntedDeeds ({ host := { app := [] } } : World Chore (List Record)),
      v.DistinctIds := fun v hv => .of_contextIds (hids v hv)
  have hmem := run_mem_points hauntedDeeds ({ host := { app := [] } } : World Chore (List Record))
  have hcoh := coherent_points { app := [] } hauntedDeeds hd _ hmem
  have hbound := bound_points { app := [] } hauntedDeeds hd _ hmem
  have hidle : hauntedWorld.Idle ⟨0⟩ := fun ctx hc =>
    ((atRest_run hauntedDeeds (atRest_empty { app := [] })).contexts ⟨0⟩ ctx hc).1
  have hfair : ∀ u ∈ hauntedUses, u.Fair ⟨0⟩ := by
    simp only [hauntedUses, List.forall_mem_cons]
    exact ⟨trivial, trivial, keepingSink_plain, trivial, fun u hu => by cases hu⟩
  exact ⟨hd _ hmem, hcoh, hidle, hfair,
    leftovers_invisible (fun _ t => Chore.discreet _ t.ops) (hd _ hmem) hcoh hidle
      (fun ctx name a hc hn => hbound.known ⟨0⟩ ctx name a hc hn) hauntedUses hfair _ trivial⟩

/-- The first tick finds a leftover entry, unless it was dropped; it runs the same task. -/
example :
    let tick := fun w : World Chore (List Record) => ((w.tick ⟨0⟩).1.stale, (w.tick ⟨0⟩).1.executed)
    (tick hauntedWorld, tick (hauntedWorld.prune ⟨0⟩)) = ((1, 1), (0, 1)) := by
  decide +kernel

end Sample

end World

end AgentScheduler
