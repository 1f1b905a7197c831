/-
What one act does to the directory of a workspace (`Application.Steps`). As long as
nobody else ends a member, hands it over again or says who made it
(`Application.Allowed`), every act keeps the directory right (`Application.Owned`):
members exist and are there under their own ids, and those that the directory made
stay until it ends them.
-/
import AgentScheduler.Proofs.Cleanup
import AgentScheduler.Proofs.Marks
import AgentScheduler.Proofs.RunOnce
import AgentScheduler.Proofs.Turns

namespace AgentScheduler

open World

namespace Act

variable {τ α ο : Type}

/-- The contexts that the application ends or hands over. -/
def given : Act τ α ο → List ContextRef
  | .deed (.dropContext c) | .insert c => [c]
  | _ => []

/-- Says of a context who made it, which is up to workspaces. -/
def tampers : Act τ α ο → Bool
  | .deed (.setCreated _ _) => true
  | _ => false

/-- The directory makes a context of this id, if it has none. -/
def AsksFor (a : Act τ α ο) (id : ContextId) : Prop := a = .context id ∨ ∃ obs, a = .tick obs id

end Act

namespace Application

variable {τ α ο : Type} [Behavior τ α] {s s' s₁ : Application τ α ο} {a : Act τ α ο}
  {id : ContextId} {c : ContextRef} {acts : List (Act τ α ο)}

omit [Behavior τ α] in
/-- The contexts in the directory. -/
def members (s : Application τ α ο) : List ContextRef := s.workspace.directory.values

/-- Only the workspace ends its members and says who made them, and a member is not handed over
again. -/
def Allowed (s : Application τ α ο) (a : Act τ α ο) : Prop :=
  a.tampers = false ∧ (∀ c ∈ a.given, c ∉ s.members) ∧
    ∀ m ∈ moments (s.actDeeds a) s.world, ∀ c ∈ m.what.ended?, c ∉ (s.act a).members

instance (s : Application τ α ο) (a : Act τ α ο) : Decidable (s.Allowed a) :=
  inferInstanceAs (Decidable (_ ∧ _))

/-- Each act of a run is allowed when its turn comes. -/
def AllAllowed : List (Act τ α ο) → Application τ α ο → Prop
  | [], _ => True
  | a :: acts, s => s.Allowed a ∧ AllAllowed acts (s.act a)

instance decidableAllAllowed :
    (acts : List (Act τ α ο)) → (s : Application τ α ο) → Decidable (AllAllowed acts s)
  | [], _ => isTrue trivial
  | a :: acts, s => @instDecidableAnd _ _ _ (decidableAllAllowed acts (s.act a))

/-- The directory has existing contexts, each under its own id, and all that a directory made. -/
structure Owned (s : Application τ α ο) : Prop where
  listed : ∀ id c, s.workspace.find? id = some c →
    id.isConcrete = true ∧ ∃ ctx, s.world.context? c = some ctx ∧ ctx.id = id
  made : ∀ c ctx, s.world.context? c = some ctx → ctx.createdByDirectory = true →
    s.workspace.find? ctx.id = some c

/-- What an act does to the directory and to the marks of contexts. -/
structure Steps (a : Act τ α ο) (s s' : Application τ α ο) : Prop where
  old : ∀ c, c.index < s.world.contexts.size →
    (s'.world.context? c).map Context.mark = (s.world.context? c).map Context.mark ∨
      c ∉ s'.members ∧ s'.world.context? c = none
  new : ∀ c ctx, s.world.contexts.size ≤ c.index → s'.world.context? c = some ctx →
    ctx.createdByDirectory = true → s'.workspace.find? ctx.id = some c
  stayed : ∀ id c c', s.workspace.find? id = some c → s'.workspace.find? id = some c' → c' = c
  entered : ∀ id c, s.workspace.find? id = none → s'.workspace.find? id = some c →
    id.isConcrete = true ∧ ∃ ctx, s'.world.context? c = some ctx ∧ ctx.id = id ∧
      (a.AsksFor id ∧ s.world.contexts.size ≤ c.index ∧ ctx.createdByDirectory = true ∨
        a = .insert c ∧ c.index < s.world.contexts.size ∧ ctx.createdByDirectory = false)
  /-- What the directory made leaves it only to end. -/
  left : ∀ id c, s.workspace.find? id = some c → s'.workspace.find? id = none →
    s.world.madeByDirectory c = true → s'.world.context? c = none

omit [Behavior τ α] in
theorem mem_members : c ∈ s.members ↔ ∃ id, s.workspace.find? id = some c := by
  simp only [members, SortedMap.values, List.mem_map, Workspace.find?, SortedMap.get?_eq_some_iff,
    Prod.exists, exists_eq_right]

namespace Owned

omit [Behavior τ α]

theorem index_lt (h : s.Owned) (hc : s.workspace.find? id = some c) :
    c.index < s.world.contexts.size := by
  obtain ⟨-, ctx, hctx, -⟩ := h.listed id c hc
  refine Nat.lt_of_not_le fun hle => ?_
  rw [context?_eq_none_of_size hle] at hctx
  cases hctx

/-- No context is there under two ids. -/
theorem unique (h : s.Owned) (i j : ContextId) (c : ContextRef)
    (hi : s.workspace.find? i = some c) (hj : s.workspace.find? j = some c) : i = j := by
  obtain ⟨-, ctx, hctx, rfl⟩ := h.listed i c hi
  obtain ⟨-, ctx', hctx', rfl⟩ := h.listed j c hj
  rw [hctx] at hctx'
  cases hctx'
  rfl

/-- An act keeps the directory right. -/
theorem step (h : s.Owned) (hstep : Steps a s s') : s'.Owned := by
  refine ⟨fun id c hc => ?_, fun c ctx hctx hmade => ?_⟩
  · cases hbefore : s.workspace.find? id with
    | none =>
      obtain ⟨hid, ctx, hctx, hctxid, -⟩ := hstep.entered id c hbefore hc
      exact ⟨hid, ctx, hctx, hctxid⟩
    | some c' =>
      obtain rfl := hstep.stayed id c' c hbefore hc
      obtain ⟨hid, ctx, hctx, hctxid⟩ := h.listed id c hbefore
      rcases hstep.old c (h.index_lt hbefore) with hold | ⟨hout, -⟩
      · obtain ⟨ctx', hctx', hsame, -⟩ := Context.exists_of_mark_eq hold hctx
        exact ⟨hid, ctx', hctx', hsame.trans hctxid⟩
      · exact absurd (mem_members.2 ⟨id, hc⟩) hout
  · rcases Nat.lt_or_ge c.index s.world.contexts.size with hlt | hge
    · rcases hstep.old c hlt with hold | ⟨-, hnone⟩
      · obtain ⟨ctx', hctx', hid, hmaker⟩ := Context.exists_of_mark_eq hold.symm hctx
        have hmade' : ctx'.createdByDirectory = true := hmaker.trans hmade
        have hbefore := h.made c ctx' hctx' hmade'
        rw [hid] at hbefore
        cases hafter : s'.workspace.find? ctx.id with
        | none =>
          have hdir : s.world.madeByDirectory c = true := by
            rw [madeByDirectory, hctx']
            exact hmade'
          rw [hstep.left ctx.id c hbefore hafter hdir] at hctx
          cases hctx
        | some c' => rw [hstep.stayed ctx.id c c' hbefore hafter]
      · rw [hnone] at hctx
        cases hctx
    · exact hstep.new c ctx hge hctx hmade

end Owned

/-! ## What acts do -/

namespace Steps

omit [Behavior τ α]

/-- Nothing enters or leaves the directory, and no member ends. -/
theorem refl (h : s.Owned) : Steps a s s where
  old _ _ := .inl rfl
  new _ ctx _ hctx hmade := h.made _ ctx hctx hmade
  stayed _ _ _ hc hc' := Option.some.inj (hc'.symm.trans hc)
  entered id c hnone hc := by
    rw [hnone] at hc
    cases hc
  left id c hc hnone _ := by
    rw [hnone] at hc
    cases hc

/-- What comes after an act's part in the directory ends no member. -/
theorem after (h : Steps a s s₁) (hdir : s'.workspace.directory = s₁.workspace.directory)
    (hkeeps : Keeps (fun c => c ∉ s'.members) s₁.world s'.world) : Steps a s s' := by
  have hfind (id : ContextId) : s'.workspace.find? id = s₁.workspace.find? id := by
    rw [Workspace.find?, hdir, Workspace.find?]
  have hmembers : s'.members = s₁.members := by rw [members, hdir, members]
  have hmarked {c : ContextRef} {ctx : Context} (hctx : s'.world.context? c = some ctx) :
      ∃ ctx₁, s₁.world.context? c = some ctx₁ ∧ ctx₁.id = ctx.id ∧
        ctx₁.createdByDirectory = ctx.createdByDirectory := by
    rcases hkeeps c with hmark | ⟨-, hnone⟩
    · exact Context.exists_of_mark_eq hmark.symm hctx
    · rw [hnone] at hctx
      cases hctx
  refine ⟨fun c hlt => ?_, fun c ctx hge hctx hmade => ?_, fun id c c' hc hc' => ?_,
    fun id c hnone hc => ?_, fun id c hc hnone hmade => ?_⟩
  · rcases h.old c hlt with hold | ⟨hout, hgone⟩
    · exact (hkeeps c).imp_left fun hmark => hmark.trans hold
    · refine .inr ⟨hmembers ▸ hout, ?_⟩
      cases hctx : s'.world.context? c with
      | none => rfl
      | some ctx =>
        obtain ⟨ctx₁, hctx₁, -⟩ := hmarked hctx
        rw [hgone] at hctx₁
        cases hctx₁
  · obtain ⟨ctx₁, hctx₁, hid, hmaker⟩ := hmarked hctx
    rw [hfind, ← hid]
    exact h.new c ctx₁ hge hctx₁ (hmaker.trans hmade)
  · exact h.stayed id c c' hc ((hfind id).symm.trans hc')
  · obtain ⟨hid, ctx₁, hctx₁, hctxid, hhow⟩ := h.entered id c hnone ((hfind id).symm.trans hc)
    rcases hkeeps c with hmark | ⟨hout, -⟩
    · obtain ⟨ctx, hctx, hsame, hmaker⟩ := Context.exists_of_mark_eq hmark hctx₁
      exact ⟨hid, ctx, hctx, hsame.trans hctxid, hmaker ▸ hhow⟩
    · exact absurd (mem_members.2 ⟨id, hc⟩) hout
  · cases hctx : s'.world.context? c with
    | none => rfl
    | some ctx =>
      obtain ⟨ctx₁, hctx₁, -⟩ := hmarked hctx
      rw [h.left id c hc ((hfind id).symm.trans hnone) hmade] at hctx₁
      cases hctx₁

/-- A context enters the directory, made for it or handed over; no other one changes. -/
theorem enter {ctx : Context} (hnone : s.workspace.find? ctx.id = none)
    (hid : ctx.id.isConcrete = true)
    (hws : s'.workspace.directory = s.workspace.directory.insert ctx.id c)
    (hctx : s'.world.context? c = some ctx)
    (hold : ∀ c', c'.index < s.world.contexts.size →
      s'.world.context? c' = s.world.context? c')
    (hnew : ∀ c' ctx', s.world.contexts.size ≤ c'.index →
      s'.world.context? c' = some ctx' → c' = c)
    (hhow : a.AsksFor ctx.id ∧ s.world.contexts.size ≤ c.index ∧ ctx.createdByDirectory = true ∨
      a = .insert c ∧ c.index < s.world.contexts.size ∧ ctx.createdByDirectory = false) :
    Steps a s s' := by
  have hfind (j : ContextId) : s'.workspace.find? j =
      if j = ctx.id then some c else s.workspace.find? j := by
    rw [Workspace.find?, hws, SortedMap.get?_insert, Workspace.find?]
  refine ⟨fun c' hlt => .inl (by rw [hold c' hlt]), fun c' ctx' hge hctx' _ => ?_,
    fun j c₁ c₂ hc hc' => ?_, fun j c' hj hc => ?_, fun j c' hc hj _ => ?_⟩
  · obtain rfl := hnew c' ctx' hge hctx'
    rw [hctx] at hctx'
    cases hctx'
    rw [hfind, if_pos rfl]
  · have hne : j ≠ ctx.id := fun he => by rw [he, hnone] at hc; cases hc
    rw [hfind, if_neg hne, hc] at hc'
    exact (Option.some.inj hc').symm
  · rw [hfind] at hc
    split at hc
    · next he =>
      cases hc
      exact ⟨he ▸ hid, ctx, hctx, he.symm, he ▸ hhow⟩
    · rw [hj] at hc
      cases hc
  · rw [hfind] at hj
    split at hj
    · cases hj
    · rw [hc] at hj
      cases hj

/-- A context is made on request. -/
theorem make (hask : a.AsksFor id) (hid : id.isConcrete = true)
    (hnone : s.workspace.find? id = none)
    (hws : s'.workspace.directory = s.workspace.directory.insert id ⟨s.world.contexts.size⟩)
    (hworld : ∃ ctx e, ctx.id = id ∧ ctx.createdByDirectory = true ∧
      s'.world = (s.world.addContext ctx).2.report e) : Steps a s s' := by
  obtain ⟨ctx, e, rfl, hmade, hworld⟩ := hworld
  have hcontext (c : ContextRef) : s'.world.context? c =
      if c.index = s.world.contexts.size then some ctx else s.world.context? c := by
    rw [hworld, context?_report, context?_addContext]
  refine enter hnone hid hws ((hcontext _).trans (if_pos rfl)) (fun c hlt => ?_)
    (fun c ctx' hge hctx' => ?_) (.inl ⟨hask, Nat.le_refl _, hmade⟩)
  · rw [hcontext, if_neg (Nat.ne_of_lt hlt)]
  · rw [hcontext] at hctx'
    split at hctx'
    · next hi => rw [← hi]
    · rw [context?_eq_none_of_size hge] at hctx'
      cases hctx'

/-- A context is handed over: the directory did not make it, for it would be a member. -/
theorem handOver (h : s.Owned) {ctx : Context} (hctx : s.world.context? c = some ctx)
    (hout : c ∉ s.members) (hid : ctx.id.isConcrete = true)
    (hnone : s.workspace.find? ctx.id = none)
    (hws : s'.workspace.directory = s.workspace.directory.insert ctx.id c)
    (hworld : ∃ e, s'.world = (s.world.modifyContext c fun ctx =>
      { ctx with createdByDirectory := false }).report e) : Steps (.insert c) s s' := by
  obtain ⟨e, hworld⟩ := hworld
  have hmade : ctx.createdByDirectory = false := Bool.eq_false_iff.2 fun hmade =>
    hout (mem_members.2 ⟨ctx.id, h.made c ctx hctx hmade⟩)
  have hlt : c.index < s.world.contexts.size := Nat.lt_of_not_le fun hle => by
    rw [context?_eq_none_of_size hle] at hctx
    cases hctx
  have hsame : ({ ctx with createdByDirectory := false } : Context) = ctx := by rw [← hmade]
  have hcontext (c' : ContextRef) : s'.world.context? c' = s.world.context? c' := by
    rw [hworld, context?_report, context?_modifyContext]
    split
    · next he => rw [he, hctx, Option.map_some, hsame]
    · rfl
  refine enter hnone hid hws ((hcontext c).trans hctx) (fun c' _ => hcontext c')
    (fun c' ctx' hge hctx' => ?_) (.inr ⟨rfl, hlt, hmade⟩)
  rw [hcontext, context?_eq_none_of_size hge] at hctx'
  cases hctx'

/-- Contexts are released and leave. -/
theorem cleanUp {p : ContextId → Bool} {cs : List ContextRef} (h : s.Owned)
    (hcs : ∀ c, c ∈ cs ↔ ∃ id, p id = true ∧ s.workspace.find? id = some c)
    (hws : s'.workspace = s.workspace.without p) (hcleared : Cleared cs s.world s'.world) :
    Steps a s s' := by
  have hfind (j : ContextId) : s'.workspace.find? j =
      if p j = true then none else s.workspace.find? j := by rw [hws, Workspace.find?_without]
  have hstays {j : ContextId} {c : ContextRef} (hc : s'.workspace.find? j = some c) :
      p j = false ∧ s.workspace.find? j = some c := by
    rw [hfind] at hc
    split at hc
    · cases hc
    · next hp => exact ⟨Bool.eq_false_iff.2 hp, hc⟩
  have hleft {j : ContextId} {c : ContextRef} (hp : p j = true)
      (hc : s.workspace.find? j = some c) : c ∉ s'.members := fun hm => by
    obtain ⟨i, hi⟩ := mem_members.1 hm
    obtain ⟨hpi, hi⟩ := hstays hi
    rw [h.unique i j c hi hc, hp] at hpi
    cases hpi
  refine ⟨fun c _ => ?_, fun c ctx hge hctx _ => ?_, fun j c c' hc hc' => ?_,
    fun j c hj hc => ?_, fun j c hc hj hmade => ?_⟩
  · by_cases hm : c ∈ cs
    · obtain ⟨j, hp, hj⟩ := (hcs c).1 hm
      cases hmade : s.world.madeByDirectory c with
      | true => exact .inr ⟨hleft hp hj, hcleared.gone c hm hmade⟩
      | false =>
        rw [hcleared.returned c hm hmade, Option.map_map]
        exact .inl rfl
    · rw [hcleared.others c hm]
      exact .inl rfl
  · have hm : c ∉ cs := fun hm => by
      obtain ⟨j, -, hj⟩ := (hcs c).1 hm
      exact absurd (h.index_lt hj) (Nat.not_lt.2 hge)
    rw [hcleared.others c hm, context?_eq_none_of_size hge] at hctx
    cases hctx
  · rw [(hstays hc').2] at hc
    exact Option.some.inj hc
  · rw [(hstays hc).2] at hj
    cases hj
  · rw [hfind] at hj
    split at hj
    · next hp => exact hcleared.gone c ((hcs c).2 ⟨j, hp, hc⟩) hmade
    · rw [hc] at hj
      cases hj

/-- A context is made by the application itself. -/
theorem found {ctx : Context} (hmade : ctx.createdByDirectory = false)
    (hws : s'.workspace = s.workspace) (hworld : s'.world = (s.world.addContext ctx).2) :
    Steps a s s' := by
  have hcontext (c : ContextRef) : s'.world.context? c =
      if c.index = s.world.contexts.size then some ctx else s.world.context? c := by
    rw [hworld, context?_addContext]
  have hold {c : ContextRef} (hlt : c.index < s.world.contexts.size) :
      s'.world.context? c = s.world.context? c := by
    rw [hcontext, if_neg (Nat.ne_of_lt hlt)]
  refine ⟨fun c hlt => .inl (by rw [hold hlt]), fun c ctx' hge hctx' hmade' => ?_,
    fun j c c' hc hc' => ?_, fun j c hj hc => ?_, fun j c hc hj _ => ?_⟩
  · rw [hcontext] at hctx'
    split at hctx'
    · cases hctx'
      rw [hmade] at hmade'
      cases hmade'
    · rw [context?_eq_none_of_size hge] at hctx'
      cases hctx'
  · rw [hws, hc] at hc'
    exact (Option.some.inj hc').symm
  · rw [hws, hj] at hc
    cases hc
  · rw [hws, hc] at hj
    cases hj

end Steps

/-! ## Deeds -/

omit [Behavior τ α] in
theorem tame_of_minor {d : Deed τ α} (h : d.Minor c) : d.Tame ∧ d.ended? = none := by
  cases d with
  | on | host => exact ⟨trivial, rfl⟩
  | _ => exact h.elim

theorem tame_tickAllDeeds (ws : Workspace α) (obs : Observer ο α) (ids : List ContextId) (o : ο)
    (w : World τ α) : ∀ d ∈ ws.tickAllDeeds obs ids o w, d.Tame ∧ d.ended? = none := by
  have hone (id : ContextId) (o : ο) (w : World τ α) :
      ∀ d ∈ ws.tickOneDeeds obs id o w, d.Tame ∧ d.ended? = none := by
    cases hc : ws.find? id with
    | none =>
      simp only [Workspace.tickOneDeeds, hc]
      exact fun d hd => by cases hd
    | some c =>
      obtain ⟨f, log, hlog, heq⟩ := Workspace.tickOneDeeds_eq obs hc o w
      rw [heq]
      refine List.forall_mem_cons.2 ⟨⟨trivial, rfl⟩, List.forall_mem_cons.2 ⟨⟨trivial, rfl⟩, ?_⟩⟩
      exact fun d hd => tame_of_minor (hlog d hd)
  induction ids generalizing o w with
  | nil => exact fun d hd => by cases hd
  | cons id ids ih =>
    rw [Workspace.tickAllDeeds]
    refine List.forall_mem_append.2 ⟨hone id o w, ?_⟩
    split
    · exact ih _ _
    · exact List.forall_mem_cons.2 ⟨⟨trivial, rfl⟩, ih _ _⟩

theorem tame_logStatesDeeds (ws : Workspace α) (id : ContextId) (w : World τ α) :
    ∀ d ∈ ws.logStatesDeeds id w, d.Tame ∧ d.ended? = none := by
  have hall (ids : List ContextId) (w : World τ α) :
      ∀ d ∈ ws.logContextsDeeds ids w, d.Tame ∧ d.ended? = none := by
    induction ids generalizing w with
    | nil => exact fun d hd => by cases hd
    | cons id ids ih =>
      rw [Workspace.logContextsDeeds]
      split
      · exact ih w
      · refine List.forall_mem_cons.2 ⟨⟨trivial, rfl⟩, ?_⟩
        split
        · exact fun d hd => by cases hd
        · exact ih _
  unfold Workspace.logStatesDeeds
  split
  · exact fun d hd => by cases hd
  · exact hall _ w

/-! ## Acts -/

omit [Behavior τ α] in
theorem steps_opened (h : s.Owned) (hask : a.AsksFor id) {ids : List ContextId}
    {ws₁ : Workspace α} {w₁ : World τ α} (hopen : s.workspace.Opened id s.world ids ws₁ w₁) :
    Steps a s ⟨ws₁, s.observed, w₁⟩ := by
  cases hopen with
  | all | present => exact .refl h
  | absent hid hnone => exact .make hask hid hnone rfl ⟨_, _, rfl, rfl, rfl⟩

theorem steps_deed (h : s.Owned) {d : Deed τ α} (ha : s.Allowed (.deed d)) :
    Steps (.deed d) s (s.act (.deed d)) := by
  obtain ⟨htampers, hgiven, hended⟩ := ha
  have hmoments : ∀ m ∈ s.world.deedMoments d, ∀ c ∈ m.what.ended?, c ∉ s.members :=
    fun m hm => hended m (List.mem_append_left _ hm)
  cases d with
  | newContext => exact .found rfl rfl rfl
  | setCreated => cases htampers
  | dropContext c => exact (Steps.refl h).after rfl (.dropContext (hgiven c List.mem_cons_self))
  | create | disown | loadTask | on | exec | host =>
    exact (Steps.refl h).after rfl (.perform trivial (fun c hc => by cases hc) hmoments)

theorem steps_tick (h : s.Owned) {obs : Observer ο α} (ha : s.Allowed (.tick obs id)) :
    Steps (.tick obs id) s (s.act (.tick obs id)) := by
  obtain ⟨-, -, hended⟩ := ha
  by_cases hid : id = .all ∨ id.isConcrete = true
  · obtain ⟨ids, ws₁, w₁, hopen⟩ := Workspace.exists_opened s.workspace hid s.world
    obtain ⟨first, hdeeds, hfirst⟩ := hopen.tickDeeds obs s.observed
    have htick := hopen.tick_eq obs s.observed
    have hws : (s.act (.tick obs id)).workspace = ws₁ := by simp only [act, htick]
    have hworld : (s.act (.tick obs id)).world =
        run (ws₁.tickAllDeeds obs ids s.observed w₁) w₁ := by
      simp only [act, htick, Workspace.run_tickAllDeeds ids {} none]
    refine (steps_opened h (.inr ⟨obs, rfl⟩) hopen).after (congrArg Workspace.directory hws) ?_
    rw [hworld]
    refine .run (tame_tickAllDeeds ws₁ obs ids s.observed w₁) fun m hm => hended m ?_
    simp only [actDeeds, hdeeds, moments_append, hfirst]
    exact List.mem_append_right _ hm
  · have hsame : s.act (.tick obs id) = s := by
      simp only [act, Workspace.tick, s.workspace.targets_refused hid]
    rw [hsame]
    exact .refl h

theorem steps_context (h : s.Owned) (id : ContextId) :
    Steps (.context id) s (s.act (.context id)) := by
  by_cases hid : id.isConcrete = true
  · obtain ⟨ids, ws₁, w₁, hopen⟩ := Workspace.exists_opened s.workspace (.inr hid) s.world
    have hstart := hopen.start_eq.2
    rw [ContextId.isAll_of_isConcrete hid, if_neg Bool.false_ne_true] at hstart
    have hact : s.act (.context id) = ⟨ws₁, s.observed, w₁⟩ :=
      congrArg (fun r : Workspace α × World τ α => Application.mk r.1 s.observed r.2) hstart
    rw [hact]
    exact steps_opened h (.inl rfl) hopen
  · have hsame : s.act (.context id) = s := by
      simp only [act, Workspace.context, hid, Bool.not_false, if_true]
    rw [hsame]
    exact .refl h

theorem steps_insert (h : s.Owned) (ha : s.Allowed (.insert c)) :
    Steps (.insert c) s (s.act (.insert c)) := by
  have hout : c ∉ s.members := ha.2.1 c List.mem_cons_self
  cases hc : s.world.context? c with
  | none =>
    have hsame : s.act (.insert c) = s := by simp only [act, Workspace.insert, hc]
    rw [hsame]
    exact .refl h
  | some ctx =>
    have hrefused : Steps (.insert c) s { s with world := s.world.dropContext c } :=
      (Steps.refl h).after rfl (.dropContext hout)
    by_cases hid : ctx.id.isConcrete = true
    · cases hdup : s.workspace.find? ctx.id with
      | some c' =>
        have hcontains : s.workspace.directory.contains ctx.id = true := by
          rw [SortedMap.contains]
          exact Option.isSome_iff_exists.2 ⟨c', hdup⟩
        have hact : s.act (.insert c) = { s with world := s.world.dropContext c } := by
          simp [act, Workspace.insert, hc, hid, hcontains]
        rw [hact]
        exact hrefused
      | none =>
        have hcontains : s.workspace.directory.contains ctx.id = false := by
          rw [SortedMap.contains, Option.isSome_eq_false_iff, Option.isNone_iff_eq_none]
          exact hdup
        refine .handOver h hc hout hid hdup ?_ ⟨.contextInserted ctx.id, ?_⟩
        · simp [act, Workspace.insert, hc, hid, hcontains]
        · simp [act, Workspace.insert, hc, hid, hcontains]
    · have hact : s.act (.insert c) = { s with world := s.world.dropContext c } := by
        simp [act, Workspace.insert, hc, hid]
      rw [hact]
      exact hrefused

theorem steps_logStates (h : s.Owned) (ha : s.Allowed (.logStates id)) :
    Steps (.logStates id) s (s.act (.logStates id)) := by
  refine (Steps.refl h).after rfl ?_
  have hworld : (s.act (.logStates id)).world =
      run (s.workspace.logStatesDeeds id s.world) s.world := Workspace.run_logStatesDeeds.symm
  rw [hworld]
  exact .run (tame_logStatesDeeds s.workspace id s.world) ha.2.2

omit [Behavior τ α] in
theorem mem_affected : c ∈ (s.workspace.affected id).values ↔
    ∃ j, (id.isAll || j == id) = true ∧ s.workspace.find? j = some c := by
  simp only [Workspace.affected, SortedMap.values, List.mem_map, Prod.exists, exists_eq_right]
  refine exists_congr fun j => ?_
  rw [← SortedMap.get?_eq_some_iff, SortedMap.get?_filter, Workspace.find?,
    Option.filter_eq_some_iff, and_comm]

theorem steps_cleanup (h : s.Owned) (obs : Observer ο α) (id : ContextId) :
    Steps (.cleanup obs id) s (s.act (.cleanup obs id)) := by
  by_cases hid : id = .all ∨ id.isConcrete = true
  · have hclean := Workspace.cleanup_cleansUp h.unique hid obs s.observed s.world
    exact .cleanUp h (fun c => mem_affected) hclean.removed hclean.cleared
  · have hsame : s.act (.cleanup obs id) = s := by
      simp only [act, Workspace.cleanup, s.workspace.targets_refused hid]
    rw [hsame]
    exact .refl h

/-- An allowed act keeps the directory in order. -/
theorem steps_act (h : s.Owned) (ha : s.Allowed a) : Steps a s (s.act a) := by
  cases a with
  | deed d => exact steps_deed h ha
  | context id => exact steps_context h id
  | insert c => exact steps_insert h ha
  | tick obs id => exact steps_tick h ha
  | logStates id => exact steps_logStates h ha
  | cleanup obs id => exact steps_cleanup h obs id
  | replaceSink sink => exact (Steps.refl h).after rfl (.refl _ _)

end Application

end AgentScheduler
