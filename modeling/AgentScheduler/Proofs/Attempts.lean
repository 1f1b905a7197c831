/-
What a log asks of the writer behind it, call by call. Each batch of static
variables is the pending changes of its class at that moment, and the class is
committed exactly if the writer accepts the batch; the first refusal ends the
log, and is its failure (`Recording`, `Written`).

A tick may be followed by two logs, of the static variables and of all states.
They come one after the other (`Written.append`), and the second one is left out
after a refusal (`Workspace.Logs.written`).
-/
import AgentScheduler.Output.Adapter
import AgentScheduler.Proofs.Batches
import AgentScheduler.Proofs.Turns

namespace AgentScheduler.Output

open World

/-- A call on a writer, and its answer. -/
abbrev Attempt := Call × Except OutputError Unit

/-- The rows of the pending changes of a class. -/
def changeRows (s : Statics) (context : ContextId) (frame : UInt64) (cls : String) :
    List StaticRow :=
  (s.pendingChanges cls).map (StaticRow.ofChange context frame cls)

/-- What logs of a context ask of a writer: the static variables and the writer before, the calls,
the refusal that ended them, and the static variables and the writer after. -/
inductive Recording {α : Type} (channel : Channel α) (context : ContextId) (frame : UInt64) :
    Statics → α → List Attempt → Option OutputError → Statics → α → Prop
  | done {s a} : Recording channel context frame s a [] none s a
  /-- The state of an agent is accepted. -/
  | state {s a b row logs refusal s' a'} (h : channel (.state row) a = (.ok (), b))
      (rest : Recording channel context frame s b logs refusal s' a') :
      Recording channel context frame s a ((.state row, .ok ()) :: logs) refusal s' a'
  | stateRefused {s a b row e} (h : channel (.state row) a = (.error e, b)) :
      Recording channel context frame s a [(.state row, .error e)] (some e) s b
  /-- The changes of a class are accepted, and the class is committed. -/
  | batch {s a b cls logs refusal s' a'} (hp : s.pendingChanges cls ≠ [])
      (h : channel (.statics (changeRows s context frame cls)) a = (.ok (), b))
      (rest : Recording channel context frame (s.commit cls) b logs refusal s' a') :
      Recording channel context frame s a
        ((.statics (changeRows s context frame cls), .ok ()) :: logs) refusal s' a'
  /-- The changes of a class are refused, and nothing is committed. -/
  | batchRefused {s a b cls e} (hp : s.pendingChanges cls ≠ [])
      (h : channel (.statics (changeRows s context frame cls)) a = (.error e, b)) :
      Recording channel context frame s a
        [(.statics (changeRows s context frame cls), .error e)] (some e) s b

namespace Recording

variable {α : Type} {channel : Channel α} {context : ContextId} {frame : UInt64}
  {s t s' : Statics} {a b a' : α} {logs logs' : List Attempt} {refusal : Option OutputError}

theorem append (h : Recording channel context frame s a logs none t b)
    (h' : Recording channel context frame t b logs' refusal s' a') :
    Recording channel context frame s a (logs ++ logs') refusal s' a' := by
  generalize hr : (none : Option OutputError) = r at h
  induction h with
  | done => exact h'
  | state h _ ih => exact .state h (ih h' hr)
  | batch hp h _ ih => exact .batch hp h (ih h' hr)
  | stateRefused | batchRefused => cases hr

/-- A refusal is the answer to the last call, and the only one. -/
theorem answers (h : Recording channel context frame s a logs refusal s' a') :
    match refusal with
    | none => ∀ x ∈ logs, x.2 = .ok ()
    | some e => ∃ accepted c, logs = accepted ++ [(c, .error e)] ∧
        ∀ x ∈ accepted, x.2 = .ok () := by
  induction h with
  | done => simp
  | @state _ _ _ row _ refusal _ _ _ _ ih | @batch _ _ _ cls _ refusal _ _ _ _ _ ih =>
    cases refusal with
    | none => exact List.forall_mem_cons.2 ⟨rfl, ih⟩
    | some e =>
      obtain ⟨accepted, c, rfl, hall⟩ := ih
      exact ⟨_ :: accepted, c, rfl, List.forall_mem_cons.2 ⟨rfl, hall⟩⟩
  | stateRefused | batchRefused => exact ⟨[], _, rfl, by simp⟩

end Recording

/-! ## Logs of a context -/

/-- A result fails exactly with the failure that there is. -/
def FailsWith {ε β : Type} (failure : Option ε) (result : Except ε β) : Prop :=
  match failure with
  | none => ∃ b, result = .ok b
  | some e => result = .error e

theorem FailsWith.ok_iff {ε : Type} {failure : Option ε} {result : Except ε Unit}
    (h : FailsWith failure result) : result = .ok () ↔ failure = none := by
  cases failure with
  | none => exact iff_of_true h.choose_spec rfl
  | some e =>
    obtain rfl : result = .error e := h
    simp

/-- How a receiver words the refusal of its writer. -/
def refusalError (e : OutputError) : LogError := .sink e.message

section Logs

variable {α : Type} (channel : Channel α)

/-- The receiver is the writer, in the host. -/
theorem sink_eq (r : Record) (h : Host α) : sink channel r h =
    ((channel (.ofRecord r) h.app).1.mapError refusalError,
      { h with app := (channel (.ofRecord r) h.app).2 }) := rfl

theorem logClasses_recording (context : ContextId) (frame : UInt64) (l : List String) (n : Nat)
    (s : Statics) (h : Host α) : ∃ logs refusal result s' h',
      Statics.logClasses context frame (sink channel) l n s h = (result, s', h') ∧
      Recording channel context frame s h.app logs refusal s' h'.app ∧
      FailsWith (refusal.map refusalError) result := by
  induction l generalizing n s h with
  | nil => exact ⟨[], none, .ok n, s, h, rfl, .done, n, rfl⟩
  | cons cls l ih =>
    unfold Statics.logClasses
    cases hp : s.pendingChanges cls with
    | nil => exact ih n s h
    | cons change changes =>
      have hne : s.pendingChanges cls ≠ [] := by rw [hp]; exact List.cons_ne_nil _ _
      have hrows : Call.ofRecord (.statics context frame cls (change :: changes)) =
          .statics (changeRows s context frame cls) := by rw [changeRows, hp]; rfl
      simp only [sink_eq, hrows]
      cases hcall : channel (.statics (changeRows s context frame cls)) h.app with
      | mk answer b =>
        cases answer with
        | error e =>
          exact ⟨_, some e, _, s, { h with app := b }, rfl, .batchRefused hne hcall, rfl⟩
        | ok =>
          obtain ⟨logs, refusal, result, s', h', hlog, hrec, hfails⟩ :=
            ih (n + (changes.length + 1)) (s.commit cls) { h with app := b }
          exact ⟨_, refusal, result, s', h', hlog, .batch hne hcall hrec, hfails⟩

end Logs

/-- What logs of the context `c` ask of a writer, and what they leave of the world: the context
keeps all but its static variables, and the rest stays as it is. -/
structure Written {τ α : Type} (channel : Channel α) (c : ContextRef) (w : World τ α)
    (logs : List Attempt) (refusal : Option OutputError) (v : World τ α) : Prop where
  agents : v.agents = w.agents
  others : ∀ d, d ≠ c → v.context? d = w.context? d
  absent : w.context? c = none →
    v.context? c = none ∧ v.host.app = w.host.app ∧ logs = [] ∧ refusal = none
  present : ∀ ctx, w.context? c = some ctx → ∃ s, v.context? c = some { ctx with statics := s } ∧
    Recording channel ctx.id ctx.clock.frames ctx.statics w.host.app logs refusal s v.host.app

namespace Written

variable {τ α : Type} {channel : Channel α} {c : ContextRef} {w u v : World τ α}
  {logs logs' : List Attempt} {refusal : Option OutputError}

theorem refl : Written channel c w [] none w :=
  ⟨rfl, fun _ _ => rfl, fun h => ⟨h, rfl, rfl, rfl⟩, fun ctx h => ⟨ctx.statics, h, .done⟩⟩

theorem of_present {ctx : Context} {s : Statics} (hc : w.context? c = some ctx)
    (hagents : v.agents = w.agents) (hothers : ∀ d, d ≠ c → v.context? d = w.context? d)
    (hv : v.context? c = some { ctx with statics := s })
    (hrec : Recording channel ctx.id ctx.clock.frames ctx.statics w.host.app logs refusal s
      v.host.app) : Written channel c w logs refusal v where
  agents := hagents
  others := hothers
  absent hn := by
    rw [hc] at hn
    cases hn
  present ctx' hc' := by
    obtain rfl := Option.some.inj (hc.symm.trans hc')
    exact ⟨s, hv, hrec⟩

/-- Logs one after the other. -/
theorem append (h : Written channel c w logs none u) (h' : Written channel c u logs' refusal v) :
    Written channel c w (logs ++ logs') refusal v where
  agents := h'.agents.trans h.agents
  others d hd := (h'.others d hd).trans (h.others d hd)
  absent hc := by
    obtain ⟨hu, happ, hlogs, -⟩ := h.absent hc
    obtain ⟨hv, happ', hlogs', hrefusal⟩ := h'.absent hu
    exact ⟨hv, happ'.trans happ, by rw [hlogs, hlogs']; rfl, hrefusal⟩
  present ctx hc := by
    obtain ⟨s, hu, hrec⟩ := h.present ctx hc
    obtain ⟨s', hv, hrec'⟩ := h'.present _ hu
    exact ⟨s', hv, hrec.append hrec'⟩

theorem report (h : Written channel c w logs refusal v) (e : Event) :
    Written channel c w logs refusal (v.report e) := ⟨h.agents, h.others, h.absent, h.present⟩

/-- A refusal is the answer to the last call, and the only one. -/
theorem accepted_iff (h : Written channel c w logs refusal v) :
    refusal = none ↔ ∀ x ∈ logs, x.2 = .ok () := by
  cases hc : w.context? c with
  | none =>
    obtain ⟨-, -, rfl, rfl⟩ := h.absent hc
    simp
  | some ctx =>
    obtain ⟨s, -, hrec⟩ := h.present ctx hc
    have hanswers := hrec.answers
    cases refusal with
    | none => exact iff_of_true rfl hanswers
    | some e =>
      obtain ⟨accepted, call, rfl, -⟩ := hanswers
      refine iff_of_false (by simp) fun hall => ?_
      cases hall (call, .error e) (by simp)

end Written

section Worlds

variable {τ α : Type} (channel : Channel α) (w : World τ α) (c : ContextRef)

theorem logStatics_written : ∃ logs refusal result v,
    w.logStatics c none (sink channel) = (result, v) ∧ Written channel c w logs refusal v ∧
      FailsWith (refusal.map (.log ∘ refusalError)) result := by
  unfold logStatics
  cases hc : w.context? c with
  | none => exact ⟨[], none, _, w, rfl, .refl, 0, rfl⟩
  | some ctx =>
    obtain ⟨logs, refusal, result, s, h, hlog, hrec, hfails⟩ :=
      logClasses_recording channel ctx.id ctx.clock.frames ctx.statics.classes 0 ctx.statics w.host
    have hlog : ctx.statics.log ctx.id ctx.clock.frames none (sink channel) w.host =
      (result, s, h) := hlog
    simp only [Option.filter_none, hlog]
    refine ⟨logs, refusal, _, _, rfl, .of_present hc rfl
      (fun d hd => context?_modifyContext_ne hd _) (context?_modifyContext_self hc _) hrec, ?_⟩
    cases refusal with
    | none =>
      obtain ⟨n, rfl⟩ := hfails
      exact ⟨n, rfl⟩
    | some e =>
      obtain rfl := hfails
      rfl

variable [Behavior τ α]

/-- Only the host changes while the states of agents are logged. -/
theorem logAgents_recording (ctx : Context) (s : Statics) (l : List AgentRef) (n : Nat)
    (w : World τ α) : ∃ logs refusal result h,
      logAgents ctx (sink channel) l n w = (result, { w with host := h }) ∧
      Recording channel ctx.id ctx.clock.frames s w.host.app logs refusal s h.app ∧
      FailsWith (refusal.map refusalError) result := by
  induction l generalizing n w with
  | nil => exact ⟨[], none, .ok n, w.host, rfl, .done, n, rfl⟩
  | cons a l ih =>
    unfold logAgents
    cases hlive : w.live? a with
    | none => exact ih n w
    | some agent =>
      simp only [sink_eq, Call.ofRecord]
      cases hcall : channel (.state ⟨ctx.id.number, ctx.clock.frames, agent.place.id.number,
          agent.cls, agent.name, w.describeTask a⟩) w.host.app with
      | mk answer b =>
        cases answer with
        | error e =>
          exact ⟨_, some e, _, { w.host with app := b }, rfl, .stateRefused hcall, rfl⟩
        | ok =>
          obtain ⟨logs, refusal, result, h, hlog, hrec, hfails⟩ :=
            ih (n + 1) { w with host := { w.host with app := b } }
          exact ⟨_, refusal, result, h, hlog, .state hcall hrec, hfails⟩

theorem logState_written : ∃ logs refusal result v,
    w.logState c (sink channel) = (result, v) ∧ Written channel c w logs refusal v ∧
      FailsWith (refusal.map (.log ∘ refusalError)) result := by
  unfold logState
  cases hc : w.context? c with
  | none => exact ⟨[], none, _, w, rfl, .refl, 0, rfl⟩
  | some ctx =>
    obtain ⟨logs, refusal, result, h, hlog, hrec, hfails⟩ :=
      logAgents_recording channel ctx ctx.statics (w.handles ctx.registry) 0 w
    have hagents : Written channel c w logs refusal { w with host := h } :=
      .of_present hc rfl (fun _ _ => rfl) hc hrec
    simp only [hlog]
    cases refusal with
    | some e =>
      obtain rfl := hfails
      exact ⟨logs, some e, _, _, rfl, hagents, rfl⟩
    | none =>
      obtain ⟨n, rfl⟩ := hfails
      obtain ⟨logs', refusal, result, v, hstatics, hwritten, hfails⟩ :=
        logStatics_written channel { w with host := h } c
      simp only [hstatics]
      cases refusal with
      | some e =>
        obtain rfl := hfails
        exact ⟨logs ++ logs', some e, _, v, rfl, hagents.append hwritten, rfl⟩
      | none =>
        obtain ⟨m, rfl⟩ := hfails
        exact ⟨logs ++ logs', none, _, v, rfl, hagents.append hwritten, n + m, rfl⟩

end Worlds

end AgentScheduler.Output

namespace AgentScheduler

open World Output

variable {τ α : Type}

/-! ## The logs of a turn -/

section CaughtUp

variable {w v : World τ α} {c : ContextRef} {sink : Sink α} {n : Nat}

/-- No class of the context has changes that were not logged. -/
def World.CaughtUp (w : World τ α) (c : ContextRef) : Prop :=
  ∀ ctx, w.context? c = some ctx → ∀ cls, ctx.statics.pendingChanges cls = []

theorem World.logStatics_caughtUp (h : w.logStatics c none sink = (.ok n, v)) : v.CaughtUp c := by
  intro ctx' hc' cls
  rw [Statics.pendingChanges_eq_nil_iff]
  unfold logStatics at h
  cases hc : w.context? c with
  | none =>
    simp only [hc, Prod.mk.injEq] at h
    obtain ⟨-, rfl⟩ := h
    rw [hc] at hc'
    cases hc'
  | some ctx =>
    have hlog := Statics.log_logged ctx.statics ctx.id ctx.clock.frames none sink w.host
    simp only [hc, Option.filter_none, Prod.mk.injEq] at h
    generalize ctx.statics.log ctx.id ctx.clock.frames none sink w.host = r at h hlog
    obtain ⟨result, s, host⟩ := r
    obtain ⟨hresult, rfl⟩ := h
    have hself : some ctx' = some { ctx with statics := s } :=
      hc'.symm.trans (context?_modifyContext_self hc _)
    obtain rfl := Option.some.inj hself
    cases result with
    | error e => cases hresult
    | ok m => exact congrFun (Statics.Logged.caught_up hlog) cls

theorem World.logState_caughtUp [Behavior τ α] (h : w.logState c sink = (.ok n, v)) :
    v.CaughtUp c := by
  unfold logState at h
  split at h
  · next hc =>
    obtain ⟨-, rfl⟩ := Prod.mk.inj h
    intro ctx hctx
    rw [hc] at hctx
    cases hctx
  · split at h
    · cases h
    · split at h
      · cases h
      · next hstatics =>
        obtain ⟨-, rfl⟩ := Prod.mk.inj h
        exact logStatics_caughtUp hstatics

end CaughtUp

namespace Workspace

variable {channel : Channel α} {ws : Workspace α} {id : ContextId} {c : ContextRef}
  {frame : UInt64} {w u v : World τ α} {logged : Except ContextError Unit}

theorem StaticsLogged.written (hsink : ws.sink = Output.sink channel)
    (h : ws.StaticsLogged c w u) : ∃ logs, Written channel c w logs none u := by
  unfold StaticsLogged at h
  split at h
  · obtain ⟨n, h⟩ := h
    obtain ⟨logs, refusal, result, v, hlog, hwritten, hfails⟩ := logStatics_written channel w c
    rw [hsink, hlog] at h
    obtain ⟨rfl, rfl⟩ := Prod.mk.inj h
    cases refusal with
    | none => exact ⟨logs, hwritten⟩
    | some e => cases hfails
  · subst h
    exact ⟨[], .refl⟩

variable [Behavior τ α]

/-- What the logging of a turn asks of the writer, and how it fails. -/
theorem Logs.written (hsink : ws.sink = Output.sink channel) (h : Logs ws id c frame w logged v) :
    ∃ logs refusal, Written channel c w logs refusal v ∧
      FailsWith (refusal.map (.log ∘ refusalError)) logged := by
  cases h with
  | statics hs _ =>
    obtain ⟨logs, hwritten⟩ := hs.written hsink
    exact ⟨logs, none, hwritten, (), rfl⟩
  | staticsRefused _ h =>
    obtain ⟨logs, refusal, result, v, hlog, hwritten, hfails⟩ := logStatics_written channel w c
    rw [hsink, hlog] at h
    obtain ⟨rfl, rfl⟩ := Prod.mk.inj h
    cases refusal with
    | none => cases hfails.choose_spec
    | some e =>
      cases hfails
      exact ⟨logs, some e, hwritten, rfl⟩
  | @states n u v hs _ h =>
    obtain ⟨logs, hwritten⟩ := hs.written hsink
    obtain ⟨logs', refusal, result, x, hlog, hwritten', hfails⟩ := logState_written channel u c
    rw [hsink, hlog] at h
    obtain ⟨rfl, rfl⟩ := Prod.mk.inj h
    cases refusal with
    | none => exact ⟨logs ++ logs', none, (hwritten.append hwritten').report _, (), rfl⟩
    | some e => cases hfails
  | @statesRefused e u v hs _ h =>
    obtain ⟨logs, hwritten⟩ := hs.written hsink
    obtain ⟨logs', refusal, result, x, hlog, hwritten', hfails⟩ := logState_written channel u c
    rw [hsink, hlog] at h
    obtain ⟨rfl, rfl⟩ := Prod.mk.inj h
    cases refusal with
    | none => cases hfails.choose_spec
    | some e =>
      cases hfails
      exact ⟨logs ++ logs', some e, hwritten.append hwritten', rfl⟩

/-- Logging that goes through leaves nothing to be logged. -/
theorem Logs.caughtUp (h : Logs ws id c frame w (.ok ()) v)
    (hdue : ws.config.logStaticsOnTick = true ∨ ws.StatesDue frame) : v.CaughtUp c := by
  cases h with
  | statics hs hnot =>
    rw [StaticsLogged, if_pos (hdue.resolve_right hnot)] at hs
    obtain ⟨n, hs⟩ := hs
    exact logStatics_caughtUp hs
  | @states n u v _ _ h =>
    have hv : v.CaughtUp c := logState_caughtUp h
    exact hv

end Workspace

end AgentScheduler
