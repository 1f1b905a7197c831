/-
A tick of a workspace, turn by turn. Each context that the call is about has one
turn: a notice, the tick, the logging that is due, and another notice, in every
case (`Turn.Taken`, `Turns`). A receiver that refuses records changes nothing
else: with one that accepts everything the turns are the same up to baselines
and records (`ticks_survive_refusals`).
-/
import AgentScheduler.Proofs.Bindings
import AgentScheduler.Proofs.Changes
import AgentScheduler.Proofs.Unseen
import AgentScheduler.Proofs.WorkspaceRuns
import Mathlib.Data.List.Forall2

namespace AgentScheduler

open World

/-! ## Sums of reports -/

namespace TickReport

/-- The sum of a number over reports. -/
def totalOf (f : TickReport → Nat) (rs : List TickReport) : Nat := rs.foldr (fun r n => f r + n) 0

/-- The sum of reports, number by number; the frame is the greatest. -/
structure Sums (rs : List TickReport) (total : TickReport) : Prop where
  latest : ∀ r ∈ rs, r.frame ≤ total.frame
  frame : total.frame = 0 ∨ ∃ r ∈ rs, r.frame = total.frame
  executed : total.executed = totalOf (·.executed) rs
  success : total.success = totalOf (·.success) rs
  failure : total.failure = totalOf (·.failure) rs
  running : total.running = totalOf (·.running) rs
  stale : total.stale = totalOf (·.stale) rs
  added : total.added = totalOf (·.added) rs
  removed : total.removed = totalOf (·.removed) rs

theorem foldl_add (f : TickReport → Nat) (hf : ∀ a b : TickReport, f (a + b) = f a + f b)
    (rs : List TickReport) (t : TickReport) : f (rs.foldl (· + ·) t) = f t + totalOf f rs := by
  induction rs generalizing t with
  | nil => rfl
  | cons r rs ih =>
    rw [List.foldl_cons, ih, hf, Nat.add_assoc]
    rfl

theorem frame_add (a b : TickReport) :
    a.frame ≤ (a + b).frame ∧ b.frame ≤ (a + b).frame ∧
      ((a + b).frame = a.frame ∨ (a + b).frame = b.frame) := by
  show a.frame ≤ (if a.frame ≤ b.frame then b.frame else a.frame) ∧
    b.frame ≤ (if a.frame ≤ b.frame then b.frame else a.frame) ∧ _
  by_cases h : a.frame ≤ b.frame
  · rw [if_pos h]
    exact ⟨h, UInt64.le_refl _, .inr (if_pos h)⟩
  · rw [if_neg h]
    exact ⟨UInt64.le_refl _, (UInt64.le_total _ _).resolve_left h, .inl (if_neg h)⟩

theorem frame_foldl (rs : List TickReport) (t : TickReport) :
    t.frame ≤ (rs.foldl (· + ·) t).frame ∧
      (∀ r ∈ rs, r.frame ≤ (rs.foldl (· + ·) t).frame) ∧
        ((rs.foldl (· + ·) t).frame = t.frame ∨
          ∃ r ∈ rs, r.frame = (rs.foldl (· + ·) t).frame) := by
  induction rs generalizing t with
  | nil => exact ⟨UInt64.le_refl _, fun r hr => (by cases hr), .inl rfl⟩
  | cons r rs ih =>
    obtain ⟨hstart, hall, hone⟩ := ih (t + r)
    obtain ⟨ht, hr, heq⟩ := frame_add t r
    refine ⟨UInt64.le_trans ht hstart,
      List.forall_mem_cons.2 ⟨UInt64.le_trans hr hstart, hall⟩, ?_⟩
    rw [List.foldl_cons]
    rcases hone with hone | ⟨x, hx, he⟩
    · rcases heq with heq | heq
      · exact .inl (hone.trans heq)
      · exact .inr ⟨r, List.mem_cons_self, (hone.trans heq).symm⟩
    · exact .inr ⟨x, List.mem_cons_of_mem _ hx, he⟩

theorem sums_foldl (rs : List TickReport) : Sums rs (rs.foldl (· + ·) {}) := by
  obtain ⟨-, hall, hone⟩ := frame_foldl rs {}
  have number (f : TickReport → Nat) (hf : ∀ a b : TickReport, f (a + b) = f a + f b)
      (hzero : f {} = 0) : f (rs.foldl (· + ·) {}) = totalOf f rs := by
    rw [foldl_add f hf, hzero, Nat.zero_add]
  exact ⟨hall, hone, number _ (fun _ _ => rfl) rfl, number _ (fun _ _ => rfl) rfl,
    number _ (fun _ _ => rfl) rfl, number _ (fun _ _ => rfl) rfl, number _ (fun _ _ => rfl) rfl,
    number _ (fun _ _ => rfl) rfl, number _ (fun _ _ => rfl) rfl⟩

end TickReport

/-- The states are due after every so many frames, unless the interval is zero. -/
theorem Config.stateLogDue_iff (c : Config) (frame : UInt64) :
    c.stateLogDue frame = true ↔
      c.stateLogInterval ≠ 0 ∧ c.stateLogInterval.toNat ∣ frame.toNat := by
  have hpos : 0 < c.stateLogInterval ↔ c.stateLogInterval ≠ 0 := UInt64.pos_iff_ne_zero
  rw [stateLogDue, Bool.and_eq_true, decide_eq_true_iff, beq_iff_eq, hpos,
    Nat.dvd_iff_mod_eq_zero, ← UInt64.toNat_mod]
  exact and_congr_right' UInt64.toNat_inj.symm

/-- The completed ticks of a context. -/
def World.frames {τ α : Type} (w : World τ α) (c : ContextRef) : UInt64 :=
  ((w.context? c).map (·.clock.frames)).getD 0

/-- The turn of one context. Each observer state and world is that after the step. -/
structure Turn (τ α ο : Type) where
  id : ContextId
  context : ContextRef
  before : ο × World τ α
  started : ο × World τ α
  report : TickReport
  ticked : World τ α
  logged : Except ContextError Unit
  written : World τ α
  ended : ο × World τ α
  /-- The world handed on, with a report of the failure. -/
  left : World τ α

namespace Workspace

variable {τ α ο σ : Type} [Behavior τ α] {ws : Workspace α} {obs : Observer ο α} {see : α → σ}

/-! ## Turns -/

/-- The changed static variables were logged, if that is configured. -/
def StaticsLogged (ws : Workspace α) (c : ContextRef) (w v : World τ α) : Prop :=
  if ws.config.logStaticsOnTick = true then ∃ n, w.logStatics c none ws.sink = (.ok n, v) else v = w

/-- The states are to be logged. -/
def StatesDue (ws : Workspace α) (frame : UInt64) : Prop :=
  ws.config.stateLogInterval ≠ 0 ∧ ws.config.stateLogInterval.toNat ∣ frame.toNat

/-- The logging after a tick that ended with this frame. -/
inductive Logs (ws : Workspace α) (id : ContextId) (c : ContextRef) (frame : UInt64)
    (w : World τ α) : Except ContextError Unit → World τ α → Prop
  | statics {u} (hs : ws.StaticsLogged c w u) (hdue : ¬ws.StatesDue frame) :
      Logs ws id c frame w (.ok ()) u
  /-- Where the changed static variables are refused, states are not logged. -/
  | staticsRefused {e u} (hs : ws.config.logStaticsOnTick = true)
      (h : w.logStatics c none ws.sink = (.error e, u)) : Logs ws id c frame w (.error e) u
  | states {n u v} (hs : ws.StaticsLogged c w u) (hdue : ws.StatesDue frame)
      (h : u.logState c ws.sink = (.ok n, v)) :
      Logs ws id c frame w (.ok ()) (v.report (.periodicLog id frame n))
  | statesRefused {e u v} (hs : ws.StaticsLogged c w u) (hdue : ws.StatesDue frame)
      (h : u.logState c ws.sink = (.error e, v)) : Logs ws id c frame w (.error e) v

end Workspace

open Workspace

variable {τ α ο σ : Type} [Behavior τ α] {ws : Workspace α} {obs : Observer ο α} {see : α → σ}

/-- A failure of the logging is reported to the host. -/
def handedOn (id : ContextId) (logged : Except ContextError Unit) (w : World τ α) : World τ α :=
  match logged with
  | .ok () => w
  | .error e => w.report (.tickLogFailed id e)

/-- The observer is called with a notice, its state and the host, and keeps and gives back what it
makes of them. Nothing else changes. -/
structure Observer.Called (obs : Observer ο α) (n : Notice) (before after : ο × World τ α) :
    Prop where
  given : obs n before.1 before.2.host = (after.1, after.2.host)
  rest : after.2 = { before.2 with host := after.2.host }

omit [Behavior τ α] in
theorem Observer.called_iff {n : Notice} {before after : ο × World τ α} :
    obs.Called n before after ↔ after = Workspace.tell obs n before.1 before.2 := by
  constructor
  · rintro ⟨hgiven, hrest⟩
    simp only [Workspace.tell, hgiven, ← hrest]
  · rintro rfl
    exact ⟨rfl, rfl⟩

/-- A turn goes through all its steps, whether logging fails or not. -/
structure Turn.Taken (ws : Workspace α) (obs : Observer ο α) (t : Turn τ α ο) : Prop where
  listed : ws.find? t.id = some t.context
  start : obs.Called (.started t.id (t.before.2.frames t.context)) t.before t.started
  tick : t.started.2.tick t.context = (t.report, t.ticked)
  log : Logs ws t.id t.context t.report.frame t.ticked t.logged t.written
  stop : obs.Called (.ended t.id t.report) (t.started.1, t.written) t.ended
  leave : t.left = handedOn t.id t.logged t.ended.2

/-- Turns one after the other. -/
inductive Turns (ws : Workspace α) (obs : Observer ο α) :
    ο → World τ α → List (Turn τ α ο) → ο → World τ α → Prop
  | nil {o w} : Turns ws obs o w [] o w
  | cons {o w t ts o' w'} (ht : t.Taken ws obs) (hb : t.before = (o, w))
      (rest : Turns ws obs t.ended.1 t.left ts o' w') : Turns ws obs o w (t :: ts) o' w'

/-- The failure of the first turn whose logging failed. -/
def firstFailure : List (Turn τ α ο) → Option ContextError
  | [] => none
  | t :: ts =>
    match t.logged with
    | .ok () => firstFailure ts
    | .error e => some e

omit [Behavior τ α] in
theorem firstFailure_eq_none {ts : List (Turn τ α ο)} (h : ∀ t ∈ ts, t.logged = .ok ()) :
    firstFailure ts = none := by
  induction ts with
  | nil => rfl
  | cons t ts ih =>
    obtain ⟨ht, h⟩ := List.forall_mem_cons.1 h
    simp only [firstFailure, ht, ih h]

omit [Behavior τ α] in
theorem firstFailure_append {l r : List (Turn τ α ο)} {t : Turn τ α ο} {e : ContextError}
    (h : ∀ t ∈ l, t.logged = .ok ()) (ht : t.logged = .error e) :
    firstFailure (l ++ t :: r) = some e := by
  induction l with
  | nil => simp only [List.nil_append, firstFailure, ht]
  | cons x l ih =>
    obtain ⟨hx, h⟩ := List.forall_mem_cons.1 h
    simp only [List.cons_append, firstFailure, hx, ih h]

namespace Workspace

/-! ## The turns of a call -/

section Steps

variable {id : ContextId} {c : ContextRef} {o : ο} {w : World τ α}

theorem states_logs {u : World τ α} {frame : UInt64} {r : Except ContextError Unit × World τ α}
    (hs : ws.StaticsLogged c w u)
    (hr : r = if ws.config.stateLogDue frame then
        match u.logState c ws.sink with
        | (.error e, w) => (.error e, w)
        | (.ok records, w) => (.ok (), w.report (.periodicLog id frame records))
      else (.ok (), u)) : Logs ws id c frame w r.1 r.2 := by
  subst hr
  by_cases hdue : ws.config.stateLogDue frame = true
  · have hdue' : ws.StatesDue frame := (Config.stateLogDue_iff _ _).1 hdue
    rw [if_pos hdue]
    cases hlog : u.logState c ws.sink with
    | mk result v =>
      cases result with
      | error e => exact .statesRefused hs hdue' hlog
      | ok n => exact .states hs hdue' hlog
  · rw [if_neg hdue]
    exact .statics hs fun h => hdue ((Config.stateLogDue_iff _ _).2 h)

theorem logTick_logs (ws : Workspace α) (id : ContextId) (c : ContextRef) (frame : UInt64)
    (w : World τ α) :
    Logs ws id c frame w (ws.logTick id c frame w).1 (ws.logTick id c frame w).2 := by
  unfold logTick
  by_cases hcfg : ws.config.logStaticsOnTick = true
  · simp only [hcfg, if_true]
    cases hlog : w.logStatics c none ws.sink with
    | mk result u =>
      cases result with
      | error e => exact .staticsRefused hcfg hlog
      | ok n => exact states_logs (by rw [StaticsLogged, if_pos hcfg]; exact ⟨n, hlog⟩) rfl
  · simp only [hcfg, Bool.false_eq_true, if_false]
    exact states_logs (by rw [StaticsLogged, if_neg hcfg]) rfl

/-- A listed context has its turn. -/
theorem tickOne_turn (obs : Observer ο α) (hc : ws.find? id = some c) (o : ο) (w : World τ α) :
    ∃ t : Turn τ α ο, t.Taken ws obs ∧ t.before = (o, w) ∧ t.id = id ∧
      ws.tickOne obs id o w = (t.report, t.logged, t.ended) := by
  have hframes : ((w.context? c).map (·.clock.frames)).getD 0 = w.frames c := rfl
  cases htick : (tell obs (.started id (w.frames c)) o w).2.tick c with
  | mk report v =>
    have hlogs := logTick_logs ws id c report.frame v
    cases hlog : ws.logTick id c report.frame v with
    | mk logged u =>
      rw [hlog] at hlogs
      let started := tell obs (.started id (w.frames c)) o w
      let ended := tell obs (.ended id report) started.1 u
      refine ⟨⟨id, c, (o, w), started, report, v, logged, u, ended, handedOn id logged ended.2⟩,
        ⟨hc, Observer.called_iff.2 rfl, htick, hlogs, Observer.called_iff.2 rfl, rfl⟩, rfl, rfl, ?_⟩
      simp only [tickOne, hc, hframes, htick, hlog]
      rfl

/-- Listed contexts have their turns. -/
theorem tickAll_turns (obs : Observer ο α) {ids : List ContextId}
    (hids : ∀ id ∈ ids, ∃ c, ws.find? id = some c) (total : TickReport)
    (failure : Option ContextError) (o : ο) (w : World τ α) :
    ∃ ts o' w', ts.map Turn.id = ids ∧ Turns ws obs o w ts o' w' ∧
      ws.tickAll obs ids total failure o w =
        ((ts.map Turn.report).foldl (· + ·) total, failure.or (firstFailure ts), o', w') := by
  induction ids generalizing total failure o w with
  | nil => exact ⟨[], o, w, rfl, .nil, by simp only [tickAll, firstFailure, Option.or_none]; rfl⟩
  | cons id ids ih =>
    obtain ⟨⟨c, hc⟩, hids⟩ := List.forall_mem_cons.1 hids
    obtain ⟨t, ht, hb, hid, hone⟩ := tickOne_turn obs hc o w
    have hleave := ht.leave
    simp only [tickAll, hone]
    cases hlog : t.logged with
    | ok =>
      obtain ⟨ts, o', w', hts, hrest, heq⟩ := ih hids (total + t.report) failure t.ended.1 t.ended.2
      rw [hlog] at hleave
      refine ⟨t :: ts, o', w', by rw [List.map_cons, hid, hts], .cons ht hb (hleave ▸ hrest), ?_⟩
      simp only [firstFailure, hlog]
      exact heq
    | error e =>
      obtain ⟨ts, o', w', hts, hrest, heq⟩ := ih hids (total + t.report) (some (failure.getD e))
        t.ended.1 (t.ended.2.report (.tickLogFailed t.id e))
      rw [hlog] at hleave
      refine ⟨t :: ts, o', w', by rw [List.map_cons, hid, hts], .cons ht hb (hleave ▸ hrest), ?_⟩
      simp only [firstFailure, hlog, ← hid]
      refine heq.trans ?_
      cases failure <;> rfl

end Steps

/-! ## Calls -/

/-- What a call applies to, and where it starts: all contexts of the directory, or one, which is
made when it is absent. -/
inductive Opened (ws : Workspace α) (id : ContextId) (w : World τ α) :
    List ContextId → Workspace α → World τ α → Prop
  | all (h : id = .all) : Opened ws id w ws.contextIds ws w
  | present {c} (h : id.isConcrete = true) (hc : ws.find? id = some c) : Opened ws id w [id] ws w
  | absent (h : id.isConcrete = true) (hc : ws.find? id = none) :
      Opened ws id w [id] { ws with directory := ws.directory.insert id ⟨w.contexts.size⟩ }
        ((w.addContext { Context.new id ws.types ws.config.tickMillis with
          createdByDirectory := true }).2.report (.contextCreated id))

/-- What a call does: each context has one turn, and the result is the sum of the reports, or the
failure of the lowest id. -/
structure TickCall (ws : Workspace α) (obs : Observer ο α) (ids : List ContextId) (o : ο)
    (w : World τ α) (ts : List (Turn τ α ο)) (result : Except WorkspaceError TickReport) (o' : ο)
    (w' : World τ α) : Prop where
  ids : ts.map Turn.id = ids
  turns : Turns ws obs o w ts o' w'
  total : (∀ t ∈ ts, t.logged = .ok ()) →
    ∃ total, TickReport.Sums (ts.map Turn.report) total ∧ result = .ok total
  failure : ∀ l t r e, ts = l ++ t :: r → (∀ t ∈ l, t.logged = .ok ()) → t.logged = .error e →
    result = .error (.context e)

section Calls

variable {id : ContextId} {ids : List ContextId} {ws₁ : Workspace α} {w w₁ : World τ α}

omit [Behavior τ α] in
theorem mem_contextIds : id ∈ ws.contextIds ↔ ∃ c, ws.find? id = some c :=
  SortedMap.mem_keys.trans Option.isSome_iff_exists

omit [Behavior τ α] in
theorem exists_opened (ws : Workspace α) (hid : id = .all ∨ id.isConcrete = true) (w : World τ α) :
    ∃ ids ws₁ w₁, ws.Opened id w ids ws₁ w₁ := by
  rcases hid with hid | hid
  · exact ⟨_, _, _, .all hid⟩
  · cases hc : ws.find? id with
    | some c => exact ⟨_, _, _, .present hid hc⟩
    | none => exact ⟨_, _, _, .absent hid hc⟩

namespace Opened

omit [Behavior τ α] in
theorem listed (h : ws.Opened id w ids ws₁ w₁) : ∀ i ∈ ids, ∃ c, ws₁.find? i = some c := by
  cases h with
  | all h => exact fun i hi => mem_contextIds.1 hi
  | present h hc => exact List.forall_mem_singleton.2 ⟨_, hc⟩
  | absent h hc =>
    exact List.forall_mem_singleton.2 ⟨_, by rw [find?, SortedMap.get?_insert, if_pos rfl]⟩

omit [Behavior τ α] in
theorem ascend (h : ws.Opened id w ids ws₁ w₁) : ids.Pairwise fun i j => i.number < j.number := by
  cases h with
  | all h => exact ws.directory.ids_ascend
  | present h hc => exact List.pairwise_singleton _ _
  | absent h hc => exact List.pairwise_singleton _ _

omit [Behavior τ α] in
theorem sink_eq (h : ws.Opened id w ids ws₁ w₁) : ws₁.sink = ws.sink := by
  cases h <;> rfl

omit [Behavior τ α] in
/-- The receiver has no part in it. -/
theorem replaceSink (h : ws.Opened id w ids ws₁ w₁) (sink : Sink α) :
    (ws.replaceSink sink).2.Opened id w ids (ws₁.replaceSink sink).2 w₁ := by
  cases h with
  | all h => exact .all h
  | present h hc => exact .present h hc
  | absent h hc => exact .absent h hc

omit [Behavior τ α] in
theorem start_eq (h : ws.Opened id w ids ws₁ w₁) : ws.targets id = .ok ids ∧
    (if id.isAll = true then (ws, w) else (ws.context id w).2) = (ws₁, w₁) := by
  cases h with
  | all h =>
    subst h
    exact ⟨rfl, rfl⟩
  | present h hc =>
    have hall : id.isAll = false := ContextId.isAll_of_isConcrete h
    exact ⟨ws.targets_of_isConcrete h, by simp [context, hall, h, hc]⟩
  | absent h hc =>
    have hall : id.isAll = false := ContextId.isAll_of_isConcrete h
    exact ⟨ws.targets_of_isConcrete h, by simp [context, hall, h, hc, addContext]⟩

theorem tick_eq (h : ws.Opened id w ids ws₁ w₁) (obs : Observer ο α) (o : ο) :
    ws.tick obs id o w =
      (match (ws₁.tickAll obs ids {} none o w₁).2.1 with
        | none => .ok (ws₁.tickAll obs ids {} none o w₁).1
        | some e => .error (.context e), ws₁, (ws₁.tickAll obs ids {} none o w₁).2.2) := by
  obtain ⟨htargets, hstart⟩ := h.start_eq
  have hstart : (if id.isAll = true then (ws, w)
      else ((ws.context id w).2.1, (ws.context id w).2.2)) = (ws₁, w₁) := hstart
  simp only [tick, htargets, hstart]
  split <;> simp_all

/-- The turns of the contexts make up the call. -/
theorem call (h : ws.Opened id w ids ws₁ w₁) (obs : Observer ο α) (o : ο) :
    (ws.tick obs id o w).2.1 = ws₁ ∧
      ∃ ts, TickCall ws₁ obs ids o w₁ ts (ws.tick obs id o w).1 (ws.tick obs id o w).2.2.1
        (ws.tick obs id o w).2.2.2 := by
  obtain ⟨ts, o', w', hts, hturns, heq⟩ := tickAll_turns obs h.listed {} none o w₁
  rw [h.tick_eq obs o, heq]
  refine ⟨rfl, ts, hts, hturns, fun hok => ⟨_, TickReport.sums_foldl _, ?_⟩,
    fun l t r e hl hok ht => ?_⟩
  · simp only [firstFailure_eq_none hok, Option.or_none]
  · simp only [hl, firstFailure_append hok ht, Option.none_or]

/-- A call ticks contexts after it has made the one it is about, if it has. -/
theorem tickDeeds (h : ws.Opened id w ids ws₁ w₁) (obs : Observer ο α) (o : ο) :
    ∃ first, ws.tickDeeds obs id o w = first ++ ws₁.tickAllDeeds obs ids o w₁ ∧
      run first w = w₁ := by
  obtain ⟨htargets, hstart⟩ := h.start_eq
  simp only [Workspace.tickDeeds, htargets]
  cases hall : id.isAll with
  | true =>
    rw [hall, if_pos rfl] at hstart
    cases hstart
    exact ⟨[], rfl, rfl⟩
  | false =>
    rw [hall, if_neg Bool.false_ne_true] at hstart
    refine ⟨ws.contextDeeds id w, ?_, run_contextDeeds.trans (congrArg Prod.snd hstart)⟩
    rw [if_neg Bool.false_ne_true, congrArg Prod.fst hstart, congrArg Prod.snd hstart]

end Opened

/-- Other ids are refused, and nothing happens. -/
theorem tick_invalid (ws : Workspace α) (obs : Observer ο α) {id : ContextId}
    (hid : ¬(id = .all ∨ id.isConcrete = true)) (o : ο) (w : World τ α) :
    ws.tick obs id o w = (.error (.invalidContextId id), ws, o, w) := by
  simp only [tick, ws.targets_refused hid]

/-- No call changes the receiver. -/
theorem tick_sink (ws : Workspace α) (obs : Observer ο α) (id : ContextId) (o : ο) (w : World τ α) :
    (ws.tick obs id o w).2.1.sink = ws.sink := by
  by_cases hid : id = .all ∨ id.isConcrete = true
  · obtain ⟨ids, ws₁, w₁, hw⟩ := ws.exists_opened hid w
    rw [(hw.call obs o).1, hw.sink_eq]
  · rw [ws.tick_invalid obs hid]

end Calls

/-! ## A receiver that accepts everything -/

omit [Behavior τ α] in
theorem logClasses_accepted {sink : Sink α} (haccept : ∀ r h, (sink r h).1 = .ok ())
    (context : ContextId) (frame : UInt64) (classes : List String) (sent : Nat) (s : Statics)
    (g : Host α) : ∃ n, (Statics.logClasses context frame sink classes sent s g).1 = .ok n := by
  induction classes generalizing sent s g with
  | nil => exact ⟨sent, rfl⟩
  | cons cls classes ih =>
    rw [Statics.logClasses]
    split
    · exact ih sent s g
    · next change changes _ =>
      have hsent := haccept (.statics context frame cls (change :: changes)) g
      generalize sink (.statics context frame cls (change :: changes)) g = r at hsent
      obtain ⟨result, g'⟩ := r
      obtain rfl : result = .ok () := hsent
      exact ih _ _ _

omit [Behavior τ α] in
theorem logStatics_accepted {sink : Sink α} (haccept : ∀ r h, (sink r h).1 = .ok ())
    (w : World τ α) (c : ContextRef) : ∃ n, (w.logStatics c none sink).1 = .ok n := by
  unfold logStatics
  cases hc : w.context? c with
  | none => exact ⟨0, rfl⟩
  | some ctx =>
    obtain ⟨n, hn⟩ := logClasses_accepted haccept ctx.id ctx.clock.frames ctx.statics.classes 0
      ctx.statics w.host
    exact ⟨n, congrArg (Except.mapError ContextError.log) hn⟩

theorem logAgents_accepted {sink : Sink α} (haccept : ∀ r h, (sink r h).1 = .ok ())
    (ctx : Context) (l : List AgentRef) (sent : Nat) (w : World τ α) :
    ∃ n, (logAgents ctx sink l sent w).1 = .ok n := by
  induction l generalizing sent w with
  | nil => exact ⟨sent, rfl⟩
  | cons a l ih =>
    rw [logAgents]
    split
    · exact ih sent w
    · next agent _ =>
      have hsent := haccept (.state ctx.id ctx.clock.frames agent.place.id agent.cls agent.name
        (w.describeTask a)) w.host
      simp only
      generalize sink (.state ctx.id ctx.clock.frames agent.place.id agent.cls agent.name
        (w.describeTask a)) w.host = r at hsent
      obtain ⟨result, g⟩ := r
      obtain rfl : result = .ok () := hsent
      exact ih _ _

theorem logState_accepted {sink : Sink α} (haccept : ∀ r h, (sink r h).1 = .ok ())
    (w : World τ α) (c : ContextRef) : ∃ n, (w.logState c sink).1 = .ok n := by
  unfold logState
  cases hc : w.context? c with
  | none => exact ⟨0, rfl⟩
  | some ctx =>
    obtain ⟨n, hn⟩ := logAgents_accepted haccept ctx (w.handles ctx.registry) 0 w
    simp only
    generalize logAgents ctx sink (w.handles ctx.registry) 0 w = r at hn
    obtain ⟨result, u⟩ := r
    obtain rfl : result = .ok n := hn
    obtain ⟨m, hm⟩ := logStatics_accepted haccept u c
    simp only
    generalize u.logStatics c none sink = r at hm
    obtain ⟨result, u'⟩ := r
    obtain rfl : result = .ok m := hm
    exact ⟨n + m, rfl⟩

end Workspace

/-! ## Logging, up to what tasks see -/

namespace Workspace.Logs

variable {id : ContextId} {c : ContextRef} {frame : UInt64} {w v : World τ α}
  {logged : Except ContextError Unit}

omit [Behavior τ α] in
theorem statics_alike (hs : ws.sink.Unseen see) (h : ws.StaticsLogged c w v) : Alike see w v := by
  unfold StaticsLogged at h
  split at h
  · obtain ⟨n, h⟩ := h
    have halike := logStatics_alike hs w c none
    rwa [h] at halike
  · subst h
    exact .refl v

/-- Whatever is refused, logging changes nothing that tasks see. -/
theorem alike (h : Logs ws id c frame w logged v) (hs : ws.sink.Unseen see) : Alike see w v := by
  cases h with
  | statics hstatics hdue => exact statics_alike hs hstatics
  | staticsRefused hcfg h =>
    have halike := logStatics_alike hs w c none
    rwa [h] at halike
  | @states n u v hstatics hdue h =>
    have halike := logState_alike hs u c
    rw [h] at halike
    exact ((statics_alike hs hstatics).trans halike).report_right _
  | @statesRefused e u v hstatics hdue h =>
    have halike := logState_alike hs u c
    rw [h] at halike
    exact (statics_alike hs hstatics).trans halike

theorem accepted (h : Logs ws id c frame w logged v) (haccept : ∀ r h, (ws.sink r h).1 = .ok ()) :
    logged = .ok () := by
  cases h with
  | statics | states => rfl
  | staticsRefused hcfg h =>
    obtain ⟨n, hn⟩ := logStatics_accepted haccept w c
    rw [h] at hn
    cases hn
  | @statesRefused e u v hstatics hdue h =>
    obtain ⟨n, hn⟩ := logState_accepted haccept u c
    rw [h] at hn
    cases hn

end Workspace.Logs

/-! ## Turns with another receiver -/

/-- The same turn up to what tasks cannot see, with nothing refused. -/
structure Turn.Same (see : α → σ) (t t' : Turn τ α ο) : Prop where
  id : t'.id = t.id
  context : t'.context = t.context
  report : t'.report = t.report
  accepted : t'.logged = .ok ()
  before : Alike see t.before.2 t'.before.2
  started : Alike see t.started.2 t'.started.2
  ticked : Alike see t.ticked t'.ticked
  written : Alike see t.written t'.written
  ended : Alike see t.ended.2 t'.ended.2
  left : Alike see t.left t'.left

omit [Behavior τ α] in
theorem accepted_of_same {ts ts' : List (Turn τ α ο)} (h : List.Forall₂ (Turn.Same see) ts ts') :
    ∀ t ∈ ts', t.logged = .ok () := by
  induction h with
  | nil => exact fun t ht => (by cases ht)
  | cons hsame _ ih => exact List.forall_mem_cons.2 ⟨hsame.accepted, ih⟩

omit [Behavior τ α] in
theorem reports_of_same {ts ts' : List (Turn τ α ο)} (h : List.Forall₂ (Turn.Same see) ts ts') :
    ts'.map Turn.report = ts.map Turn.report := by
  induction h with
  | nil => rfl
  | cons hsame _ ih => rw [List.map_cons, List.map_cons, hsame.report, ih]

section Lockstep

variable (tasks : ∀ (a : AgentRef) (t : τ), (Behavior.exec a t : Prog τ α _).Unaware see)
  (hobs : ∀ n o h, see (obs n o h).2.app = see h.app)

omit [Behavior τ α] in
include hobs in
/-- Whatever an observer is called with, tasks do not see it. -/
theorem Observer.Called.alike {n n' : Notice} {x x' y y' : ο × World τ α} (h : obs.Called n x y)
    (h' : obs.Called n' x' y') (hx : Alike see x.2 x'.2) : Alike see y.2 y'.2 := by
  have happ : see y.2.host.app = see x.2.host.app := by
    rw [← hobs n x.1 x.2.host, h.given]
  have happ' : see y'.2.host.app = see x'.2.host.app := by
    rw [← hobs n' x'.1 x'.2.host, h'.given]
  rw [h.rest, h'.rest]
  exact .symm (.host (.symm (.host hx happ')) happ)

omit [Behavior τ α] in
theorem handedOn_alike (id : ContextId) (logged : Except ContextError Unit) (w : World τ α) :
    Alike see w (handedOn id logged w) := by
  cases logged with
  | ok => exact .refl w
  | error e => exact (Alike.refl w).report_right _

include tasks hobs

theorem Turn.Taken.same {ws' : Workspace α} {t t' : Turn τ α ο} (ht : t.Taken ws obs)
    (ht' : t'.Taken ws' obs) (hdir : ws'.directory = ws.directory) (hs : ws.sink.Unseen see)
    (hs' : ws'.sink.Unseen see) (haccept : ∀ r h, (ws'.sink r h).1 = .ok ()) (hid : t'.id = t.id)
    (h : Alike see t.before.2 t'.before.2) : t.Same see t' := by
  have hc : t'.context = t.context := by
    have hc := ht'.listed
    rw [find?, hdir, hid] at hc
    exact Option.some.inj (hc.symm.trans ht.listed)
  have hstart : Alike see t.started.2 t'.started.2 := ht.start.alike hobs ht'.start h
  obtain ⟨hreport, htick⟩ := tick_alike tasks t.context hstart
  have ht'tick := ht'.tick
  rw [hc] at ht'tick
  rw [ht.tick, ht'tick] at hreport htick
  replace hreport : t'.report = t.report := hreport
  have hwritten : Alike see t.written t'.written :=
    ((ht.log.alike hs).symm.trans htick).trans (ht'.log.alike hs')
  have hend : Alike see t.ended.2 t'.ended.2 := ht.stop.alike hobs ht'.stop hwritten
  refine ⟨hid, hc, hreport, ht'.log.accepted haccept, h, hstart, htick, hwritten, hend, ?_⟩
  rw [ht.leave, ht'.leave]
  exact ((handedOn_alike _ _ _).symm.trans hend).trans (handedOn_alike _ _ _)

theorem Turns.same {ws' : Workspace α} (hdir : ws'.directory = ws.directory)
    (hs : ws.sink.Unseen see) (hs' : ws'.sink.Unseen see)
    (haccept : ∀ r h, (ws'.sink r h).1 = .ok ()) {o o' p p' : ο} {w w' v v' : World τ α}
    {ts ts' : List (Turn τ α ο)} (h : Turns ws obs o w ts o' w') (h' : Turns ws' obs p v ts' p' v')
    (hids : ts'.map Turn.id = ts.map Turn.id) (halike : Alike see w v) :
    List.Forall₂ (Turn.Same see) ts ts' ∧ Alike see w' v' := by
  induction h generalizing p v ts' with
  | nil =>
    obtain rfl := List.map_eq_nil_iff.1 hids
    cases h'
    exact ⟨.nil, halike⟩
  | @cons o w t ts o' w' ht hb rest ih =>
    cases h' with
    | nil => cases hids
    | @cons _ _ t' ts' _ _ ht' hb' rest' =>
      obtain ⟨hid, hids⟩ := List.cons.inj hids
      have hbefore : Alike see t.before.2 t'.before.2 := by rwa [hb, hb']
      have hsame := ht.same tasks hobs ht' hdir hs hs' haccept hid hbefore
      obtain ⟨hrest, hend⟩ := ih rest' hids hsame.left
      exact ⟨.cons hsame hrest, hend⟩

end Lockstep

namespace Workspace

/-- What a call does, whatever the receiver refuses, and what it would do if nothing were refused. -/
structure TicksInFull (see : α → σ) (ws : Workspace α) (obs : Observer ο α) (id : ContextId) (o : ο)
    (w : World τ α) : Prop where
  /-- An id that names no single context and is not that of all. -/
  refused : ¬(id = .all ∨ id.isConcrete = true) →
    ws.tick obs id o w = (.error (.invalidContextId id), ws, o, w)
  /-- The contexts have their turns in ascending order. Up to baselines and what the receiver keeps,
  these are the turns that they have with a receiver that accepts everything. -/
  served : id = .all ∨ id.isConcrete = true → ∃ ids ws₁ w₁ ts, ws.Opened id w ids ws₁ w₁ ∧
    (ids.Pairwise fun i j => i.number < j.number) ∧
    (id = .all → ∀ i, i ∈ ids ↔ ∃ c, ws.find? i = some c) ∧
    (ws.tick obs id o w).2.1 = ws₁ ∧
    TickCall ws₁ obs ids o w₁ ts (ws.tick obs id o w).1 (ws.tick obs id o w).2.2.1
      (ws.tick obs id o w).2.2.2 ∧
    ∀ sink : Sink α, sink.Unseen see → (∀ r h, (sink r h).1 = .ok ()) →
      let call := (ws.replaceSink sink).2.tick obs id o w
      ∃ ts', TickCall (ws₁.replaceSink sink).2 obs ids o w₁ ts' call.1 call.2.2.1 call.2.2.2 ∧
        List.Forall₂ (Turn.Same see) ts ts' ∧ Alike see (ws.tick obs id o w).2.2.2 call.2.2.2 ∧
        ∃ total, TickReport.Sums (ts.map Turn.report) total ∧ call.1 = .ok total

/-- Refusals of the receiver keep no context from its turn, and change no turn. -/
theorem ticks_survive_refusals (see : α → σ)
    (tasks : ∀ (a : AgentRef) (t : τ), (Behavior.exec a t : Prog τ α _).Unaware see)
    (ws : Workspace α) (obs : Observer ο α) (hs : ws.sink.Unseen see)
    (hobs : ∀ n o h, see (obs n o h).2.app = see h.app) (id : ContextId) (o : ο) (w : World τ α) :
    ws.TicksInFull see obs id o w := by
  refine ⟨fun hid => ?_, fun hid => ?_⟩
  · simp only [tick, ws.targets_refused hid]
  · obtain ⟨ids, ws₁, w₁, hopened⟩ := exists_opened ws hid w
    obtain ⟨hws₁, ts, hcall⟩ := hopened.call obs o
    refine ⟨ids, ws₁, w₁, ts, hopened, hopened.ascend, fun hall i => ?_, hws₁, hcall,
      fun sink hsink haccept => ?_⟩
    · cases hopened with
      | all => exact mem_contextIds
      | present h | absent h =>
        subst hall
        exact absurd h (by decide)
    · obtain ⟨-, ts', hcall'⟩ := (hopened.replaceSink sink).call obs o
      have hs₁ : ws₁.sink.Unseen see := by cases hopened <;> exact hs
      have hdir : (ws₁.replaceSink sink).2.directory = ws₁.directory := rfl
      obtain ⟨hsame, hend⟩ := hcall.turns.same tasks hobs hdir hs₁ hsink haccept hcall'.turns
        (hcall'.ids.trans hcall.ids.symm) (.refl w₁)
      obtain ⟨total, hsums, hresult⟩ := hcall'.total (accepted_of_same hsame)
      exact ⟨ts', hcall', hsame, hend, total, reports_of_same hsame ▸ hsums, hresult⟩

end Workspace

section Sample

namespace Chore

theorem unaware {β : Type} (b : β) (ops : List TaskOp) :
    (program b ops).Unaware fun _ : List Record => () := by
  induction ops with
  | nil => trivial
  | cons op ops ih => exact ⟨trivial, fun _ _ _ => rfl, fun _ => ih⟩

end Chore

/-- Keeps every record, but refuses the first one and the third one. -/
def pickySink : Sink (List Record) := fun r h =>
  (match h.app.length with
    | 0 => .error (.sink "first")
    | 2 => .error (.sink "third")
    | _ => .ok (), { h with app := h.app ++ [r] })

/-- Three contexts; an agent of each sets a static variable. -/
def choreActs : List (Act Chore (List Record) (List Notice)) :=
  [.context ⟨1⟩, .context ⟨2⟩, .context ⟨3⟩] ++ (List.range 3).flatMap fun i =>
    [.deed (.create ⟨"agent", "Agent", 0, ⟨[.setStatic "Agent" "tally" (.int i.toInt64)]⟩⟩),
      .deed (.on ⟨i⟩ (.task (.add ⟨i⟩)))]

/-- The workspace in which they begin: it logs everything after every tick. -/
def choreStart : Application Chore (List Record) (List Notice) :=
  ⟨{ config := { stateLogInterval := 1, logStaticsOnTick := true }, types := sampleTypes,
      sink := pickySink }, [], { host := { app := [] } }⟩

/-- Keeps all notices. -/
def attentive : Observer (List Notice) (List Record) := fun n o h => (o ++ [n], h)

theorem Workspace.ticks_survive_refusals_sample :
    let s := Application.play choreActs choreStart
    s.workspace.contextIds = [⟨1⟩, ⟨2⟩, ⟨3⟩] ∧
      (s.workspace.tick attentive .all [] s.world).1 = .error (.context (.log (.sink "first"))) ∧
      s.workspace.TicksInFull (fun _ => ()) attentive .all [] s.world := by
  refine ⟨by decide +kernel, by decide +kernel, ?_⟩
  exact Workspace.ticks_survive_refusals (fun _ => ()) (fun _ t => Chore.unaware _ t.ops) _ _
    (fun _ _ => rfl) (fun _ _ _ => rfl) .all [] _

/-- Each context was ticked once between its two notices. The first one's static variables were
refused, the second one's state too; the third one's were both accepted. -/
example :
    let s := Application.play choreActs choreStart
    let (_, _, notices, v) := s.workspace.tick attentive .all [] s.world
    (notices.map fun | .started id _ => (id, true) | .ended id _ | .cleaned id => (id, false)) =
      [(⟨1⟩, true), (⟨1⟩, false), (⟨2⟩, true), (⟨2⟩, false), (⟨3⟩, true), (⟨3⟩, false)] ∧
      (v.host.app.map fun | .statics id _ _ _ => (id, true) | .state id _ _ _ _ _ => (id, false)) =
        [(⟨1⟩, true), (⟨2⟩, true), (⟨2⟩, false), (⟨3⟩, true), (⟨3⟩, false)] := by
  decide +kernel

end Sample

end AgentScheduler
