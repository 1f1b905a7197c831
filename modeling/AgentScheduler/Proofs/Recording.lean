/-
A workspace that writes its records and the reports of its ticks to one writer,
which may refuse any call, or be in use (`records_kept`).

Each turn of a tick makes its logs and then exactly one call with its report,
whatever was refused before (`Turn.Recorded`). A refused log is the failure of
the tick call; a refused report is kept by the observer, which holds the
earliest one that nobody was told of (`Follows.first`).
-/
import AgentScheduler.Proofs.Attempts

namespace AgentScheduler

open World Output

variable {τ α : Type}

/-! ## A shared writer -/

/-- A writer that cannot be called while it is in use. -/
def Output.Channel.shared (inUse : α → Bool) (writer : Channel α) : Channel α := fun call a =>
  if inUse a then (.error .busy, a) else writer call a

/-! ## Turns -/

namespace Turn

/-- The call with the report of a turn, which comes after its logs. -/
def summary (channel : Channel α) (t : Turn τ α FirstError) : Except OutputError Unit × α :=
  channel (.tick (.ofReport t.id t.report)) t.written.host.app

/-- Why the report of a turn was refused. -/
def failure? (channel : Channel α) (t : Turn τ α FirstError) : Option OutputError :=
  match (t.summary channel).1 with
  | .ok () => none
  | .error e => some e

/-- What a turn asks of the writer: the calls of its logs, of which the last one may be refused,
and then the one with its report. -/
structure Recorded (ws : Workspace α) (channel : Channel α) (t : Turn τ α FirstError)
    (attempts : List Attempt) (refusal : Option OutputError) : Prop where
  started : t.started = t.before
  logs : Written channel t.context t.ticked attempts refusal t.written
  answers : refusal = none ↔ ∀ x ∈ attempts, x.2 = .ok ()
  /-- The failure of the turn is that of its logs. -/
  logged : FailsWith (refusal.map (.log ∘ refusalError)) t.logged
  caughtUp : refusal = none →
    (ws.config.logStaticsOnTick = true ∨ ws.StatesDue t.report.frame) → t.written.CaughtUp t.context
  summary : t.ended.2 =
    { t.written with host := { t.written.host with app := (t.summary channel).2 } }
  /-- A refused report is kept if there is none. -/
  first : t.ended.1 = t.before.1.or (t.failure? channel)

end Turn

section Turns

variable {ws : Workspace α} {channel : Channel α} {t : Turn τ α FirstError}

theorem tell_ended (channel : Channel α) (id : ContextId) (report : TickReport)
    (first : FirstError) (w : World τ α) :
    Workspace.tell (observer channel) (.ended id report) first w =
      let (answer, app) := channel (.tick (.ofReport id report)) w.host.app
      (match answer with | .ok () => first | .error e => some (first.getD e),
        { w with host := { w.host with app } }) := by
  simp only [Workspace.tell, observer, Channel.call]
  cases channel (.tick (.ofReport id report)) w.host.app with
  | mk answer app => cases answer <;> rfl

variable [Behavior τ α]

theorem Turn.Taken.recorded (hsink : ws.sink = sink channel) (ht : t.Taken ws (observer channel)) :
    ∃ attempts refusal, t.Recorded ws channel attempts refusal := by
  obtain ⟨attempts, refusal, hwritten, hfails⟩ := ht.log.written hsink
  have hstart : t.started = t.before := Observer.called_iff.1 ht.start
  have hstop := Observer.called_iff.1 ht.stop
  rw [tell_ended] at hstop
  refine ⟨attempts, refusal, hstart, hwritten, hwritten.accepted_iff, hfails, ?_, ?_, ?_⟩
  · rintro rfl hdue
    have hlog := ht.log
    rw [hfails.ok_iff.2 rfl] at hlog
    exact hlog.caughtUp hdue
  · rw [hstop]
    rfl
  · rw [hstop, hstart, failure?, summary]
    generalize channel (.tick (.ofReport t.id t.report)) t.written.host.app = r
    obtain ⟨answer, app⟩ := r
    cases answer <;> cases t.before.1 <;> rfl

/-- The observer keeps the earliest failure. -/
theorem Turns.first (hsink : ws.sink = sink channel) {o o' : FirstError} {w w' : World τ α}
    {ts : List (Turn τ α FirstError)} (h : Turns ws (observer channel) o w ts o' w') :
    o' = o.or (ts.filterMap (·.failure? channel)).head? := by
  induction h with
  | nil => simp
  | @cons o w t ts o' w' ht hb _ ih =>
    obtain ⟨attempts, refusal, hrec⟩ := ht.recorded hsink
    rw [ih, hrec.first, hb, List.filterMap_cons, Option.or_assoc]
    cases t.failure? channel <;> rfl

end Turns

/-! ## Runs -/

/-- What an application does with its workspace and the observer of its ticks. -/
inductive Doing (τ α : Type)
  /-- Ticks one context, or all. -/
  | tick (id : ContextId)
  /-- Takes the stored failure out. -/
  | ask
  /-- Finishes. -/
  | finish
  /-- Anything that leaves the observer alone; records still go to the writer afterwards. -/
  | other (change : Workspace α → World τ α → Workspace α × World τ α)

namespace Doing

variable [Behavior τ α] (channel : Channel α)

/-- What it leaves. -/
def perform (s : Application τ α FirstError) : Doing τ α → Application τ α FirstError
  | tick id =>
    let (_, workspace, observed, world) :=
      s.workspace.tick (observer channel) id s.observed s.world
    { workspace, observed, world }
  | ask => { s with observed := (takeError s.observed).2 }
  | finish =>
    let (_, observed, host) := Output.finish channel s.observed s.world.host
    { s with observed, world := { s.world with host } }
  | other change =>
    let (workspace, world) := change s.workspace s.world
    { s with workspace := (workspace.replaceSink (sink channel)).2, world }

/-- One thing after the other. -/
def run (doings : List (Doing τ α)) (s : Application τ α FirstError) : Application τ α FirstError :=
  doings.foldl (perform channel) s

/-- The reports that were refused in a run and that nobody was told of since one was last told:
`old` are those from before the run. -/
inductive Untold : Application τ α FirstError → List OutputError → List (Doing τ α) →
    List OutputError → Prop
  | nil {s old} : Untold s old [] old
  | tick {s old id ids ws w ts doings fs} (hopened : s.workspace.Opened id s.world ids ws w)
      (hcall : let call := s.workspace.tick (observer channel) id s.observed s.world
        Workspace.TickCall ws (observer channel) ids s.observed w ts call.1 call.2.2.1 call.2.2.2)
      (rest : Untold (perform channel s (.tick id)) (old ++ ts.filterMap (·.failure? channel))
        doings fs) : Untold s old (.tick id :: doings) fs
  | tickRefused {s old id doings fs} (hid : ¬(id = .all ∨ id.isConcrete = true))
      (rest : Untold (perform channel s (.tick id)) old doings fs) :
      Untold s old (.tick id :: doings) fs
  | ask {s old doings fs} (rest : Untold (perform channel s .ask) [] doings fs) :
      Untold s old (.ask :: doings) fs
  | finish {s old doings fs} (rest : Untold (perform channel s .finish) [] doings fs) :
      Untold s old (.finish :: doings) fs
  | other {s old change doings fs}
      (rest : Untold (perform channel s (.other change)) old doings fs) :
      Untold s old (.other change :: doings) fs

variable {channel} {s : Application τ α FirstError} {old fs : List OutputError}
  {doings : List (Doing τ α)}

/-- Records go to the writer all along. -/
theorem sink_perform (hsink : s.workspace.sink = sink channel) (u : Doing τ α) :
    (perform channel s u).workspace.sink = sink channel := by
  cases u with
  | tick id =>
    show (s.workspace.tick (observer channel) id s.observed s.world).2.1.sink = sink channel
    rw [Workspace.tick_sink, hsink]
  | ask | finish => exact hsink
  | other change => rfl

theorem sink_run (hsink : s.workspace.sink = sink channel) (doings : List (Doing τ α)) :
    (run channel doings s).workspace.sink = sink channel := by
  induction doings generalizing s with
  | nil => exact hsink
  | cons u doings ih => exact ih (sink_perform hsink u)

/-- Every run has its failures. -/
theorem exists_untold (channel : Channel α) (s : Application τ α FirstError)
    (old : List OutputError) (doings : List (Doing τ α)) :
    ∃ fs, Untold channel s old doings fs := by
  induction doings generalizing s old with
  | nil => exact ⟨old, .nil⟩
  | cons u doings ih =>
    cases u with
    | tick id =>
      by_cases hid : id = .all ∨ id.isConcrete = true
      · obtain ⟨ids, ws, w, hopened⟩ := s.workspace.exists_opened hid s.world
        obtain ⟨-, ts, hcall⟩ := hopened.call (observer channel) s.observed
        exact (ih _ _).imp fun _ => .tick hopened hcall
      · exact (ih _ _).imp fun _ => .tickRefused hid
    | ask => exact (ih _ _).imp fun _ => .ask
    | finish => exact (ih _ _).imp fun _ => .finish
    | other change => exact (ih _ _).imp fun _ => .other

/-- The observer holds the earliest refusal that nobody was told of. -/
theorem Untold.first (h : Untold channel s old doings fs) (hsink : s.workspace.sink = sink channel)
    (hold : s.observed = old.head?) : (run channel doings s).observed = fs.head? := by
  induction h with
  | nil => exact hold
  | @tick s old id ids ws w ts doings fs hopened hcall _ ih =>
    refine ih (sink_perform hsink _) ?_
    have hws : ws.sink = sink channel := hopened.sink_eq.trans hsink
    show (s.workspace.tick (observer channel) id s.observed s.world).2.2.1 = _
    rw [hcall.turns.first hws, hold, List.head?_append]
  | @tickRefused s old id doings fs hid _ ih =>
    refine ih (sink_perform hsink _) ?_
    show (s.workspace.tick (observer channel) id s.observed s.world).2.2.1 = _
    rw [Workspace.tick_invalid _ _ hid]
    exact hold
  | ask _ ih => exact ih (sink_perform hsink _) rfl
  | @finish s old doings fs _ ih =>
    refine ih (sink_perform hsink _) ?_
    show (Output.finish channel s.observed s.world.host).2.1 = none
    cases hfirst : s.observed with
    | none => rfl
    | some e => rfl
  | other _ ih => exact ih (sink_perform hsink _) hold

end Doing

/-! ## What everybody is told -/

/-- What a tick call asks of the writer, turn by turn, and how it ends. -/
structure TickRecorded [Behavior τ α] (channel : Channel α) (s : Application τ α FirstError)
    (id : ContextId) (ids : List ContextId) (ws : Workspace α) (w : World τ α)
    (ts : List (Turn τ α FirstError)) : Prop where
  opened : s.workspace.Opened id s.world ids ws w
  ascend : ids.Pairwise fun i j => i.number < j.number
  call : let call := s.workspace.tick (observer channel) id s.observed s.world
    Workspace.TickCall ws (observer channel) ids s.observed w ts call.1 call.2.2.1 call.2.2.2
  recorded : ∀ t ∈ ts, ∃ attempts refusal, t.Recorded ws channel attempts refusal
  /-- Refused reports are no failures of the call. -/
  ok_iff : (∃ total, (s.workspace.tick (observer channel) id s.observed s.world).1 = .ok total) ↔
    ∀ t ∈ ts, t.logged = .ok ()

/-- Where the refused reports `fs` are untold: what the next tick call does, and what the observer
answers. -/
structure RecordsKept [Behavior τ α] (inUse : α → Bool) (writer : Channel α)
    (s : Application τ α FirstError) (fs : List OutputError) : Prop where
  tick : ∀ id : ContextId, id = .all ∨ id.isConcrete = true → ∃ ids ws w ts,
    TickRecorded (writer.shared inUse) s id ids ws w ts
  ask : takeError s.observed = (fs.head?, none)
  /-- The writer is not called while there is something to tell. -/
  finishTold : ∀ e, fs.head? = some e →
    Output.finish (writer.shared inUse) s.observed s.world.host = (.error e, none, s.world.host)
  finishBusy : fs = [] → inUse s.world.host.app = true →
    Output.finish (writer.shared inUse) s.observed s.world.host = (.error .busy, none, s.world.host)
  finishWriter : fs = [] → inUse s.world.host.app = false →
    Output.finish (writer.shared inUse) s.observed s.world.host =
      ((writer .finish s.world.host.app).1, none,
        { s.world.host with app := (writer .finish s.world.host.app).2 })

theorem firstFailure_cases {ο : Type} (ts : List (Turn τ α ο)) :
    (∀ t ∈ ts, t.logged = .ok ()) ∨
      ∃ l t r e, ts = l ++ t :: r ∧ (∀ t ∈ l, t.logged = .ok ()) ∧ t.logged = .error e := by
  induction ts with
  | nil => exact .inl (by simp)
  | cons t ts ih =>
    cases hlog : t.logged with
    | error e => exact .inr ⟨[], t, ts, e, rfl, by simp, hlog⟩
    | ok =>
      rcases ih with hall | ⟨l, u, r, e, rfl, hall, hu⟩
      · exact .inl (List.forall_mem_cons.2 ⟨hlog, hall⟩)
      · exact .inr ⟨t :: l, u, r, e, rfl, List.forall_mem_cons.2 ⟨hlog, hall⟩, hu⟩

section Kept

variable [Behavior τ α] {ο : Type} {ws : Workspace α} {obs : Observer ο α} {o o' : ο}
  {w w' : World τ α} {ts : List (Turn τ α ο)} {channel : Channel α}
  {s : Application τ α FirstError}

theorem Turns.taken (h : Turns ws obs o w ts o' w') : ∀ t ∈ ts, t.Taken ws obs := by
  induction h with
  | nil => simp
  | cons ht _ _ ih => exact List.forall_mem_cons.2 ⟨ht, ih⟩

theorem Workspace.TickCall.ok_iff {ids : List ContextId} {result : Except WorkspaceError TickReport}
    (h : TickCall ws obs ids o w ts result o' w') :
    (∃ total, result = .ok total) ↔ ∀ t ∈ ts, t.logged = .ok () := by
  rcases firstFailure_cases ts with hall | ⟨l, t, r, e, hts, hall, ht⟩
  · obtain ⟨total, -, hresult⟩ := h.total hall
    exact iff_of_true ⟨total, hresult⟩ hall
  · have hresult := h.failure l t r e hts hall ht
    refine iff_of_false (by simp [hresult]) fun hok => ?_
    rw [hok t (by simp [hts])] at ht
    cases ht

theorem exists_tickRecorded (hsink : s.workspace.sink = sink channel) {id : ContextId}
    (hid : id = .all ∨ id.isConcrete = true) :
    ∃ ids ws w ts, TickRecorded channel s id ids ws w ts := by
  obtain ⟨ids, ws, w, hopened⟩ := s.workspace.exists_opened hid s.world
  obtain ⟨-, ts, hcall⟩ := hopened.call (observer channel) s.observed
  exact ⟨ids, ws, w, ts, hopened, hopened.ascend, hcall,
    fun t ht => (hcall.turns.taken t ht).recorded (hopened.sink_eq.trans hsink), hcall.ok_iff⟩

end Kept

section Sample

/-- Whether it is in use, and the calls so far. -/
abbrev Desk := Bool × List Call

/-- Refuses the calls of some numbers, and notes all of them. -/
def Output.Channel.refusing (numbers : List Nat) : Channel Desk := fun call desk =>
  (if desk.2.length ∈ numbers then .error (.io ("call " ++ toString desk.2.length)) else .ok (),
    (desk.1, desk.2 ++ [call]))

/-- Two contexts; an agent of each sets a static variable. -/
def deskActs : List (Act (Duty Desk) Desk FirstError) :=
  [.context ⟨1⟩, .context ⟨2⟩] ++ (List.range 2).flatMap fun i =>
    [.deed (.create ⟨"agent", "Agent", 0, ⟨[.setStatic "Agent" "tally" (.int i.toInt64)]⟩⟩),
      .deed (.on ⟨i⟩ (.task (.add ⟨i⟩)))]

/-- The workspace in which they begin: it logs the changes of every tick. -/
def deskStart (numbers : List Nat) : Application (Duty Desk) Desk FirstError :=
  ⟨{ config := { logStaticsOnTick := true }, types := sampleTypes,
      sink := sink ((Channel.refusing numbers).shared Prod.fst) }, none,
    { host := { app := (false, []) } }⟩

/-- Two ticks, of which the second one finds the writer in use. -/
def deskDoings : List (Doing (Duty Desk) Desk) :=
  [.tick .all,
    .other fun ws w => (ws, { w with host := { w.host with app := (true, w.host.app.2) } }),
    .tick .all]

/-- In the first tick the changes of the first context and both reports were refused, in the second
one everything was. -/
example :
    let s := Application.play deskActs (deskStart [0, 1, 3])
    (Doing.run ((Channel.refusing [0, 1, 3]).shared Prod.fst) deskDoings s).world.host.app.2.map
        (·.table?) = [some .statics, some .ticks, some .statics, some .ticks] := by
  decide +kernel

end Sample

end AgentScheduler
