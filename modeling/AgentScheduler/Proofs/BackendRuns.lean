/-
A workspace that writes to files, and the same workspace over a database. As long
as no clock gets to 2 to the power of 63 both writers accept every record, so the
contexts of a run are the same, baselines included (`backends_agree`). The
application may keep data of its own next to its writer.
-/
import AgentScheduler.Proofs.Backends
import AgentScheduler.Proofs.MirrorRuns
import AgentScheduler.Proofs.Routine
import AgentScheduler.Session.Writer

namespace AgentScheduler

open World Session

namespace Output

variable {σ : Type}

/-- The writer that an application has next to its own data. -/
def Channel.own : Channel (σ × Writer) := fun call a =>
  ((a.2.serve call).1, (a.1, (a.2.serve call).2))

/-- The same data, next to files and next to a database. -/
structure EitherBackend (a b : σ × Writer) : Prop where
  data : b.1 = a.1
  files : ∃ w, a.2 = .csv w
  database : ∃ d, b.2 = .database d

/-! ## Calls to either -/

theorem serve_csv (c : Call) (w : CsvWriter) :
    ∃ w', Writer.serve c (.csv w) = (.ok (), .csv w') := by
  cases c with
  | tick | statics | state => exact ⟨_, rfl⟩
  | finish =>
    simp only [Writer.serve, CsvWriter.serve, Call.table?, CsvWriter.finish]
    split <;> exact ⟨_, rfl⟩

theorem serve_database (c : Call) (d : Database) :
    ∃ d', Writer.serve c (.database d) = (Database.answer c, .database d') := by
  by_cases hc : c = .finish
  · subst hc
    have hsmall : Call.finish.Small := by simp [Call.Small, Call.rows]
    rw [Database.answer, if_pos hsmall]
    exact ⟨_, rfl⟩
  · obtain ⟨t, -, hserve⟩ := Database.serve_eq c d hc
    rw [Writer.serve, hserve, Database.answer]
    split <;> exact ⟨_, rfl⟩

/-- Both answer the same, unless a number is too large. -/
theorem own_either (c : Call) {a b : σ × Writer} (h : EitherBackend a b) :
    (c.Small → (Channel.own c b).1 = (Channel.own c a).1) ∧
      EitherBackend (Channel.own c a).2 (Channel.own c b).2 := by
  obtain ⟨a, files⟩ := a
  obtain ⟨b, database⟩ := b
  obtain ⟨rfl, ⟨w, rfl⟩, d, rfl⟩ := h
  obtain ⟨w', hw⟩ := serve_csv c w
  obtain ⟨d', hd⟩ := serve_database c d
  simp only [Channel.own, hw, hd]
  exact ⟨fun hc => if_pos hc, rfl, ⟨w', rfl⟩, d', rfl⟩

/-- The other numbers of a record are small anyway. -/
theorem ofRecord_small {r : Record} (h : r.frame.toNat < 0x8000000000000000) :
    (Call.ofRecord r).Small := by
  have hid (id : ContextId) : id.number.toInt < 0x8000000000000000 := id.number.toInt_lt
  intro row hrow i hi
  cases r with
  | statics context frame cls changes =>
    simp only [Call.ofRecord, Call.rows, List.map_map, List.mem_map] at hrow
    obtain ⟨change, -, rfl⟩ := hrow
    simp only [Function.comp, StaticRow.ofChange, StaticRow.cells, List.mem_cons, Cell.int.injEq,
      reduceCtorEq, List.not_mem_nil, or_false] at hi
    rcases hi with rfl | rfl
    · exact hid context
    · exact Int.ofNat_lt.2 h
  | state context frame agent cls name text =>
    obtain rfl := List.mem_singleton.1 hrow
    simp only [StateRow.cells, List.mem_cons, Cell.int.injEq, reduceCtorEq, List.not_mem_nil,
      or_false] at hi
    rcases hi with rfl | rfl | rfl
    · exact hid context
    · exact Int.ofNat_lt.2 h
    · have := agent.number.toNat_lt
      omega

theorem call_mirrors (c : Call) {h g : Host (σ × Writer)} (hhost : h.Mirrors EitherBackend g) :
    (c.Small → (Channel.own.call c g).1 = (Channel.own.call c h).1) ∧
      (Channel.own.call c h).2.Mirrors EitherBackend (Channel.own.call c g).2 := by
  obtain ⟨hanswer, hafter⟩ := own_either c hhost.app
  exact ⟨hanswer, hhost.events, hafter⟩

theorem sink_mirrors : (sink Channel.own : Sink (σ × Writer)).Mirrors EitherBackend := by
  intro r h g hframe hhost
  obtain ⟨hanswer, hafter⟩ := call_mirrors (.ofRecord r) hhost
  exact ⟨congrArg (Except.mapError _) (hanswer (ofRecord_small hframe)), hafter⟩

/-- The report of a tick may be refused by the database, but that concerns the observer only. -/
theorem observer_mirrors :
    (observer Channel.own : Observer FirstError (σ × Writer)).Mirrors EitherBackend := by
  have hended (context : ContextId) (report : TickReport) (o : FirstError) (h : Host (σ × Writer)) :
      (observer Channel.own (.ended context report) o h).2 =
        (Channel.own.call (.tick (.ofReport context report)) h).2 := by
    simp only [observer]
    generalize Channel.own.call (.tick (.ofReport context report)) h = x
    obtain ⟨answer, g⟩ := x
    cases answer <;> rfl
  intro n o p h g hhost
  cases n with
  | started | cleaned => exact hhost
  | ended context report =>
    rw [hended, hended]
    exact (call_mirrors _ hhost).2

end Output

open Output

/-! ## Runs over either -/

section Runs

variable {τ σ ο : Type}

/-- An application with its own data and a new writer. -/
def Workspace.over (ws : Workspace (σ × Writer)) (o : ο) (w : World τ (σ × Writer)) (x : σ)
    (writer : Writer) : Application τ (σ × Writer) ο :=
  ⟨ws, o, w.withApp (x, writer)⟩

/-- New files and a new database agree on all calls without numbers from 2 to the power of 63 on;
and if no clock gets that far, an application has the same contexts after the same run, with the
same baselines, whichever of the two its workspace writes to. -/
theorem backends_agree [Behavior τ (σ × Writer)] {calls : List Call}
    (hcalls : ∀ c ∈ calls, c ≠ .finish)
    (tasks : ∀ (a : AgentRef) (t : τ), (Behavior.exec a t : Prog τ _ _).Mirrors EitherBackend)
    (ws : Workspace (σ × Writer)) (hsink : ws.sink = sink Channel.own) (o : ο)
    (w : World τ (σ × Writer)) (x : σ) {acts : List (Act τ (σ × Writer) ο)}
    (hacts : ∀ a ∈ acts, a.Mirrors EitherBackend)
    (htimely : ∀ u ∈ points (Application.deeds acts (ws.over o w x (.csv {})))
      (w.withApp (x, .csv {})), u.Timely) :
    Agreed calls ∧ (Application.play acts (ws.over o w x (.csv {}))).Mirrors EitherBackend
      (Application.play acts (ws.over o w x (.database {}))) := by
  refine ⟨agreed hcalls, Application.play_mirrors tasks acts hacts htimely ⟨rfl, ?_, ?_⟩⟩
  · exact hsink ▸ sink_mirrors
  · exact ⟨rfl, rfl, rfl, rfl, ⟨_, rfl⟩, _, rfl⟩

end Runs

section Sample

/-- A duty may look at nothing but its context. -/
theorem Duty.mirrors {α β : Type} (R : α → α → Prop) (b : β) (ops : List TaskOp) :
    (Duty.program b ops : Prog (Duty α) α β).Mirrors R := by
  induction ops with
  | nil => trivial
  | cons op ops ih => exact ⟨trivial, fun _ _ _ => rfl, fun _ => ih⟩

/-- Two summaries, of which the second one is too late for a database, and a change. -/
def lateCalls : List Call :=
  [.tick ⟨-1, 1, 2, 1, 1, 0, 3, 0, 0⟩, .tick ⟨1, 0x8000000000000000, 0, 0, 0, 0, 0, 0, 0⟩,
    .statics [⟨1, 7, "Agent", "tally", "0", "1,5"⟩]]

/-- A context whose agent sets a static variable; two ticks, a log, and the end. -/
def eitherActs : List (Act (Duty (Unit × Writer)) (Unit × Writer) FirstError) :=
  [.context ⟨1⟩,
    .deed (.create ⟨"agent", "Agent", 0, ⟨[.setStatic "Agent" "tally" (.int 5)]⟩⟩),
    .deed (.on ⟨0⟩ (.task (.add ⟨0⟩))), .tick (observer Channel.own) .all,
    .tick (observer Channel.own) ⟨1⟩, .logStates .all,
    .deed (.host fun h => (Channel.own.call .finish h).2)]

/-- The workspace in which they happen: it logs the changes of every tick. -/
def eitherWorkspace : Workspace (Unit × Writer) :=
  { config := { logStaticsOnTick := true }, types := sampleTypes, sink := sink Channel.own }

/-- The world in which they begin. -/
def eitherWorld : World (Duty (Unit × Writer)) (Unit × Writer) :=
  { host := { app := ((), .csv {}) } }

theorem backends_agree_sample :
    (∀ c ∈ lateCalls, c ≠ .finish) ∧
    (∀ (a : AgentRef) (t : Duty (Unit × Writer)),
      (Behavior.exec a t : Prog (Duty (Unit × Writer)) _ _).Mirrors EitherBackend) ∧
    eitherWorkspace.sink = sink Channel.own ∧ (∀ a ∈ eitherActs, a.Mirrors EitherBackend) ∧
    (∀ u ∈ points (Application.deeds eitherActs
      (eitherWorkspace.over none eitherWorld () (.csv {})))
      (eitherWorld.withApp ((), .csv {})), u.Timely) ∧
    Agreed lateCalls ∧
    (Application.play eitherActs (eitherWorkspace.over none eitherWorld () (.csv {}))).Mirrors
      EitherBackend
      (Application.play eitherActs (eitherWorkspace.over none eitherWorld () (.database {}))) := by
  have hcalls : ∀ c ∈ lateCalls, c ≠ .finish := by decide
  have htasks : ∀ (a : AgentRef) (t : Duty (Unit × Writer)),
      (Behavior.exec a t : Prog (Duty (Unit × Writer)) _ _).Mirrors EitherBackend :=
    fun _ t => Duty.mirrors _ _ t.ops
  have hacts : ∀ a ∈ eitherActs, a.Mirrors EitherBackend := by
    simp only [eitherActs, List.forall_mem_cons]
    exact ⟨trivial, trivial, trivial, observer_mirrors, observer_mirrors, trivial,
      fun h g hhost => (call_mirrors .finish hhost).2, fun _ h => nomatch h⟩
  have htimely : ∀ u ∈ points (Application.deeds eitherActs
      (eitherWorkspace.over none eitherWorld () (.csv {})))
      (eitherWorld.withApp ((), .csv {})), u.Timely := by
    decide +kernel
  exact ⟨hcalls, htasks, rfl, hacts, htimely,
    backends_agree hcalls htasks eitherWorkspace rfl none eitherWorld () hacts htimely⟩

/-- The change is stored after the first tick and not sent again. -/
example : (match (Application.play eitherActs
      (eitherWorkspace.over none eitherWorld () (.database {}))).world.host.app.2 with
    | .database d => some (d.ticks.length, d.statics.length, d.finished)
    | _ => none) = some (2, 1, true) := by
  decide +kernel

end Sample

end AgentScheduler
