/-
What a `finish` of files says, for any row of calls of which each flush may fail
(`CsvWriter.flushes_once`).

The first `finish` answers that all went well exactly if nothing is left in a
buffer. Every later one answers the same without flushing anything: it is only
right if the first one did not fail and no row has been written since. Rows that
it leaves behind are kept in the buffer of their file.
-/
import AgentScheduler.Proofs.CsvFiles

namespace AgentScheduler.Output

namespace CsvWriter

/-- Everything that was written is on the disk. -/
def Clean (w : CsvWriter) : Prop := ∀ t, (w.file t).buffered = []

/-- No step is a `finish`. -/
def NoFinish (steps : List Step) : Prop := ∀ s ∈ steps, s.2 ≠ .finish

/-- The text of a table with the rows that steps write. -/
def tableText (t : Table) (steps : List Step) : List Char :=
  (t.lines (written t (steps.map (·.2)))).flatMap Csv.record

/-- How a writer stands after steps, and what a `finish` says then. -/
structure FlushesOnce (steps : List Step) (w : CsvWriter) : Prop where
  /-- Rows are always accepted. -/
  accepts : ∀ fails c, c ≠ .finish → (w.serve fails c).1 = .ok ()
  /-- Accepted rows are on the disk or in the buffer. -/
  kept : ∀ t, (w.file t).flushed ++ (w.file t).buffered = tableText t steps
  /-- The first `finish` says exactly whether all is on the disk, which is so if no flush fails.
  It gets as far as the first failure. -/
  first : NoFinish steps → ∀ fails,
    ((w.finish fails).1 = .ok () ↔ (w.finish fails).2.Clean) ∧
      ((w.finish fails).1 = .ok () ↔ ∀ t, fails t = none) ∧
      ∀ t, (w.finish fails).2.file t =
        if t ∈ reached fails tables then ⟨tableText t steps, []⟩ else ⟨[], tableText t steps⟩
  /-- A later `finish` changes nothing and says that all went well. The disk is as the first one
  left it, and that is all only if the first one went well and nothing was written since. -/
  later : ∀ before fails after, steps = before ++ (fails, .finish) :: after → NoFinish before →
    (∀ fails', w.finish fails' = (.ok (), w)) ∧
      (∀ t, (w.file t).flushed =
        if t ∈ reached fails tables then tableText t before else []) ∧
      (w.Clean ↔ (∀ t, fails t = none) ∧ ∀ t, written t (after.map (·.2)) = [])

/-! ## Before the first finish -/

theorem tableText_append (t : Table) (before after : List Step) :
    tableText t (before ++ after) = tableText t before ++
      ((written t (after.map (·.2))).map csvLine).flatMap Csv.record := by
  simp [tableText, Table.lines, written]

theorem record_ne_nil (fs : List (List Char)) : Csv.record fs ≠ [] := by simp [Csv.record]

theorem tableText_ne_nil (t : Table) (steps : List Step) : tableText t steps ≠ [] := by
  simp [tableText, Table.lines, record_ne_nil]

theorem flatMap_record_eq_nil {rows : List (List Cell)} :
    (rows.map csvLine).flatMap Csv.record = [] ↔ rows = [] := by
  cases rows <;> simp [record_ne_nil]

/-- Without a `finish` the writer is open and all of its text is in the buffers. -/
theorem file_of_noFinish {steps : List Step} (h : NoFinish steps) :
    (serveAll step steps {}).2.finished = false ∧
      ∀ t, (serveAll step steps {}).2.file t = ⟨[], tableText t steps⟩ := by
  obtain ⟨-, hfinished, hflushed⟩ := serveAll_of_ne_finish h {}
  refine ⟨hfinished, fun t => ?_⟩
  have htext := text_lines steps t
  have hnone : (((serveAll step steps {}).2.file t).flushed) = [] :=
    (hflushed t).trans (by cases t <;> rfl)
  generalize (serveAll step steps {}).2.file t = f at htext hnone
  obtain ⟨flushed, buffered⟩ := f
  obtain rfl : flushed = [] := hnone
  rw [show buffered = tableText t steps from htext]

theorem mem_reached_iff {fails : Table → Option String} :
    (∀ t, t ∈ reached fails tables) ↔ ∀ t, fails t = none := by
  constructor
  · intro h t
    simpa using List.all_eq_true.1 List.all_takeWhile t (h t)
  · intro h t
    cases t <;> simp [reached, tables, h]

/-- What the first `finish` makes of the files. -/
theorem file_first_finish {steps : List Step} (h : NoFinish steps)
    (fails : Table → Option String) (t : Table) :
    ((serveAll step steps {}).2.finish fails).2.file t =
      if t ∈ reached fails tables then ⟨tableText t steps, []⟩ else ⟨[], tableText t steps⟩ := by
  obtain ⟨hopen, hfile⟩ := file_of_noFinish h
  rw [file_finish_of_open fails _ t hopen, hfile t]
  rfl

theorem clean_first_finish_iff {steps : List Step} (h : NoFinish steps)
    (fails : Table → Option String) :
    ((serveAll step steps {}).2.finish fails).2.Clean ↔ ∀ t, fails t = none := by
  rw [← mem_reached_iff]
  refine forall_congr' fun t => ?_
  rw [file_first_finish h]
  split <;> simp [*, tableText_ne_nil]

/-! ## After the first finish -/

theorem serve_of_finished (s : Step) {w : CsvWriter} (h : w.finished = true) :
    (step s w).2.finished = true ∧ ∀ t, ((step s w).2.file t).flushed = (w.file t).flushed := by
  by_cases hs : s.2 = .finish
  · simp [step, serve, hs, Call.table?, finish_of_finished s.1 w h, h]
  · exact ⟨(serve_of_ne_finish s.1 hs w).2.1.trans h, (serve_of_ne_finish s.1 hs w).2.2⟩

/-- Once finished, the disk stays as it is. -/
theorem serveAll_of_finished (steps : List Step) {w : CsvWriter} (h : w.finished = true) :
    (serveAll step steps w).2.finished = true ∧
      ∀ t, (((serveAll step steps w).2.file t).flushed) = (w.file t).flushed := by
  induction steps generalizing w with
  | nil => exact ⟨h, fun _ => rfl⟩
  | cons s steps ih =>
    obtain ⟨hfinished, hflushed⟩ := serve_of_finished s h
    obtain ⟨hfinished', hflushed'⟩ := ih hfinished
    exact ⟨hfinished', fun t => (hflushed' t).trans (hflushed t)⟩

theorem finished_finish (fails : Table → Option String) (w : CsvWriter) :
    (w.finish fails).2.finished = true := by
  cases h : w.finished with
  | true => rw [finish_of_finished fails w h, h]
  | false => rw [finish_of_open fails w h, (flushAll_spec fails _ tables).2.2]

theorem later_finish {before : List Step} (h : NoFinish before)
    (fails : Table → Option String) (after : List Step) :
    let w := (serveAll step (before ++ (fails, .finish) :: after) {}).2
    w.finished = true ∧ ∀ t, (w.file t).flushed =
      if t ∈ reached fails tables then tableText t before else [] := by
  rw [serveAll_append]
  obtain ⟨hfinished, hflushed⟩ := serveAll_of_finished after
    (finished_finish fails (serveAll step before {}).2)
  refine ⟨hfinished, fun t => (hflushed t).trans ?_⟩
  rw [file_first_finish h]
  split <;> rfl

/-- All of a file is on the disk, in terms of what has got there. -/
theorem buffered_eq_nil_iff (steps : List Step) (t : Table) :
    (((serveAll step steps {}).2.file t).buffered) = [] ↔
      ((serveAll step steps {}).2.file t).flushed = tableText t steps := by
  rw [tableText, ← text_lines, CsvFile.text, List.self_eq_append_right]

/-- The texts before the first `finish` are all of the text exactly if nothing came later. -/
theorem clean_later_iff {before : List Step} (h : NoFinish before)
    (fails : Table → Option String) (after : List Step) :
    (serveAll step (before ++ (fails, .finish) :: after) {}).2.Clean ↔
      (∀ t, fails t = none) ∧ ∀ t, written t (after.map (·.2)) = [] := by
  obtain ⟨-, hflushed⟩ := later_finish h fails after
  have hwritten (t : Table) : written t (((fails, .finish) :: after : List Step).map (·.2)) =
      written t (after.map (·.2)) := rfl
  rw [← mem_reached_iff, ← forall_and]
  refine forall_congr' fun t => ?_
  rw [buffered_eq_nil_iff, hflushed t, tableText_append, hwritten]
  split
  · next hmem =>
    simp only [hmem, true_and, List.self_eq_append_right, flatMap_record_eq_nil]
  · next hmem => simp [hmem, tableText_ne_nil]

/-- Only the first `finish` flushes, and only its answer tells whether all is on the disk. -/
theorem flushes_once (steps : List Step) : FlushesOnce steps (serveAll step steps {}).2 where
  accepts fails _ hc := (serve_of_ne_finish fails hc _).1
  kept t := text_lines steps t
  first h fails :=
    have hok := finish_ok_iff_of_open fails _ (file_of_noFinish h).1
    ⟨hok.trans (clean_first_finish_iff h fails).symm, hok, file_first_finish h fails⟩
  later before fails after hsteps h := by
    subst hsteps
    obtain ⟨hfinished, hflushed⟩ := later_finish h fails after
    exact ⟨fun fails' => finish_of_finished fails' _ hfinished, hflushed,
      clean_later_iff h fails after⟩

section Sample

/-- A `finish` fails at the second file; the one after it goes well, and so does another one after
one more row. -/
def lateSteps : List Step :=
  [sound (.tick ⟨1, 1, 3, 1, 1, 1, 0, 0, 0⟩), sound (.statics [⟨1, 1, "A", "x", "", "1"⟩]),
    (fun t => if t = .statics then some "full" else none, .finish), sound .finish,
    sound (.tick ⟨1, 2, 3, 1, 1, 1, 0, 0, 0⟩), sound .finish]

theorem flushes_once_sample :
    (serveAll step lateSteps {}).1 =
      [.ok (), .ok (), .error (.io "full"), .ok (), .ok (), .ok ()] ∧
    ¬(serveAll step lateSteps {}).2.Clean ∧
    FlushesOnce lateSteps (serveAll step lateSteps {}).2 := by
  have hsteps := flushes_once lateSteps
  refine ⟨rfl, fun hclean => ?_, hsteps⟩
  have hlater := hsteps.later (lateSteps.take 2) _ (lateSteps.drop 3) rfl
    (by unfold NoFinish; decide)
  exact absurd ((hlater.2.2.1 hclean).1 .statics) (by decide)

/-- The second row of the ticks never reaches the disk. -/
example : ((serveAll step lateSteps {}).2.onDisk.lookup "tick_summaries.csv").map
    (fun text => String.ofList (text.toList.drop 70)) = some "1,1,3,1,1,1,0,0,0\n" := by
  decide +kernel

end Sample

end CsvWriter

end AgentScheduler.Output
