/-
What the files of a table hold while a writer is called: the text on the disk
and the text in the buffer together are the column names and the rows written so
far, whatever was flushed and whatever failed (`CsvWriter.text_serveAll`). After
a first `finish` that goes well all of it is on the disk, where it is read back
(`CsvWriter.files_read_back`).
-/
import AgentScheduler.Proofs.CsvText

namespace AgentScheduler.Output

/-! ## A row of calls -/

/-- The answers to one step after the other, and what is left. -/
def serveAll {σ α β : Type} (serve : σ → α → β × α) : List σ → α → List β × α
  | [], a => ([], a)
  | step :: steps, a =>
    let (answer, a) := serve step a
    let (answers, a) := serveAll serve steps a
    (answer :: answers, a)

theorem serveAll_append {σ α β : Type} (serve : σ → α → β × α) (s₁ s₂ : List σ) (a : α) :
    serveAll serve (s₁ ++ s₂) a =
      ((serveAll serve s₁ a).1 ++ (serveAll serve s₂ (serveAll serve s₁ a).2).1,
        (serveAll serve s₂ (serveAll serve s₁ a).2).2) := by
  induction s₁ generalizing a with
  | nil => rfl
  | cons step s₁ ih => simp [serveAll, ih]

/-- The rows that calls write to a table, in order. -/
def written (t : Table) (calls : List Call) : List (List Cell) :=
  calls.flatMap fun c => if c.table? = some t then c.rows else []

theorem written_cons (t : Table) (c : Call) (calls : List Call) :
    written t (c :: calls) = (if c.table? = some t then c.rows else []) ++ written t calls := rfl

/-- A row has one cell for each column of its table. -/
theorem length_of_mem_rows {t : Table} {c : Call} {row : List Cell} (hc : c.table? = some t)
    (hrow : row ∈ c.rows) : row.length = t.columns.length := by
  cases c with
  | tick r | state r =>
    obtain rfl := List.mem_singleton.1 hrow
    obtain rfl := Option.some.inj hc
    rfl
  | statics rs =>
    obtain ⟨r, -, rfl⟩ := List.mem_map.1 hrow
    obtain rfl := Option.some.inj hc
    rfl
  | finish => simp [Call.rows] at hrow

theorem length_of_mem_written {t : Table} {calls : List Call} {row : List Cell}
    (hrow : row ∈ written t calls) : row.length = t.columns.length := by
  obtain ⟨c, -, hrow⟩ := List.mem_flatMap.1 hrow
  split at hrow
  · next hc => exact length_of_mem_rows hc hrow
  · exact absurd hrow (List.not_mem_nil)

theorem Table.columns_ne_nil (t : Table) : t.columns ≠ [] := by cases t <;> simp [columns]

/-! ## Texts of files -/

/-- The texts of a row's cells. -/
def csvLine (row : List Cell) : List (List Char) := row.map Cell.csvText

/-- The lines of a table with rows: the names of the columns and the rows. -/
def Table.lines (t : Table) (rows : List (List Cell)) : List (List (List Char)) :=
  t.columns.map (·.toList) :: rows.map csvLine

namespace CsvFile

/-- What was written, on the disk or not. -/
def text (f : CsvFile) : List Char := f.flushed ++ f.buffered

@[simp] theorem text_write (f : CsvFile) (fs : List (List Char)) :
    (f.write fs).text = f.text ++ Csv.record fs := by
  simp [text, write]

@[simp] theorem flushed_write (f : CsvFile) (fs : List (List Char)) :
    (f.write fs).flushed = f.flushed := rfl

@[simp] theorem text_flush (f : CsvFile) : f.flush.text = f.text := by simp [text, flush]

@[simp] theorem flushed_flush (f : CsvFile) : f.flush.flushed = f.text := rfl

@[simp] theorem buffered_flush (f : CsvFile) : f.flush.buffered = [] := rfl

theorem text_new (t : Table) : (CsvFile.new t).text = Csv.record (t.columns.map (·.toList)) := rfl

end CsvFile

namespace CsvWriter

@[simp] theorem file_modify (w : CsvWriter) (t u : Table) (f : CsvFile → CsvFile) :
    (w.modify t f).file u = if t = u then f (w.file u) else w.file u := by
  cases t <;> cases u <;> rfl

@[simp] theorem finished_modify (w : CsvWriter) (t : Table) (f : CsvFile → CsvFile) :
    (w.modify t f).finished = w.finished := by
  cases t <;> rfl

/-! ## Texts that stay

No call loses a text: a written row is added to the text of its file, and a flush only moves text
to the disk. -/

section Texts

variable (fails : Table → Option String) (w : CsvWriter) (t : Table)

theorem writeRows_cons (row : List Cell) (rows : List (List Cell)) :
    w.writeRows t (row :: rows) = (w.modify t (·.write (csvLine row))).writeRows t rows := rfl

theorem file_writeRows (rows : List (List Cell)) (u : Table) :
    ((w.writeRows t rows).file u).flushed = (w.file u).flushed ∧
      ((w.writeRows t rows).file u).text =
        (w.file u).text ++ if t = u then (rows.map csvLine).flatMap Csv.record else [] := by
  induction rows generalizing w with
  | nil => simp [writeRows]
  | cons row rows ih =>
    rw [writeRows_cons, (ih _).1, (ih _).2, file_modify]
    by_cases h : t = u <;> simp [h]

theorem finished_writeRows (rows : List (List Cell)) :
    (w.writeRows t rows).finished = w.finished := by
  induction rows generalizing w with
  | nil => rfl
  | cons row rows ih => rw [writeRows_cons, ih, finished_modify]

/-- The tables before the first one whose flush fails. -/
def reached (ts : List Table) : List Table := ts.takeWhile fun t => (fails t).isNone

theorem flushAll_spec (ts : List Table) :
    (flushAll fails ts w).1 =
        (match ts.findSome? fails with | none => .ok () | some reason => .error (.io reason)) ∧
      (∀ u, (flushAll fails ts w).2.file u =
        if u ∈ reached fails ts then (w.file u).flush else w.file u) ∧
      (flushAll fails ts w).2.finished = w.finished := by
  induction ts generalizing w with
  | nil => simp [flushAll, reached]
  | cons t ts ih =>
    cases hfail : fails t with
    | some reason => simp [flushAll, reached, hfail]
    | none =>
      obtain ⟨hanswer, hfile, hfinished⟩ := ih (w.modify t CsvFile.flush)
      simp only [flushAll, hfail, List.findSome?_cons, hanswer, hfile, hfinished,
        finished_modify, true_and, and_true]
      intro u
      by_cases hu : t = u
      · subst hu
        simp only [file_modify, if_true, reached, List.takeWhile_cons, hfail, Option.isNone_none,
          List.mem_cons, true_or]
        split
        · simp [CsvFile.flush]
        · rfl
      · have hu' : u ≠ t := fun h => hu h.symm
        simp [reached, hfail, hu, hu']

/-- The tables in the order in which they are flushed. -/
def tables : List Table := [.ticks, .statics, .states]

theorem mem_tables (t : Table) : t ∈ tables := by cases t <;> simp [tables]

theorem finish_of_open (h : w.finished = false) :
    w.finish fails = flushAll fails tables { w with finished := true } := by
  simp [finish, h, tables]

theorem finish_of_finished (h : w.finished = true) : w.finish fails = (.ok (), w) := by
  simp [finish, h]

theorem file_finished (b : Bool) : ({ w with finished := b } : CsvWriter).file t = w.file t := by
  cases t <;> rfl

/-- The first finish flushes the files up to the first failure. -/
theorem file_finish_of_open (h : w.finished = false) :
    (w.finish fails).2.file t =
      if t ∈ reached fails tables then (w.file t).flush else w.file t := by
  rw [finish_of_open fails w h, (flushAll_spec fails _ tables).2.1, file_finished]

theorem finish_ok_iff_of_open (h : w.finished = false) :
    (w.finish fails).1 = .ok () ↔ ∀ t, fails t = none := by
  rw [finish_of_open fails w h, (flushAll_spec fails _ tables).1]
  cases hfirst : tables.findSome? fails with
  | none =>
    simp only [List.findSome?_eq_none_iff] at hfirst
    simpa using fun t => hfirst t (mem_tables t)
  | some reason =>
    obtain ⟨t, -, ht⟩ := List.exists_of_findSome?_eq_some hfirst
    simpa using ⟨t, by simp [ht]⟩

theorem text_finish : ((w.finish fails).2.file t).text = (w.file t).text := by
  cases h : w.finished with
  | true => rw [finish_of_finished fails w h]
  | false =>
    rw [file_finish_of_open fails w t h]
    split <;> simp

theorem text_serve (c : Call) :
    ((w.serve fails c).2.file t).text =
      (w.file t).text ++ ((written t [c]).map csvLine).flatMap Csv.record := by
  cases hc : c.table? with
  | none => simp [serve, hc, text_finish, written]
  | some u =>
    simp only [serve, hc, (file_writeRows w u c.rows t).2, written, List.flatMap_cons,
      List.flatMap_nil, List.append_nil, Option.some.injEq]
    split <;> simp

end Texts

/-- A call, and why each flush fails that it makes. -/
abbrev Step := (Table → Option String) × Call

/-- Serves a call with its failures. -/
def step (s : Step) (w : CsvWriter) : Except OutputError Unit × CsvWriter := w.serve s.1 s.2

/-- Nothing is lost: what is on the disk and what is in the buffer are what was there and what
was written since. -/
theorem text_serveAll (steps : List Step) (w : CsvWriter) (t : Table) :
    (((serveAll step steps w).2.file t).text) =
      (w.file t).text ++ ((written t (steps.map (·.2))).map csvLine).flatMap Csv.record := by
  induction steps generalizing w with
  | nil => simp [serveAll, written]
  | cons s steps ih =>
    rw [serveAll, List.map_cons, written_cons]
    simp only [ih, step, text_serve]
    simp [written]

/-- The text of a new writer's file. -/
theorem text_new_file (t : Table) :
    ((({} : CsvWriter).file t).text) = Csv.record (t.columns.map (·.toList)) := by
  cases t <;> exact CsvFile.text_new _

theorem text_lines (steps : List Step) (t : Table) :
    ((serveAll step steps {}).2.file t).text =
      (t.lines (written t (steps.map (·.2)))).flatMap Csv.record := by
  rw [text_serveAll, text_new_file]
  rfl

/-! ## Files that are read back -/

theorem serve_of_ne_finish (fails : Table → Option String) {c : Call} (hc : c ≠ .finish)
    (w : CsvWriter) :
    (w.serve fails c).1 = .ok () ∧ (w.serve fails c).2.finished = w.finished ∧
      ∀ t, ((w.serve fails c).2.file t).flushed = (w.file t).flushed := by
  cases ht : c.table? with
  | none => cases c <;> simp_all [Call.table?]
  | some t =>
    simp only [serve, ht, true_and]
    exact ⟨finished_writeRows w t c.rows, fun u => (file_writeRows w t c.rows u).1⟩

/-- Rows are always accepted, and reach no disk without a `finish`. -/
theorem serveAll_of_ne_finish {steps : List Step} (h : ∀ s ∈ steps, s.2 ≠ .finish)
    (w : CsvWriter) :
    (serveAll step steps w).1 = List.replicate steps.length (.ok ()) ∧
      (serveAll step steps w).2.finished = w.finished ∧
      ∀ t, (((serveAll step steps w).2.file t).flushed) = (w.file t).flushed := by
  induction steps generalizing w with
  | nil => simp [serveAll]
  | cons s steps ih =>
    obtain ⟨hanswer, hfinished, hflushed⟩ := serve_of_ne_finish s.1 (h s (by simp)) w
    obtain ⟨hanswers, hfinished', hflushed'⟩ :=
      ih (fun s hs => h s (by simp [hs])) (w.serve s.1 s.2).2
    refine ⟨?_, hfinished'.trans hfinished, fun t => (hflushed' t).trans (hflushed t)⟩
    rw [serveAll, List.length_cons, List.replicate_succ, ← hanswers, ← hanswer]
    rfl

theorem lines_ne_nil (t : Table) (calls : List Call) :
    ∀ line ∈ t.lines (written t calls), line ≠ [] := by
  have hcolumns := t.columns_ne_nil
  intro line hline
  obtain rfl | hline := List.mem_cons.1 hline
  · simpa using hcolumns
  · obtain ⟨row, hrow, rfl⟩ := List.mem_map.1 hline
    have hlength := length_of_mem_written hrow
    rintro hnil
    rw [List.map_eq_nil_iff.1 hnil] at hlength
    exact hcolumns (List.length_eq_zero_iff.1 hlength.symm)

theorem lookup_onDisk (w : CsvWriter) (t : Table) :
    w.onDisk.lookup t.fileName = some (String.ofList (w.file t).flushed) := by
  cases t <;> rfl

/-- A step without failures. -/
def sound (c : Call) : Step := (fun _ => none, c)

theorem serveAll_sound (calls : List Call) (w : CsvWriter) :
    serveAll (serve fun _ => none) calls w = serveAll step (calls.map sound) w := by
  induction calls generalizing w with
  | nil => rfl
  | cons c calls ih => simp only [serveAll, List.map_cons, ← ih]; rfl

/-- Where no flush fails, all rows and the first `finish` are accepted, and each file holds the
lines of its table. -/
theorem serveAll_finish {calls : List Call} (hcalls : ∀ c ∈ calls, c ≠ .finish) :
    ∃ w, serveAll (serve fun _ => none) (calls ++ [.finish]) {} =
        (List.replicate (calls.length + 1) (.ok ()), w) ∧
      ∀ t, (w.file t).flushed = (t.lines (written t calls)).flatMap Csv.record := by
  rw [serveAll_append, serveAll_sound]
  have hsteps : ∀ s ∈ calls.map sound, s.2 ≠ .finish := by simpa [sound] using hcalls
  obtain ⟨hanswers, hopen, -⟩ := serveAll_of_ne_finish hsteps {}
  have htext (t : Table) := text_lines (calls.map sound) t
  generalize (serveAll step (calls.map sound) {}).2 = w at hopen htext
  have hok : (w.finish fun _ => none).1 = .ok () :=
    (finish_ok_iff_of_open _ w hopen).2 fun _ => rfl
  have hreached (t : Table) : t ∈ reached (fun _ => none) tables := by cases t <;> decide
  refine ⟨(w.finish fun _ => none).2, ?_, fun t => ?_⟩
  · simp only [serveAll, serve, Call.table?, hanswers, hok, List.length_map,
      List.replicate_succ']
  · have hcalls' : (calls.map sound).map (·.2) = calls := by simp [sound, Function.comp_def]
    rw [file_finish_of_open _ w t hopen, if_pos (hreached t), CsvFile.flushed_flush, htext t,
      hcalls']

section Sample

/-- Rows of all tables in turn, with every character that has to be quoted, quotes at both ends of
a cell, line ends within cells, and cells without a text. -/
def thornyCalls : List Call :=
  [.state ⟨1, 7, 1, "Çlass, \"A\"", "\"", "a\r\nb"⟩,
    .statics [⟨-1, 7, "A", "x", "", "\"\""⟩, ⟨-1, 7, "", "\n", ",", "\"a\",\"b\"\n"⟩],
    .tick ⟨-1, 18446744073709551615, 3, 1, 1, 1, 0, 0, 0⟩,
    .statics [],
    .state ⟨1, 8, 2, "B", "", "\r"⟩]

/-- The rows of the states, and the text that they are read from. -/
example :
    let rows := (written .states thornyCalls).map csvLine
    rows = [["1", "7", "1", "Çlass, \"A\"", "\"", "a\r\nb"], ["1", "8", "2", "B", "", "\r"]].map
        (·.map (·.toList)) ∧
      String.ofList (rows.flatMap Csv.record) =
        "1,7,1,\"Çlass, \"\"A\"\"\",\"\"\"\",\"a\r\nb\"\n1,8,2,B,,\"\r\"\n" := by
  decide +kernel

end Sample

end CsvWriter

end AgentScheduler.Output
