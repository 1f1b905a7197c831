/-
The files and the database side by side. Files take every row, and the database
those calls whose numbers are below 2 to the power of 63 (`Call.Small`); no other
answer is possible, however the two were called before. So after the same calls
a table has, of the rows in its file, those of the calls without larger numbers,
and all of them if there are none (`Agreed`).
-/
import Mathlib
import AgentScheduler.Output.Database
import AgentScheduler.Proofs.CsvFiles

namespace AgentScheduler.Output

/-! ## Numbers that a database takes -/

/-- The numbers of a call are below 2 to the power of 63. -/
def Call.Small (c : Call) : Prop :=
  ∀ row ∈ c.rows, ∀ i : Int, .int i ∈ row → i < 0x8000000000000000

namespace Database

/-- Ids have 64 bits and a sign, and other numbers have no sign. -/
theorem lower_bound {c : Call} {row : List Cell} (hrow : row ∈ c.rows) {i : Int}
    (hi : .int i ∈ row) : -0x8000000000000000 ≤ i := by
  have hid (id : Int64) : -0x8000000000000000 ≤ id.toInt := id.le_toInt
  cases c with
  | tick r =>
    obtain rfl := List.mem_singleton.1 hrow
    simp only [TickRow.cells, List.mem_cons, Cell.int.injEq, List.not_mem_nil, or_false] at hi
    rcases hi with rfl | hi
    · exact hid r.context
    · omega
  | statics rows =>
    obtain ⟨r, -, rfl⟩ := List.mem_map.1 hrow
    simp only [StaticRow.cells, List.mem_cons, Cell.int.injEq, reduceCtorEq, List.not_mem_nil,
      or_false] at hi
    rcases hi with rfl | rfl
    · exact hid r.context
    · omega
  | state r =>
    obtain rfl := List.mem_singleton.1 hrow
    simp only [StateRow.cells, List.mem_cons, Cell.int.injEq, reduceCtorEq, List.not_mem_nil,
      or_false] at hi
    rcases hi with rfl | rfl | rfl
    · exact hid r.context
    · omega
    · omega
  | finish => simp [Call.rows] at hrow

/-- A call fits exactly if its numbers are small. -/
theorem fits_iff (c : Call) : c.rows.all (·.all fits) = true ↔ c.Small := by
  simp only [List.all_eq_true, Call.Small]
  refine forall₂_congr fun row hrow => ⟨fun h i hi => ?_, fun h cell hcell => ?_⟩
  · have hfits := h _ hi
    simp only [fits, Bool.and_eq_true, decide_eq_true_eq] at hfits
    omega
  · cases cell with
    | text s => rfl
    | int i =>
      have hlow := lower_bound hrow hcell
      have hhigh := h i hcell
      simp only [fits, Bool.and_eq_true, decide_eq_true_eq]
      omega

instance (c : Call) : Decidable c.Small := decidable_of_iff _ (fits_iff c)

/-- The refusal of a larger number. -/
def tooLarge : OutputError := .sqlite "number too large to fit in target type"

theorem serve_eq (c : Call) (d : Database) (hc : c ≠ .finish) :
    ∃ t, c.table? = some t ∧
      d.serve c = if c.Small then (.ok (), d.insert t c.rows) else (.error tooLarge, d) := by
  cases ht : c.table? with
  | none => cases c <;> simp_all [Call.table?]
  | some t =>
    refine ⟨t, rfl, ?_⟩
    simp only [serve, ht, fits_iff, tooLarge]

theorem rows_insert (d : Database) (t u : Table) (rows : List (List Cell)) :
    (d.insert t rows).rows u = d.rows u ++ if t = u then rows else [] := by
  cases t <;> cases u <;> simp [insert, Database.rows]

/-- The answer to a call with rows. -/
def answer (c : Call) : Except OutputError Unit := if c.Small then .ok () else .error tooLarge

/-- The calls with small numbers are accepted, and their rows stored in order. -/
theorem serveAll_rows {calls : List Call} (h : ∀ c ∈ calls, c ≠ .finish) (d : Database) :
    (serveAll serve calls d).1 = calls.map answer ∧
      ∀ t, (serveAll serve calls d).2.rows t =
        d.rows t ++ written t (calls.filter fun c => c.Small) := by
  induction calls generalizing d with
  | nil => simp [serveAll, written]
  | cons c calls ih =>
    obtain ⟨t, ht, hserve⟩ := serve_eq c d (h c (by simp))
    have ih := ih fun c hc => h c (by simp [hc])
    by_cases hsmall : c.Small
    · rw [if_pos hsmall] at hserve
      simp only [serveAll, hserve, (ih _).1, (ih _).2, List.map_cons, answer, hsmall, if_true,
        rows_insert, decide_true, List.filter_cons_of_pos, written_cons, ht, Option.some.injEq,
        List.append_assoc, true_and]
      exact fun _ => trivial
    · rw [if_neg hsmall] at hserve
      simp [serveAll, hserve, (ih _).1, (ih _).2, answer, hsmall]

end Database

/-! ## Both after the same calls -/

/-- What is written in a file for a cell: numbers are read by their value. -/
def Cell.ReadAs : Cell → List Char → Prop
  | .int i, cs => (String.ofList cs).toInt? = some i
  | .text s, cs => cs = s.toList

theorem Cell.readAs_csvText (cell : Cell) : cell.ReadAs cell.csvText := by
  cases cell with
  | int i =>
    rw [ReadAs, csvText, String.ofList_toList]
    exact Int.toInt?_repr i
  | text s => rfl

/-- The file of a table is read as its column names and these rows, cell by cell. -/
def CsvWriter.Shows (w : CsvWriter) (t : Table) (rows : List (List Cell)) : Prop :=
  ∃ text records, w.onDisk.lookup t.fileName = some text ∧
    (∀ rs, Csv.File text.toList rs ↔ rs = t.columns.map (·.toList) :: records) ∧
    List.Forall₂ (List.Forall₂ Cell.ReadAs) rows records

/-- The answers of new files to calls and a `finish` after them, and what is left. -/
def CsvWriter.after (calls : List Call) : List (Except OutputError Unit) × CsvWriter :=
  serveAll (CsvWriter.serve fun _ => none) (calls ++ [.finish]) ({} : CsvWriter)

/-- The answers of a new database to calls and a `finish` after them, and what is left. -/
def Database.after (calls : List Call) : List (Except OutputError Unit) × Database :=
  serveAll Database.serve (calls ++ [.finish]) ({} : Database)

/-- What new files and a new database make of the same calls. -/
structure Agreed (calls : List Call) : Prop where
  files : (CsvWriter.after calls).1 = calls.map (fun _ => .ok ()) ++ [.ok ()]
  database : (Database.after calls).1 = calls.map Database.answer ++ [.ok ()]
  shown : ∀ t, (CsvWriter.after calls).2.Shows t (written t calls)
  stored : ∀ t, (Database.after calls).2.rows t = written t (calls.filter fun c => c.Small)
  /-- Without larger numbers they answer the same and have the same rows. -/
  same : (∀ c ∈ calls, c.Small) → (Database.after calls).1 = (CsvWriter.after calls).1 ∧
    ∀ t, (CsvWriter.after calls).2.Shows t ((Database.after calls).2.rows t)

theorem shows_written {calls : List Call} (h : ∀ c ∈ calls, c ≠ .finish) (t : Table) :
    (CsvWriter.after calls).2.Shows t (written t calls) := by
  obtain ⟨w, hserve, hfiles⟩ := CsvWriter.serveAll_finish h
  rw [CsvWriter.after, hserve]
  refine ⟨_, (written t calls).map csvLine, CsvWriter.lookup_onDisk w t, fun rs => ?_, ?_⟩
  · rw [hfiles t, String.toList_ofList]
    exact Csv.file_records_iff (CsvWriter.lines_ne_nil t calls)
  · rw [List.forall₂_map_right_iff]
    refine List.forall₂_same.2 fun row _ => ?_
    rw [csvLine, List.forall₂_map_right_iff]
    exact List.forall₂_same.2 fun cell _ => cell.readAs_csvText

theorem agreed {calls : List Call} (h : ∀ c ∈ calls, c ≠ .finish) : Agreed calls := by
  have hfiles : (CsvWriter.after calls).1 = calls.map (fun _ => .ok ()) ++ [.ok ()] := by
    obtain ⟨w, hserve, -⟩ := CsvWriter.serveAll_finish h
    rw [CsvWriter.after, hserve, List.replicate_succ', List.map_const']
  obtain ⟨hanswers, hrows⟩ := Database.serveAll_rows h {}
  have hdatabase : (Database.after calls).1 = calls.map Database.answer ++ [.ok ()] := by
    rw [Database.after, serveAll_append, hanswers]
    rfl
  have hstored (t : Table) : (Database.after calls).2.rows t =
      written t (calls.filter fun c => c.Small) := by
    have hfinish (d : Database) : (serveAll Database.serve [.finish] d).2.rows t = d.rows t := by
      cases t <;> rfl
    rw [Database.after, serveAll_append, hfinish, hrows t]
    cases t <;> rfl
  refine ⟨hfiles, hdatabase, shows_written h, hstored, fun hsmall => ⟨?_, fun t => ?_⟩⟩
  · rw [hdatabase, hfiles]
    exact congrArg (· ++ _) (List.map_congr_left fun c hc => if_pos (hsmall c hc))
  · rw [hstored t, List.filter_eq_self.2 fun c hc => decide_eq_true (hsmall c hc)]
    exact shows_written h t

end AgentScheduler.Output
