/-
The text of records is read back: by the grammar of RFC 4180, it says the
records that were written and nothing else (`file_records_iff`).

The grammar is written down as relations, without the writer in mind: a field
may be quoted without need, a line may end in a line feed with or without a
carriage return before it, and the last one may lack its end. A file is
readable because no text says two things at once; this is proved with a rest
behind each part (`Field.unique`, `Record.unique`, `File.unique`).
-/
import AgentScheduler.Output.Csv

namespace AgentScheduler.Output

namespace Csv

/-! ## The grammar -/

/-- Stands for itself outside quotes. -/
def Bare (c : Char) : Prop := c ≠ ',' ∧ c ≠ '"' ∧ c ≠ '\n' ∧ c ≠ '\r'

/-- What stands between quotes, and what it says. -/
inductive Quoted : List Char → List Char → Prop
  | nil : Quoted [] []
  | quote {t s} : Quoted t s → Quoted ('"' :: '"' :: t) ('"' :: s)
  | char {c t s} : c ≠ '"' → Quoted t s → Quoted (c :: t) (c :: s)

/-- A field, and what it says. -/
inductive Field : List Char → List Char → Prop
  | bare {t} : (∀ c ∈ t, Bare c) → Field t t
  | quoted {t s} : Quoted t s → Field ('"' :: t ++ ['"']) s

/-- One or more fields with commas between them. -/
inductive Record : List Char → List (List Char) → Prop
  | one {t s} : Field t s → Record t [s]
  | cons {t s u ss} : Field t s → Record u ss → Record (t ++ ',' :: u) (s :: ss)

/-- The end of a line. -/
inductive LineEnd : List Char → Prop
  | lf : LineEnd ['\n']
  | crlf : LineEnd ['\r', '\n']

/-- Records, each on a line of its own. -/
inductive File : List Char → List (List (List Char)) → Prop
  | nil : File [] []
  | last {t r} : Record t r → t ≠ [] → File t [r]
  | cons {t r e u rs} : Record t r → LineEnd e → File u rs → File (t ++ e ++ u) (r :: rs)

/-! ## One reading

A part of a text is found together with what is behind it, which has to begin
with something that the part cannot go on with. -/

/-- Ends a field. -/
def EndsField (r : List Char) : Prop := ∀ c ∈ r.head?, c = ',' ∨ c = '\n' ∨ c = '\r'

/-- Ends a record. -/
def EndsRecord (r : List Char) : Prop := ∀ c ∈ r.head?, c = '\n' ∨ c = '\r'

theorem EndsRecord.endsField {r : List Char} (h : EndsRecord r) : EndsField r :=
  fun c hc => .inr (h c hc)

theorem endsField_comma {r : List Char} : EndsField (',' :: r) := by simp [EndsField]

theorem endsRecord_nil : EndsRecord [] := by simp [EndsRecord]

theorem LineEnd.endsRecord {e : List Char} (h : LineEnd e) (r : List Char) :
    EndsRecord (e ++ r) := by
  cases h <;> simp [EndsRecord]

theorem EndsField.not_bare {c : Char} {r : List Char} (h : EndsField (c :: r)) : ¬Bare c := by
  have := h c rfl
  simp only [Bare]
  grind

theorem EndsField.head_ne_quote {c : Char} {r : List Char} (h : EndsField (c :: r)) :
    c ≠ '"' := by
  rintro rfl
  simp [EndsField] at h

theorem EndsRecord.head_ne_comma {c : Char} {r : List Char} (h : EndsRecord (c :: r)) :
    c ≠ ',' := by
  rintro rfl
  simp [EndsRecord] at h

theorem bare_unique {t t' r r' : List Char} (ht : ∀ c ∈ t, Bare c) (ht' : ∀ c ∈ t', Bare c)
    (hr : EndsField r) (hr' : EndsField r') (h : t ++ r = t' ++ r') : t = t' ∧ r = r' := by
  induction t generalizing t' with
  | nil =>
    cases t' with
    | nil => exact ⟨rfl, h⟩
    | cons c t' =>
      simp only [List.nil_append, List.cons_append] at h
      exact absurd (ht' c (by simp)) (h ▸ hr).not_bare
  | cons c t ih =>
    cases t' with
    | nil =>
      simp only [List.nil_append, List.cons_append] at h
      exact absurd (ht c (by simp)) (h ▸ hr').not_bare
    | cons c' t' =>
      simp only [List.cons_append, List.cons.injEq] at h
      obtain ⟨rfl, h⟩ := h
      obtain ⟨rfl, hrest⟩ :=
        ih (fun c hc => ht c (by simp [hc])) (fun c hc => ht' c (by simp [hc])) h
      exact ⟨rfl, hrest⟩

/-- A quoted text goes up to the first quote that no other one follows. -/
theorem Quoted.unique {t s t' s' r r' : List Char} (ht : Quoted t s) (ht' : Quoted t' s')
    (hr : EndsField r) (hr' : EndsField r') (h : t ++ '"' :: r = t' ++ '"' :: r') :
    s = s' ∧ r = r' := by
  induction ht generalizing t' s' with
  | nil =>
    cases ht' with
    | nil => exact ⟨rfl, by simpa using h⟩
    | quote _ =>
      simp only [List.nil_append, List.cons_append, List.cons.injEq, true_and] at h
      exact absurd rfl (h ▸ hr).head_ne_quote
    | char hc _ =>
      simp only [List.nil_append, List.cons_append, List.cons.injEq] at h
      exact absurd h.1.symm hc
  | quote _ ih =>
    cases ht' with
    | nil =>
      simp only [List.nil_append, List.cons_append, List.cons.injEq, true_and] at h
      exact absurd rfl (h ▸ hr').head_ne_quote
    | quote ht' =>
      simp only [List.cons_append, List.cons.injEq, true_and] at h
      obtain ⟨rfl, hrest⟩ := ih ht' h
      exact ⟨rfl, hrest⟩
    | char hc _ =>
      simp only [List.cons_append, List.cons.injEq] at h
      exact absurd h.1.symm hc
  | char hc _ ih =>
    cases ht' with
    | nil =>
      simp only [List.nil_append, List.cons_append, List.cons.injEq] at h
      exact absurd h.1 hc
    | quote _ =>
      simp only [List.cons_append, List.cons.injEq] at h
      exact absurd h.1 hc
    | char _ ht' =>
      simp only [List.cons_append, List.cons.injEq] at h
      obtain ⟨rfl, h⟩ := h
      obtain ⟨rfl, hrest⟩ := ih ht' h
      exact ⟨rfl, hrest⟩

/-- A text without a quote is no quoted one. -/
theorem bare_ne_quoted {t u r r' : List Char} (ht : ∀ c ∈ t, Bare c) (hr : EndsField r) :
    t ++ r ≠ '"' :: u ++ r' := by
  intro h
  cases t with
  | nil =>
    simp only [List.nil_append, List.cons_append] at h
    exact (h ▸ hr).head_ne_quote rfl
  | cons c t =>
    simp only [List.cons_append, List.cons.injEq] at h
    exact (ht c (by simp)).2.1 h.1

theorem Field.unique {t s t' s' r r' : List Char} (ht : Field t s) (ht' : Field t' s')
    (hr : EndsField r) (hr' : EndsField r') (h : t ++ r = t' ++ r') : s = s' ∧ r = r' := by
  cases ht with
  | bare ht =>
    cases ht' with
    | bare ht' => exact bare_unique ht ht' hr hr' h
    | quoted _ => exact absurd h (by simpa using bare_ne_quoted ht hr)
  | quoted ht =>
    cases ht' with
    | bare ht' => exact absurd h.symm (by simpa using bare_ne_quoted ht' hr')
    | quoted ht' =>
      simp only [List.cons_append, List.append_assoc, List.nil_append, List.cons.injEq,
        true_and] at h
      exact ht.unique ht' hr hr' h

theorem Record.unique {t t' r r' : List Char} {ss ss' : List (List Char)} (ht : Record t ss)
    (ht' : Record t' ss') (hr : EndsRecord r) (hr' : EndsRecord r') (h : t ++ r = t' ++ r') :
    ss = ss' ∧ r = r' := by
  induction ht generalizing t' ss' with
  | one ht =>
    cases ht' with
    | one ht' =>
      obtain ⟨rfl, hrest⟩ := ht.unique ht' hr.endsField hr'.endsField h
      exact ⟨rfl, hrest⟩
    | cons ht' _ =>
      rw [List.append_assoc, List.cons_append] at h
      obtain ⟨-, hrest⟩ := ht.unique ht' hr.endsField endsField_comma h
      exact absurd rfl (hrest ▸ hr).head_ne_comma
  | cons ht _ ih =>
    rw [List.append_assoc, List.cons_append] at h
    cases ht' with
    | one ht' =>
      obtain ⟨-, hrest⟩ := ht.unique ht' endsField_comma hr'.endsField h
      exact absurd rfl (hrest ▸ hr').head_ne_comma
    | cons ht' hu' =>
      rw [List.append_assoc, List.cons_append] at h
      obtain ⟨rfl, hrest⟩ := ht.unique ht' endsField_comma endsField_comma h
      obtain ⟨rfl, hr⟩ := ih hu' (by simpa using hrest)
      exact ⟨rfl, hr⟩

theorem LineEnd.unique {e e' r r' : List Char} (he : LineEnd e) (he' : LineEnd e')
    (h : e ++ r = e' ++ r') : r = r' := by
  cases he <;> cases he' <;> simp_all

theorem LineEnd.ne_nil {e : List Char} (he : LineEnd e) : e ≠ [] := by
  cases he <;> simp

/-- A text is not two files. -/
theorem File.unique {t : List Char} {rs rs' : List (List (List Char))} (h : File t rs)
    (h' : File t rs') : rs = rs' := by
  induction h generalizing rs' with
  | nil =>
    generalize ht : ([] : List Char) = t at h'
    cases h' with
    | nil => rfl
    | last _ hne => exact absurd ht.symm hne
    | cons _ he _ => simp [he.ne_nil] at ht
  | @last t r hr hne =>
    generalize ht : t = t₁ at h'
    cases h' with
    | nil => exact absurd ht hne
    | last hr' _ =>
      rw [(hr.unique hr' endsRecord_nil endsRecord_nil (by rw [ht])).1]
    | @cons t' _ e u _ hr' he _ =>
      have hrest := (hr.unique hr' endsRecord_nil (he.endsRecord u) (by simp [ht])).2
      simp [he.ne_nil] at hrest
  | @cons t r e u rs hr he _ ih =>
    generalize ht : t ++ e ++ u = t₁ at h'
    cases h' with
    | nil => simp [he.ne_nil] at ht
    | last hr' _ =>
      have hrest := (hr.unique hr' (he.endsRecord u) endsRecord_nil (by simp [← ht])).2
      simp [he.ne_nil] at hrest
    | @cons t' r' e' u' rs' hr' he' hu' =>
      obtain ⟨rfl, hrest⟩ :=
        hr.unique hr' (he.endsRecord u) (he'.endsRecord u') (by simpa using ht)
      obtain rfl := he.unique he' hrest
      rw [ih hu']

/-! ## What is written -/

theorem needsQuotes_eq_false {c : Char} : needsQuotes c = false ↔ Bare c := by
  simp [needsQuotes, Bare, and_assoc]

theorem quoted_doubleQuotes (cs : List Char) : Quoted (doubleQuotes cs) cs := by
  induction cs with
  | nil => exact .nil
  | cons c cs ih =>
    rw [doubleQuotes]
    split
    · next hc => exact hc ▸ .quote ih
    · next hc => exact .char hc ih

theorem field_field (cs : List Char) : Field (field cs) cs := by
  rw [field]
  split
  · exact .quoted (quoted_doubleQuotes cs)
  · next h =>
    refine .bare fun c hc => needsQuotes_eq_false.1 ?_
    simp only [List.any_eq_true, not_exists, not_and, Bool.not_eq_true] at h
    exact h c hc

theorem record_fields {fs : List (List Char)} (h : fs ≠ []) : Record (fields fs) fs := by
  induction fs with
  | nil => exact absurd rfl h
  | cons f fs ih =>
    cases fs with
    | nil => exact .one (field_field f)
    | cons g fs => exact .cons (field_field f) (ih (by simp))

theorem file_records {rows : List (List (List Char))} (h : ∀ row ∈ rows, row ≠ []) :
    File (rows.flatMap record) rows := by
  induction rows with
  | nil => exact .nil
  | cons row rows ih =>
    exact .cons (record_fields (h row (by simp))) .lf (ih fun r hr => h r (by simp [hr]))

/-- The text of rows is read as these rows and as nothing else. -/
theorem file_records_iff {rows rs : List (List (List Char))} (h : ∀ row ∈ rows, row ≠ []) :
    File (rows.flatMap record) rs ↔ rs = rows :=
  ⟨fun hrs => hrs.unique (file_records h), fun hrs => by rw [hrs]; exact file_records h⟩

end Csv

end AgentScheduler.Output
