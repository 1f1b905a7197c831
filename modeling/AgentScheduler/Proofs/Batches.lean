/-
What a log of static variables sends, for every receiver. A log goes class by
class (`Logged`): a class without changes is passed over, and the others are
sent until one is refused. A receiver that applies what it accepts holds the
baselines all along (`Step.hears`), and the live values once a log of all
classes is through (`Logged.caught_up`).
-/
import AgentScheduler.Proofs.Changes
import AgentScheduler.Statics
import Mathlib.Logic.Function.Basic

namespace AgentScheduler

/-! ## Receivers -/

/-- What a receiver of static variables is told. -/
inductive Told
  /-- The changes of a class, which it accepted. -/
  | changed (cls : String) (changes : List VarChange)
  /-- Nothing counts as logged any more. -/
  | cleared
  /-- A snapshot with these baselines was loaded. -/
  | loaded (baselines : SortedMap String Variables)

/-- The variables that a receiver holds, by class. -/
abbrev Receiver := String → Variables

namespace Receiver

/-- Holds nothing. -/
def empty : Receiver := fun _ => .empty

/-- The receiver after it was told something. -/
def hear (r : Receiver) : Told → Receiver
  | .changed cls changes => Function.update r cls ((r cls).applyChanges changes)
  | .cleared => empty
  | .loaded baselines => fun cls => (baselines.get? cls).getD .empty

/-- The receiver after it was told one thing after the other. -/
def hearAll (r : Receiver) (T : List Told) : Receiver := T.foldl hear r

@[simp] theorem hearAll_nil (r : Receiver) : r.hearAll [] = r := rfl

@[simp] theorem hearAll_cons (r : Receiver) (t : Told) (T : List Told) :
    r.hearAll (t :: T) = (r.hear t).hearAll T := rfl

theorem hearAll_append (r : Receiver) (T T' : List Told) :
    r.hearAll (T ++ T') = (r.hearAll T).hearAll T' := List.foldl_append

end Receiver

/-- The changes in a batch say what the receiver holds, each name once, and change it. -/
def Told.Exact (r : Receiver) : Told → Prop
  | .changed cls changes => changes ≠ [] ∧ (changes.map (·.name)).Nodup ∧
      ∀ c ∈ changes, c.old = (r cls).get? c.name ∧ c.old ≠ c.new
  | _ => True

/-- Every batch is exact when it comes. -/
def AllExact : Receiver → List Told → Prop
  | _, [] => True
  | r, t :: T => t.Exact r ∧ AllExact (r.hear t) T

theorem AllExact.at {r : Receiver} {T T' : List Told} {t : Told}
    (h : AllExact r (T ++ t :: T')) : t.Exact (r.hearAll T) := by
  induction T generalizing r with
  | nil => exact h.1
  | cons u T ih => exact ih h.2

/-! ## Records that were accepted -/

section Recording

variable {α : Type}

/-- A receiver that also keeps the records it accepts, in order. -/
def Sink.recording (sink : Sink α) : Sink (List Record × α) := fun r h =>
  match sink r ⟨h.app.2, h.events⟩ with
  | (.ok (), h') => (.ok (), ⟨(h.app.1 ++ [r], h'.app), h'.events⟩)
  | (.error e, h') => (.error e, ⟨(h.app.1, h'.app), h'.events⟩)

/-- The batch of a record. -/
def Record.told? : Record → Option Told
  | .statics _ _ cls changes => some (.changed cls changes)
  | .state .. => none

/-- The batches that the receiver accepts in a log. -/
def Statics.accepted (s : Statics) (context : ContextId) (frame : UInt64) (cls : Option String)
    (sink : Sink α) (h : Host α) : List Told :=
  (s.log context frame cls sink.recording ⟨([], h.app), h.events⟩).2.2.app.1.filterMap (·.told?)

end Recording

namespace Statics

variable {s s' : Statics} {cls : String} {l : List String} {T : List Told}

/-! ## Baselines and live values of a class -/

/-- The baseline of a class; nothing if it has none. -/
def baseline (s : Statics) : Receiver := fun cls => (s.baselines.get? cls).getD .empty

/-- The live values of a class; nothing if it has none. -/
def values (s : Statics) : Receiver := fun cls => (s.live.get? cls).getD .empty

theorem pendingChanges_eq (cls : String) :
    s.pendingChanges cls = Variables.diff (s.baseline cls) (s.values cls) := rfl

theorem pendingChanges_eq_nil_iff :
    s.pendingChanges cls = [] ↔ s.baseline cls = s.values cls := Variables.diff_eq_nil_iff

theorem baseline_commit : (s.commit cls).baseline = Function.update s.baseline cls (s.values cls) := by
  funext cls'
  unfold commit baseline values
  rw [Function.update_apply]
  cases s.live.get? cls with
  | some vars => simp only [SortedMap.get?_insert]; split <;> rfl
  | none => simp only [SortedMap.get?_erase]; split <;> rfl

@[simp] theorem values_commit : (s.commit cls).values = s.values := rfl

/-- A receiver that holds the baselines holds those of the committed class after its changes. -/
theorem hear_pendingChanges :
    s.baseline.hear (.changed cls (s.pendingChanges cls)) = (s.commit cls).baseline := by
  rw [baseline_commit, Receiver.hear, pendingChanges_eq, Variables.applyChanges_diff]

theorem pendingChanges_exact (h : s.pendingChanges cls ≠ []) :
    (Told.changed cls (s.pendingChanges cls)).Exact s.baseline := by
  refine ⟨h, Variables.diff_nodup, fun c hc => ?_⟩
  obtain ⟨hold, -, hne⟩ := Variables.mem_diff.1 hc
  exact ⟨hold, hne⟩

/-! ## Logs -/

/-- What a log of classes is made of: the batches that were accepted, whether it is through, and
the static variables after it. -/
inductive Logged : List String → Statics → List Told → Bool → Statics → Prop
  /-- There is no class left. -/
  | done {s : Statics} : Logged [] s [] true s
  /-- A class without changes is passed over. -/
  | still {cls : String} {l : List String} {s s' : Statics} {T : List Told} {through : Bool}
      (h : s.pendingChanges cls = []) (h' : Logged l s T through s') : Logged (cls :: l) s T through s'
  /-- The changes of a class are accepted. -/
  | sent {cls : String} {l : List String} {s s' : Statics} {T : List Told} {through : Bool}
      (h : s.pendingChanges cls ≠ [])
      (h' : Logged l (s.commit cls) T through s') :
      Logged (cls :: l) s (.changed cls (s.pendingChanges cls) :: T) through s'
  /-- The changes of a class are refused, and the log ends. -/
  | refused {cls : String} {l : List String} {s : Statics} (h : s.pendingChanges cls ≠ []) :
      Logged (cls :: l) s [] false s

section Receivers

variable {α : Type} {context : ContextId} {frame : UInt64} {sink : Sink α} {h : Host α}

/-- Keeping the accepted records changes nothing else in a log, and they are its batches. -/
theorem logClasses_logged (l : List String) (n : Nat) (s : Statics) (h : Host α)
    (kept : List Record) : ∃ (result : Except LogError Nat) (s' : Statics) (h' : Host α)
      (records : List Record),
      logClasses context frame sink l n s h = (result, s', h') ∧
      logClasses context frame sink.recording l n s ⟨(kept, h.app), h.events⟩ =
        (result, s', ⟨(kept ++ records, h'.app), h'.events⟩) ∧
      Logged l s (records.filterMap (·.told?)) result.isOk s' := by
  induction l generalizing n s h kept with
  | nil => exact ⟨.ok n, s, h, [], rfl, by rw [List.append_nil]; rfl, .done⟩
  | cons cls l ih =>
    unfold logClasses
    cases hp : s.pendingChanges cls with
    | nil =>
      obtain ⟨result, s', h', records, hlog, hrec, hlogged⟩ := ih n s h kept
      exact ⟨result, s', h', records, hlog, hrec, .still hp hlogged⟩
    | cons c changes =>
      have hne : s.pendingChanges cls ≠ [] := by rw [hp]; exact List.cons_ne_nil _ _
      simp only [Sink.recording]
      cases hsink : sink (.statics context frame cls (c :: changes)) h with
      | mk answer h' =>
        cases answer with
        | error e => exact ⟨.error e, s, h', [], rfl, by rw [List.append_nil], .refused hne⟩
        | ok =>
          obtain ⟨result, s', h'', records, hlog, hrec, hlogged⟩ := ih (n + (changes.length + 1))
            (s.commit cls) h' (kept ++ [.statics context frame cls (c :: changes)])
          refine ⟨result, s', h'', .statics context frame cls (c :: changes) :: records, hlog, ?_,
            ?_⟩
          · simpa using hrec
          · have hsent := Logged.sent hne hlogged
            rw [hp] at hsent
            exact hsent

/-- The classes of a log: one, or all in ascending order. -/
def targets (s : Statics) : Option String → List String
  | some cls => [cls]
  | none => s.classes

/-- A log is made of the batches that its receiver accepts. -/
theorem log_logged (s : Statics) (context : ContextId) (frame : UInt64) (cls : Option String)
    (sink : Sink α) (h : Host α) :
    Logged (s.targets cls) s (s.accepted context frame cls sink h)
      (s.log context frame cls sink h).1.isOk (s.log context frame cls sink h).2.1 := by
  obtain ⟨result, s', h', records, hlog, hrec, hlogged⟩ :=
    @logClasses_logged _ context frame sink (s.targets cls) 0 s h []
  unfold accepted log
  cases cls <;> simp only [targets] at hlog hrec hlogged <;> rw [hlog, hrec] <;> exact hlogged

/-- Where no class has changes, a log sends nothing. -/
theorem log_silent (hs : s.baseline = s.values) (cls : Option String) :
    s.log context frame cls sink h = (.ok 0, s, h) := by
  have key (l : List String) (n : Nat) : logClasses context frame sink l n s h = (.ok n, s, h) := by
    induction l with
    | nil => rfl
    | cons cls l ih =>
      rw [logClasses, pendingChanges_eq_nil_iff.2 (congrFun hs cls)]
      exact ih
  exact key _ 0

end Receivers

/-- A receiver with the baselines finds every batch exact, and has the baselines afterwards. -/
theorem Logged.hears {through : Bool} (h : Logged l s T through s') :
    AllExact s.baseline T ∧ s.baseline.hearAll T = s'.baseline := by
  induction h with
  | done | refused => exact ⟨trivial, rfl⟩
  | still _ _ ih => exact ih
  | sent h _ ih =>
    rw [← hear_pendingChanges] at ih
    exact ⟨⟨pendingChanges_exact h, ih.1⟩, ih.2⟩

/-- After a log that is through, its classes have no changes. -/
theorem Logged.no_changes (h : Logged l s T true s')
    (hc : cls ∈ l ∨ s.baseline cls = s.values cls) : s'.baseline cls = s'.values cls := by
  generalize hb : true = through at h
  induction h with
  | done => exact hc.resolve_left List.not_mem_nil
  | @still cls' l s T _ s' hp _ ih =>
    refine ih (hc.elim (fun hm => ?_) .inr) hb
    rcases List.mem_cons.1 hm with rfl | hm
    · exact .inr (pendingChanges_eq_nil_iff.1 hp)
    · exact .inl hm
  | @sent cls' l s T _ s' hp _ ih =>
    refine ih ?_ hb
    by_cases he : cls = cls'
    · exact .inr (by rw [baseline_commit, values_commit, he, Function.update_self])
    · rw [baseline_commit, values_commit, Function.update_of_ne he]
      exact hc.imp_left fun hm => (List.mem_cons.1 hm).resolve_left he
  | refused => cases hb

theorem mem_classes : cls ∈ s.classes ↔
    (s.live.get? cls).isSome = true ∨ (s.baselines.get? cls).isSome = true := by
  have hfold (l : List (String × Variables)) (m : SortedMap String Unit) :
      ((l.foldl (fun m e => m.insert e.1 ()) m).get? cls).isSome = true ↔
        (m.get? cls).isSome = true ∨ ∃ e ∈ l, e.1 = cls := by
    induction l generalizing m with
    | nil => simp
    | cons e l ih =>
      rw [List.foldl_cons, ih, SortedMap.get?_insert]
      split
      · next he => simp [he]
      · next he => simp [Ne.symm he]
  have hentry : (∃ e ∈ s.baselines.toList, e.1 = cls) ↔ (s.baselines.get? cls).isSome = true := by
    rw [← SortedMap.mem_keys, SortedMap.keys, List.mem_map]
  rw [classes, SortedMap.mem_keys, hfold, hentry, SortedMap.get?_mapValues, Option.isSome_map]

/-- After a log of all classes that is through, the baselines are the live values. -/
theorem Logged.caught_up (h : Logged s.classes s T true s') : s'.baseline = s'.values := by
  funext cls
  refine h.no_changes ?_
  by_cases hm : cls ∈ s.classes
  · exact .inl hm
  · rw [mem_classes, not_or, Option.not_isSome_iff_eq_none, Option.not_isSome_iff_eq_none] at hm
    rw [baseline, values, hm.1, hm.2]
    exact .inr rfl

/-! ## Steps -/

/-- What one operation makes of the static variables of a context whose classes are declared in
`types`, and what a receiver is told. -/
inductive Step (types : Hierarchy) : Statics → List Told → Statics → Prop
  /-- A variable is set. -/
  | set {s s' : Statics} {cls name : String} {v : Value} (h : s.set types cls name v = .ok s') : Step types s [] s'
  /-- Classes are logged. -/
  | log {l : List String} {s s' : Statics} {T : List Told} {through : Bool} (h : Logged l s T through s') : Step types s T s'
  /-- Nothing counts as logged any more. -/
  | clear {s : Statics} : Step types s [.cleared] s.clearBaselines
  /-- A snapshot is loaded, whose classes are declared. -/
  | replace {s : Statics} {live baselines : SortedMap String Variables}
      (h : ∀ cls ∈ baselines.keys ++ live.keys, types.contains cls = true) :
      Step types s [.loaded baselines] { live, baselines }

variable {types : Hierarchy}

theorem Step.rest : Step types s [] s := .log .done

/-- A receiver with the baselines finds every batch exact, and has the baselines afterwards. -/
theorem Step.hears (h : Step types s T s') :
    AllExact s.baseline T ∧ s.baseline.hearAll T = s'.baseline := by
  cases h with
  | set h =>
    unfold Statics.set at h
    split at h
    · cases h
    split at h
    · cases h
    cases h
    exact ⟨trivial, rfl⟩
  | log h => exact h.hears
  | clear => exact ⟨⟨trivial, trivial⟩, rfl⟩
  | replace => exact ⟨⟨trivial, trivial⟩, rfl⟩

end Statics

end AgentScheduler
