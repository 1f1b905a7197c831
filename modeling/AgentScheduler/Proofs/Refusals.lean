/-
Where a log of static variables ends. A log offers its receiver one batch for
each class with changes, in ascending order, up to the first refusal, and keeps
exactly what was accepted (`Ending`). So a refusal leaves its class and all
later ones as they were, and a log that is made again sends just these
(`log_commits_accepted`).
-/
import AgentScheduler.Proofs.Batches

namespace AgentScheduler

/-! ## What a receiver is offered -/

/-- A record that a receiver was offered, and its answer. -/
abbrev Offer := Record × Except LogError Unit

section Noting

variable {α : Type}

/-- A receiver that also notes every record it is offered, with its answer, in order. -/
def Sink.noting (sink : Sink α) : Sink (List Offer × α) := fun r h =>
  let (answer, h') := sink r ⟨h.app.2, h.events⟩
  (answer, ⟨(h.app.1 ++ [(r, answer)], h'.app), h'.events⟩)

/-- The receiver refuses nothing. -/
def Sink.Accepting (sink : Sink α) : Prop := ∀ r h, (sink r h).1 = .ok ()

/-- What a log offers the receiver, with its answers. -/
def Statics.offers (s : Statics) (context : ContextId) (frame : UInt64) (target : Option String)
    (sink : Sink α) (h : Host α) : List Offer :=
  (s.log context frame target sink.noting ⟨([], h.app), h.events⟩).2.2.app.1

end Noting

namespace Statics

variable {s s' : Statics} {cls k : String} {l before after : List String} {n : Nat}
  {context : ContextId} {frame : UInt64} {target : Option String} {offers : List Offer}
  {result : Except LogError Nat}

/-- The record of the changes of a class. -/
def batch (s : Statics) (context : ContextId) (frame : UInt64) (cls : String) : Record :=
  .statics context frame cls (s.pendingChanges cls)

/-- The batch of a class, accepted. -/
def sent (s : Statics) (context : ContextId) (frame : UInt64) (cls : String) : Offer :=
  (s.batch context frame cls, .ok ())

/-- The classes of a log that have changes, in the order of the log. -/
def due (s : Statics) (target : Option String) : List String :=
  (s.targets target).filter fun cls => s.pendingChanges cls ≠ []

/-- The class is one of those to be logged. -/
def Covers (target : Option String) (cls : String) : Prop := ∀ c ∈ target, c = cls

/-! ## Committed classes -/

theorem pendingChanges_commit (s : Statics) (cls c : String) :
    (s.commit cls).pendingChanges c = if c = cls then [] else s.pendingChanges c := by
  split
  · next h =>
    subst h
    rw [pendingChanges_eq_nil_iff, baseline_commit, values_commit, Function.update_self]
  · next h =>
    rw [pendingChanges_eq, baseline_commit, values_commit, Function.update_of_ne h,
      pendingChanges_eq]

theorem baselines_commit_of_ne (s : Statics) {cls c : String} (h : c ≠ cls) :
    (s.commit cls).baselines.get? c = s.baselines.get? c := by
  unfold commit
  split
  · rw [SortedMap.get?_insert, if_neg h]
  · rw [SortedMap.get?_erase, if_neg h]

/-- The live values of the classes are their baselines. -/
def commitAll (s : Statics) (l : List String) : Statics := l.foldl commit s

theorem live_commitAll (s : Statics) (l : List String) : (s.commitAll l).live = s.live := by
  induction l generalizing s with
  | nil => rfl
  | cons cls l ih => exact ih (s.commit cls)

theorem pendingChanges_commitAll (s : Statics) (l : List String) (c : String) :
    (s.commitAll l).pendingChanges c = if c ∈ l then [] else s.pendingChanges c := by
  induction l generalizing s with
  | nil => rfl
  | cons cls l ih =>
    show ((s.commit cls).commitAll l).pendingChanges c = _
    rw [ih, pendingChanges_commit]
    by_cases hl : c ∈ l
    · rw [if_pos hl, if_pos (List.mem_cons_of_mem cls hl)]
    · simp only [hl, if_false, List.mem_cons, or_false]

theorem baselines_commitAll (s : Statics) {c : String} (h : c ∉ l) :
    (s.commitAll l).baselines.get? c = s.baselines.get? c := by
  induction l generalizing s with
  | nil => rfl
  | cons cls l ih =>
    rw [List.mem_cons, not_or] at h
    show ((s.commit cls).commitAll l).baselines.get? c = _
    rw [ih _ h.2, baselines_commit_of_ne s h.1]

/-! ## How a log ends -/

/-- How a log of the classes `l`, which all have changes, ends after `n` changes were sent before:
what was offered, the answer, and the static variables afterwards. -/
inductive Ending (context : ContextId) (frame : UInt64) (s : Statics) :
    List String → Nat → List Offer → Except LogError Nat → Statics → Prop
  /-- Every batch is accepted. -/
  | through (l : List String) (n : Nat) : Ending context frame s l n (l.map (s.sent context frame))
      (.ok (n + (l.flatMap s.pendingChanges).length)) (s.commitAll l)
  /-- The batch of the class `k` is refused. -/
  | refused (before : List String) (k : String) (after : List String) (n : Nat) (e : LogError) :
      Ending context frame s (before ++ k :: after) n
        (before.map (s.sent context frame) ++ [(s.batch context frame k, .error e)]) (.error e)
        (s.commitAll before)

theorem sent_commit (s : Statics) (context : ContextId) (frame : UInt64) (h : cls ∉ l) :
    l.map ((s.commit cls).sent context frame) = l.map (s.sent context frame) := by
  refine List.map_congr_left fun c hc => ?_
  have hne : c ≠ cls := fun he => h (he ▸ hc)
  rw [sent, batch, pendingChanges_commit, if_neg hne]
  rfl

/-- One more class in front, whose batch was accepted. -/
theorem Ending.cons (hcls : cls ∉ l) (h : Ending context frame (s.commit cls) l
      (n + (s.pendingChanges cls).length) offers result s') :
    Ending context frame s (cls :: l) n (s.sent context frame cls :: offers) result s' := by
  cases h with
  | through =>
    have hchanges : l.flatMap (s.commit cls).pendingChanges = l.flatMap s.pendingChanges := by
      rw [List.flatMap_def, List.flatMap_def]
      refine congrArg List.flatten (List.map_congr_left fun c hc => ?_)
      rw [pendingChanges_commit, if_neg fun (he : c = cls) => hcls (he ▸ hc)]
    have htotal : n + ((cls :: l).flatMap s.pendingChanges).length =
        n + (s.pendingChanges cls).length + (l.flatMap s.pendingChanges).length := by
      rw [List.flatMap_cons, List.length_append, Nat.add_assoc]
    rw [hchanges, sent_commit s context frame hcls, ← htotal]
    exact .through (cls :: l) n
  | refused before k after _ e =>
    have hbefore : cls ∉ before := fun h => hcls (List.mem_append_left _ h)
    have hk : k ≠ cls := fun he => hcls (he ▸ List.mem_append_right _ List.mem_cons_self)
    rw [sent_commit s context frame hbefore, batch, pendingChanges_commit, if_neg hk]
    exact .refused (cls :: before) k after n e

section Receivers

variable {α : Type} {sink : Sink α}

/-- A log passes over the classes without changes and comes to an end with the others. Noting what
is offered changes nothing else in it, and the answers are the receiver's. -/
theorem logClasses_ending (context : ContextId) (frame : UInt64) (sink : Sink α) (hl : l.Nodup)
    (n : Nat) (s : Statics) (h : Host α) (noted : List Offer) :
    ∃ (result : Except LogError Nat) (s' : Statics) (h' : Host α) (offers : List Offer),
      logClasses context frame sink l n s h = (result, s', h') ∧
      logClasses context frame sink.noting l n s ⟨(noted, h.app), h.events⟩ =
        (result, s', ⟨(noted ++ offers, h'.app), h'.events⟩) ∧
      (∀ o ∈ offers, ∃ g, o.2 = (sink o.1 g).1) ∧
      Ending context frame s (l.filter fun cls => s.pendingChanges cls ≠ []) n offers result s' := by
  induction l generalizing n s h noted with
  | nil => exact ⟨.ok n, s, h, [], rfl, by rw [List.append_nil]; rfl, by simp, .through [] n⟩
  | cons cls l ih =>
    obtain ⟨hcls, hl⟩ := List.nodup_cons.1 hl
    unfold logClasses
    cases hp : s.pendingChanges cls with
    | nil =>
      rw [List.filter_cons_of_neg (by simp [hp])]
      exact ih hl n s h noted
    | cons change changes =>
      rw [List.filter_cons_of_pos (by simp [hp])]
      have hbatch : s.batch context frame cls = .statics context frame cls (change :: changes) := by
        rw [batch, hp]
      dsimp only [Sink.noting]
      rw [← hbatch]
      cases hr : sink (s.batch context frame cls) h with
      | mk answer h' =>
        have hanswer : ∃ g, answer = (sink (s.batch context frame cls) g).1 := ⟨h, by rw [hr]⟩
        cases answer with
        | error e =>
          exact ⟨.error e, s, h', [(s.batch context frame cls, .error e)], rfl, rfl,
            by simpa using hanswer, .refused [] cls _ n e⟩
        | ok =>
          obtain ⟨result, s', h'', offers, hlog, hnoting, hanswers, hending⟩ :=
            ih hl (n + (changes.length + 1)) (s.commit cls) h'
              (noted ++ [s.sent context frame cls])
          refine ⟨result, s', h'', s.sent context frame cls :: offers, hlog, ?_,
            List.forall_mem_cons.2 ⟨hanswer, hanswers⟩, ?_⟩
          · rw [List.append_assoc] at hnoting
            exact hnoting
          · -- the other classes have the changes that they had before the commit
            have hrest : (l.filter fun c => (s.commit cls).pendingChanges c ≠ []) =
                l.filter fun c => s.pendingChanges c ≠ [] := by
              refine List.filter_congr fun c hc => ?_
              rw [pendingChanges_commit, if_neg fun (he : c = cls) => hcls (he ▸ hc)]
            rw [hrest] at hending
            refine .cons (fun hm => hcls (List.mem_filter.1 hm).1) ?_
            rw [hp]
            exact hending

end Receivers

/-! ## The classes of a log -/

theorem targets_ascend (s : Statics) (target : Option String) :
    (s.targets target).Pairwise fun c d => compare c d = .lt := by
  cases target with
  | none => exact List.pairwise_map.2 (SortedMap.ascending _)
  | some cls => exact List.pairwise_singleton _ cls

theorem due_ascend (s : Statics) (target : Option String) :
    (s.due target).Pairwise fun c d => compare c d = .lt := (targets_ascend s target).filter _

theorem mem_due : cls ∈ s.due target ↔ Covers target cls ∧ s.pendingChanges cls ≠ [] := by
  rw [due, List.mem_filter, decide_eq_true_iff]
  refine and_congr_left fun hp => ?_
  cases target with
  | some c => simp [targets, Covers, eq_comm]
  | none =>
    refine iff_of_true ?_ (by simp [Covers])
    rw [targets, mem_classes]
    refine Decidable.byContradiction fun hnot => hp ?_
    rw [not_or, Option.not_isSome_iff_eq_none, Option.not_isSome_iff_eq_none] at hnot
    rw [pendingChanges_eq_nil_iff, baseline, values, hnot.1, hnot.2]

/-- Every class of the log without changes is no longer due. -/
theorem pendingChanges_of_not_due (h : cls ∉ s.due target) (hc : Covers target cls) :
    s.pendingChanges cls = [] := by
  rw [mem_due, not_and, not_not] at h
  exact h hc

/-! ## Logs -/

/-- Every batch of a log was accepted. -/
structure Through (s : Statics) (context : ContextId) (frame : UInt64) (target : Option String)
    (offers : List Offer) (result : Except LogError Nat) (s' : Statics) : Prop where
  offers : offers = (s.due target).map (s.sent context frame)
  /-- The answer is the number of all changes. -/
  result : result = .ok ((s.due target).flatMap s.pendingChanges).length
  caughtUp : ∀ cls, Covers target cls → s'.pendingChanges cls = []
  untouched : ∀ cls, ¬Covers target cls → s'.baselines.get? cls = s.baselines.get? cls

/-- The batch of the class `k` was refused. -/
structure RefusedAt (s : Statics) (context : ContextId) (frame : UInt64) (target : Option String)
    (before : List String) (k : String) (after : List String) (e : LogError) (offers : List Offer)
    (result : Except LogError Nat) (s' : Statics) : Prop where
  due : s.due target = before ++ k :: after
  offers : offers = before.map (s.sent context frame) ++ [(s.batch context frame k, .error e)]
  result : result = .error e
  committed : ∀ cls, Covers target cls → compare cls k = .lt → s'.baseline cls = s'.values cls
  untouched : ∀ cls, ¬(Covers target cls ∧ compare cls k = .lt) →
    s'.baselines.get? cls = s.baselines.get? cls
  /-- If the log is made again and accepted, it sends the changes of `k` and the later classes. -/
  retry : ∀ (β : Type) (context' : ContextId) (frame' : UInt64) (sink : Sink β) (h : Host β),
    sink.Accepting → s'.offers context' frame' target sink h =
      (k :: after).map (s.sent context' frame')

/-- What a log of one class or of all does, whatever its receiver accepts. -/
structure CommitsAccepted {α : Type} (s : Statics) (context : ContextId) (frame : UInt64)
    (target : Option String) (sink : Sink α) (h : Host α) : Prop where
  ascend : (s.due target).Pairwise fun c d => compare c d = .lt
  due : ∀ cls, cls ∈ s.due target ↔ Covers target cls ∧
    ((s.live.get? cls).isSome = true ∨ (s.baselines.get? cls).isSome = true) ∧
      s.pendingChanges cls ≠ []
  /-- Noting what is offered changes nothing else. -/
  noting : ∃ result s' h', s.log context frame target sink h = (result, s', h') ∧
    s.log context frame target sink.noting ⟨([], h.app), h.events⟩ =
      (result, s', ⟨(s.offers context frame target sink h, h'.app), h'.events⟩)
  live : (s.log context frame target sink h).2.1.live = s.live
  ends : s.Through context frame target (s.offers context frame target sink h)
      (s.log context frame target sink h).1 (s.log context frame target sink h).2.1 ∨
    ∃ before k after e, s.RefusedAt context frame target before k after e
      (s.offers context frame target sink h) (s.log context frame target sink h).1
      (s.log context frame target sink h).2.1

section Receivers

variable {α : Type} {sink : Sink α}

/-- A log comes to an end with the classes that are due. -/
theorem log_ending (s : Statics) (context : ContextId) (frame : UInt64) (target : Option String)
    (sink : Sink α) (h : Host α) : ∃ (result : Except LogError Nat) (s' : Statics) (h' : Host α),
      s.log context frame target sink h = (result, s', h') ∧
      s.log context frame target sink.noting ⟨([], h.app), h.events⟩ =
        (result, s', ⟨(s.offers context frame target sink h, h'.app), h'.events⟩) ∧
      (∀ o ∈ s.offers context frame target sink h, ∃ g, o.2 = (sink o.1 g).1) ∧
      Ending context frame s (s.due target) 0 (s.offers context frame target sink h) result s' := by
  have hnodup : (s.targets target).Nodup := (targets_ascend s target).imp fun {c d} hlt he => by
    rw [he, Std.ReflOrd.compare_self] at hlt
    cases hlt
  obtain ⟨result, s', h', offers, hlog, hnoting, hanswers, hending⟩ :=
    logClasses_ending context frame sink hnodup 0 s h []
  have hclasses {β : Type} (sink : Sink β) (h : Host β) :
      s.log context frame target sink h = logClasses context frame sink (s.targets target) 0 s h := by
    cases target <;> rfl
  have hoffers : s.offers context frame target sink h = offers := by
    rw [Statics.offers, hclasses, hnoting]
    rfl
  rw [hoffers]
  exact ⟨result, s', h', (hclasses sink h).trans hlog, (hclasses sink.noting _).trans hnoting,
    hanswers, hending⟩

/-- An accepting receiver is sent everything that is due. -/
theorem offers_accepting (hs : sink.Accepting) (s : Statics) (context : ContextId)
    (frame : UInt64) (target : Option String) (h : Host α) :
    s.offers context frame target sink h = (s.due target).map (s.sent context frame) := by
  obtain ⟨result, s', h', -, -, hanswers, hending⟩ := log_ending s context frame target sink h
  generalize s.offers context frame target sink h = offers at hanswers hending
  generalize hl : s.due target = l at hending
  cases hending with
  | through => rfl
  | refused before k after _ e =>
    obtain ⟨g, hg⟩ := hanswers (s.batch context frame k, .error e) (by simp)
    rw [hs] at hg
    cases hg

/-- What is due once the classes in front were committed. -/
theorem due_commitAll (h : s.due target = before ++ l) : (s.commitAll before).due target = l := by
  have hascend := h ▸ due_ascend s target
  obtain ⟨-, hl, hacross⟩ := List.pairwise_append.1 hascend
  refine SortedMap.eq_of_ascending id (due_ascend _ target) hl fun cls => ?_
  have hcls : cls ∈ before ++ l ↔ Covers target cls ∧ s.pendingChanges cls ≠ [] := h ▸ mem_due
  rw [mem_due, pendingChanges_commitAll]
  by_cases hb : cls ∈ before
  · refine iff_of_false (by simp [hb]) fun hl => ?_
    have := hacross cls hb cls hl
    rw [Std.ReflOrd.compare_self] at this
    cases this
  · rw [if_neg hb, ← hcls, List.mem_append, or_iff_right hb]

theorem refusedAt_commitAll (h : s.due target = before ++ k :: after) (e : LogError) :
    s.RefusedAt context frame target before k after e
      (before.map (s.sent context frame) ++ [(s.batch context frame k, .error e)]) (.error e)
      (s.commitAll before) := by
  have hascend := h ▸ due_ascend s target
  obtain ⟨-, hlater, hacross⟩ := List.pairwise_append.1 hascend
  refine ⟨h, rfl, rfl, fun cls hc hlt => ?_, fun cls hnot => ?_, ?_⟩
  · rw [← pendingChanges_eq_nil_iff, pendingChanges_commitAll]
    split
    · rfl
    · next hb =>
      -- a class before `k` that is due was accepted
      refine pendingChanges_of_not_due (fun hdue => ?_) hc
      rw [h, List.mem_append, or_iff_right hb] at hdue
      rcases List.mem_cons.1 hdue with rfl | hmem
      · rw [Std.ReflOrd.compare_self] at hlt
        cases hlt
      · rw [Std.OrientedCmp.gt_of_lt ((List.pairwise_cons.1 hlater).1 cls hmem)] at hlt
        cases hlt
  · refine baselines_commitAll s fun hb => hnot ⟨?_, hacross cls hb k List.mem_cons_self⟩
    exact (mem_due.1 (h ▸ List.mem_append_left _ hb : cls ∈ s.due target)).1
  · intro β context' frame' sink' g hs
    rw [offers_accepting hs, due_commitAll h]
    refine List.map_congr_left fun cls hcls => ?_
    have hb : cls ∉ before := fun hb => by
      have := hacross cls hb cls hcls
      rw [Std.ReflOrd.compare_self] at this
      cases this
    rw [sent, batch, pendingChanges_commitAll, if_neg hb]
    rfl

/-- A log offers the changes of its classes in ascending order up to the first refusal, and commits
exactly the classes whose changes were accepted. -/
theorem log_commits_accepted (s : Statics) (context : ContextId) (frame : UInt64)
    (target : Option String) (sink : Sink α) (h : Host α) :
    s.CommitsAccepted context frame target sink h := by
  obtain ⟨result, s', h', hlog, hnoting, -, hending⟩ := log_ending s context frame target sink h
  have hdue (cls : String) : cls ∈ s.due target ↔ Covers target cls ∧
      ((s.live.get? cls).isSome = true ∨ (s.baselines.get? cls).isSome = true) ∧
        s.pendingChanges cls ≠ [] := by
    rw [mem_due]
    refine and_congr_right fun _ => (and_iff_right_of_imp fun hp => ?_).symm
    exact mem_classes.1 (List.mem_filter.1 (mem_due.2 ⟨by simp [Covers], hp⟩ :
      cls ∈ s.due none)).1
  refine ⟨due_ascend s target, hdue, ⟨result, s', h', hlog, hnoting⟩, ?_, ?_⟩
  · rw [hlog]
    generalize s.offers context frame target sink h = offers at hending
    generalize s.due target = l at hending
    cases hending with
    | through | refused => exact live_commitAll s _
  · rw [hlog]
    generalize s.offers context frame target sink h = offers at hending
    generalize hl : s.due target = l at hending
    cases hending with
    | refused before k after _ e => exact .inr ⟨before, k, after, e, refusedAt_commitAll hl e⟩
    | through =>
      refine .inl ⟨by rw [hl], by rw [hl, Nat.zero_add], fun cls hc => ?_, fun cls hc => ?_⟩
      · rw [pendingChanges_commitAll]
        split
        · rfl
        · next hnot => exact pendingChanges_of_not_due (hl ▸ hnot) hc
      · exact baselines_commitAll s fun hmem => hc (mem_due.1 (hl ▸ hmem : cls ∈ s.due target)).1

end Receivers

section Sample

/-- A class with new values, one with other values than before, and one that has values no more. -/
def changedStatics : Statics where
  live := .ofList [("Alien", .ofList [("count", .int 1)]), ("Boss", .ofList [("hp", .int 7)])]
  baselines := .ofList [("Boss", .ofList [("hp", .int 9)]), ("Crow", .ofList [("seen", .bool true)])]

/-- Refuses the changes of one class. -/
def refusingSink (cls : String) : Sink Unit
  | .statics _ _ c _, h => if c = cls then (.error (.sink "full"), h) else (.ok (), h)
  | .state .., h => (.ok (), h)

theorem log_commits_accepted_sample :
    (changedStatics.offers ⟨1⟩ 5 none (refusingSink "Boss") { app := () }).map (·.2.isOk) =
      [true, false] ∧
    changedStatics.CommitsAccepted ⟨1⟩ 5 none (refusingSink "Boss") { app := () } := by
  refine ⟨by decide +kernel, ?_⟩
  exact log_commits_accepted changedStatics ⟨1⟩ 5 none (refusingSink "Boss") { app := () }

end Sample

end Statics

end AgentScheduler
