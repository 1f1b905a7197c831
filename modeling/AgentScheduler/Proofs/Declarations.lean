/-
Building a hierarchy goes through three lists of declarations, one after the other: classes,
instance names, static variables. Each stage either comes to the end of its list, and then
the hierarchy has exactly what the list declares, or stops at a declaration that does not
fit those before it. So exactly the well-formed declarations are accepted (`buildIn_cases`).

The stage of the classes depends only on which classes are declared with which parents, not
on the order in which they are declared or checked (`declareClasses_congr`).
-/
import AgentScheduler.Proofs.Ancestry
import Mathlib.Data.List.Induction

namespace AgentScheduler

/-- Which failure it is, whatever it names. -/
def AgentError.kind (e : AgentError) : Nat := e.ctorIdx

namespace Hierarchy

open Relation

variable {h h' h₀ : Hierarchy} {ds ds' : List Declaration} {cls name : String}
  {parent : Option String} {order order' : List String → List String}
  {l l' : List (String × Option String)} {ns : List (String × String)}
  {vs : List (String × String × Value)}

/-- A fold that may fail goes through the whole list or fails at one of its members. Until then
every step keeps the invariant, which speaks about the members gone through. -/
theorem foldlM_cases {ε β γ : Type} {f : β → γ → Except ε β} {P : List γ → β → Prop} {b : β}
    (hb : P [] b) (hstep : ∀ pre d b b', P pre b → f b d = .ok b' → P (pre ++ [d]) b')
    (l : List γ) : (∃ b', l.foldlM f b = .ok b' ∧ P l b') ∨
      ∃ e, l.foldlM f b = .error e ∧
        ∃ before d after b', l = before ++ d :: after ∧ P before b' ∧ f b' d = .error e := by
  induction l using List.reverseRecOn with
  | nil => exact .inl ⟨b, rfl, hb⟩
  | append_singleton l d ih =>
    rw [List.foldlM_append]
    rcases ih with ⟨b', hl, hP⟩ | ⟨e, hl, before, d', after, b', rfl, hP, hd⟩
    · have hlast : (l.foldlM f b >>= fun b => [d].foldlM f b) = f b' d := by
        rw [hl]
        exact bind_pure (f b' d)
      rw [hlast]
      cases hd : f b' d with
      | ok b'' => exact .inl ⟨b'', rfl, hstep l d b' b'' hP hd⟩
      | error e => exact .inr ⟨e, rfl, l, d, [], b', rfl, hP, hd⟩
    · exact .inr ⟨e, by rw [hl]; rfl, before, d', after ++ [d], b', by simp, hP, hd⟩

/-! ## The three lists -/

@[simp] theorem mem_classDecls :
    (cls, parent) ∈ classDecls ds ↔ Declaration.cls cls parent ∈ ds := by
  simp only [classDecls, List.mem_filterMap]
  constructor
  · rintro ⟨d, hd, he⟩
    split at he <;> cases he
    exact hd
  · exact fun hd => ⟨_, hd, rfl⟩

@[simp] theorem mem_nameDecls :
    (cls, name) ∈ nameDecls ds ↔ Declaration.instanceName cls name ∈ ds := by
  simp only [nameDecls, List.mem_filterMap]
  constructor
  · rintro ⟨d, hd, he⟩
    split at he <;> cases he
    exact hd
  · exact fun hd => ⟨_, hd, rfl⟩

@[simp] theorem mem_staticDecls {v : Value} :
    (cls, name, v) ∈ staticDecls ds ↔ Declaration.static cls name v ∈ ds := by
  simp only [staticDecls, List.mem_filterMap]
  constructor
  · rintro ⟨d, hd, he⟩
    split at he <;> cases he
    exact hd
  · exact fun hd => ⟨_, hd, rfl⟩

/-- The value that is declared last for a static variable. -/
def lastValue? (vs : List (String × String × Value)) (cls name : String) : Option Value :=
  (vs.filterMap fun d => if d.1 = cls ∧ d.2.1 = name then some d.2.2 else none).getLast?

theorem lastValue?_append (vs : List (String × String × Value)) (c n : String) (v : Value) :
    lastValue? (vs ++ [(c, n, v)]) cls name =
      if c = cls ∧ n = name then some v else lastValue? vs cls name := by
  simp only [lastValue?, List.filterMap_append, List.getLast?_append]
  by_cases hd : c = cls ∧ n = name <;> simp [hd]

theorem mem_of_lastValue? {v : Value} (hv : lastValue? vs cls name = some v) :
    (cls, name, v) ∈ vs := by
  obtain ⟨d, hd, he⟩ := List.mem_filterMap.1 (List.mem_of_getLast? hv)
  split at he
  · next hc =>
    obtain ⟨rfl, rfl⟩ := hc
    exact Option.some.inj he ▸ hd
  · cases he

/-! ## Classes -/

/-- Exactly these classes, with nothing else. -/
structure HasClasses (l : List (String × Option String)) (h : Hierarchy) : Prop where
  names : h.instanceNames = .empty
  classes : ∀ cls info,
    h.classes.get? cls = some info ↔ (cls, info.parent) ∈ l ∧ info.statics = .empty

/-- The classes fit together. -/
structure Forest (l : List (String × Option String)) : Prop where
  oneParent : ∀ cls p p', (cls, p) ∈ l → (cls, p') ∈ l → p = p'
  parents : ∀ cls parent, (cls, some parent) ∈ l → ∃ p, (parent, p) ∈ l
  acyclic : ∀ cls, ¬TransGen (fun cls parent => (cls, some parent) ∈ l) cls cls

namespace HasClasses

theorem nil : HasClasses [] {} where
  names := rfl
  classes _ _ := by simp [SortedMap.get?_empty]

theorem get?_of_mem (hl : HasClasses l h) (hm : (cls, parent) ∈ l) :
    h.classes.get? cls = some { parent } :=
  (hl.classes cls { parent }).2 ⟨hm, rfl⟩

theorem oneParent (hl : HasClasses l h) {p p' : Option String} (hp : (cls, p) ∈ l)
    (hp' : (cls, p') ∈ l) : p = p' := by
  have he := (hl.get?_of_mem hp).symm.trans (hl.get?_of_mem hp')
  cases he
  rfl

theorem contains_iff (hl : HasClasses l h) : h.contains cls = true ↔ ∃ p, (cls, p) ∈ l := by
  rw [contains, SortedMap.contains, Option.isSome_iff_exists]
  exact ⟨fun ⟨info, hi⟩ => ⟨_, ((hl.classes cls info).1 hi).1⟩,
    fun ⟨_, hm⟩ => ⟨_, hl.get?_of_mem hm⟩⟩

theorem extends_iff (hl : HasClasses l h) (cls parent : String) :
    h.Extends cls parent ↔ (cls, some parent) ∈ l := by
  rw [Extends, parent?, Option.bind_eq_some_iff]
  constructor
  · rintro ⟨info, hi, hp⟩
    exact hp ▸ ((hl.classes cls info).1 hi).1
  · exact fun hm => ⟨_, hl.get?_of_mem hm, rfl⟩

/-- A list of classes has one hierarchy, whatever its order. -/
theorem unique (hl : HasClasses l h) (hl' : HasClasses l' h') (hmem : ∀ d, d ∈ l ↔ d ∈ l') :
    h = h' := by
  have hclasses : h.classes = h'.classes := SortedMap.ext_get? fun cls => Option.ext fun info => by
    rw [hl.classes, hl'.classes, hmem]
  obtain ⟨classes, names⟩ := h
  obtain ⟨classes', names'⟩ := h'
  cases hclasses
  cases hl.names
  cases hl'.names
  rfl

theorem forest_iff (hl : HasClasses l h) : Forest l ↔ h.Rooted := by
  have hrel : h.Extends = fun cls parent => (cls, some parent) ∈ l := by
    funext cls parent
    exact propext (hl.extends_iff cls parent)
  constructor
  · intro hf
    refine ⟨fun cls parent hp => ?_, hrel ▸ hf.acyclic⟩
    exact hl.contains_iff.2 (hf.parents cls parent ((hl.extends_iff cls parent).1 hp))
  · intro hr
    refine ⟨fun cls p p' => hl.oneParent, fun cls parent hp => ?_, hrel ▸ hr.acyclic⟩
    exact hl.contains_iff.1 (hr.closed cls parent ((hl.extends_iff cls parent).2 hp))

theorem step (hl : HasClasses l h) (hd : h.declareClass cls parent = .ok h') :
    HasClasses (l ++ [(cls, parent)]) h' := by
  unfold declareClass at hd
  cases hi : h.classes.get? cls with
  | some info =>
    simp only [hi] at hd
    split at hd
    · next he =>
      -- the same declaration again
      cases hd
      have hold : (cls, parent) ∈ l := he ▸ ((hl.classes cls info).1 hi).1
      refine ⟨hl.names, fun cls' info' => ?_⟩
      rw [hl.classes, List.mem_append, List.mem_singleton]
      exact and_congr_left fun _ => ⟨.inl, fun hm => hm.elim id fun hm => hm ▸ hold⟩
    · cases hd
  | none =>
    simp only [hi] at hd
    cases hd
    refine ⟨hl.names, fun cls' info' => ?_⟩
    rw [SortedMap.get?_insert, List.mem_append, List.mem_singleton, Prod.mk.injEq]
    split
    · next he =>
      subst he
      have hnew : ∀ p, (cls', p) ∉ l := fun p hm => by
        rw [hl.get?_of_mem hm] at hi
        cases hi
      obtain ⟨p, statics⟩ := info'
      simp only [Option.some.injEq, ClassInfo.mk.injEq, hnew, false_or, true_and]
      exact ⟨fun ⟨hp, hs⟩ => ⟨hp.symm, hs.symm⟩, fun ⟨hp, hs⟩ => ⟨hp.symm, hs.symm⟩⟩
    · next hne => simp only [hl.classes, hne, false_and, or_false]

theorem refused (hl : HasClasses l h) {e : AgentError}
    (hd : h.declareClass cls parent = .error e) :
    e = .registration (.twoParents cls) ∧ ∃ p, (cls, p) ∈ l ∧ p ≠ parent := by
  unfold declareClass at hd
  split at hd
  · next info hi =>
    split at hd
    · cases hd
    · next hne =>
      cases hd
      exact ⟨rfl, _, ((hl.classes cls info).1 hi).1, hne⟩
  · cases hd

end HasClasses

theorem perm_findSome? (horder : ∀ l, (order l).Perm l) : (order h.classes.keys).findSome?
    h.parentFault? = none ↔ ∀ cls ∈ h.classes.keys, h.parentFault? cls = none := by
  simp only [List.findSome?_eq_none_iff, (horder _).mem_iff]

/-- Classes are taken up if they fit together; otherwise the failure is one of registration. -/
theorem declareClasses_cases (horder : ∀ l, (order l).Perm l) (l : List (String × Option String)) :
    (∃ h, declareClasses order l = .ok h ∧ HasClasses l h ∧ Forest l) ∨
      (∃ fault, declareClasses order l = .error (.registration fault)) ∧ ¬Forest l := by
  unfold declareClasses
  rcases foldlM_cases (f := fun h d => declareClass h d.1 d.2) HasClasses.nil
      (fun _ _ _ _ hl hd => hl.step hd) l with
    ⟨h, hok, hl⟩ | ⟨e, herr, before, d, after, h, rfl, hl, hd⟩
  · rw [hok, hl.forest_iff, ← parentFaults_eq_none_iff, ← perm_findSome? horder]
    dsimp only [bind, Except.bind]
    cases (order h.classes.keys).findSome? h.parentFault? with
    | some fault => exact .inr ⟨⟨fault, rfl⟩, Option.some_ne_none fault⟩
    | none => exact .inl ⟨h, rfl, hl, rfl⟩
  · rw [herr]
    obtain ⟨rfl, p, hp, hne⟩ := hl.refused hd
    exact .inr ⟨⟨_, rfl⟩, fun hf =>
      hne (hf.oneParent d.1 p d.2 (List.mem_append_left _ hp) (by simp))⟩

/-! ## Instance names -/

/-- The hierarchy with exactly these instance names, each of a declared class. -/
structure HasNames (h₀ : Hierarchy) (ns : List (String × String)) (h : Hierarchy) : Prop where
  classes : h.classes = h₀.classes
  known : ∀ cls name, (cls, name) ∈ ns → h₀.contains cls = true
  names : ∀ cls name, h.instanceClass? name = some cls ↔ (cls, name) ∈ ns

namespace HasNames

theorem nil (hn : h₀.instanceNames = .empty) : HasNames h₀ [] h₀ where
  classes := rfl
  known _ _ hm := nomatch hm
  names _ _ := by simp [instanceClass?, hn]

theorem oneOwner (hn : HasNames h₀ ns h) {cls cls' : String} (hc : (cls, name) ∈ ns)
    (hc' : (cls', name) ∈ ns) : cls = cls' :=
  Option.some.inj (((hn.names cls name).2 hc).symm.trans ((hn.names cls' name).2 hc'))

theorem contains_eq (hn : HasNames h₀ ns h) : h.contains cls = h₀.contains cls := by
  rw [contains, hn.classes, contains]

theorem step (hn : HasNames h₀ ns h) (hd : h.declareInstanceName cls name = .ok h') :
    HasNames h₀ (ns ++ [(cls, name)]) h' := by
  unfold declareInstanceName at hd
  rw [hn.contains_eq] at hd
  split at hd
  · cases hd
  next hc =>
  have hknown : ∀ cls' name', (cls', name') ∈ ns ++ [(cls, name)] → h₀.contains cls' = true := by
    intro cls' name' hm
    rcases List.mem_append.1 hm with hm | hm
    · exact hn.known cls' name' hm
    · cases List.mem_singleton.1 hm
      simpa using hc
  split at hd
  · next owner ho =>
    split at hd
    · next he =>
      cases hd
      have hold : (cls, name) ∈ ns := he ▸ (hn.names owner name).1 ho
      refine ⟨hn.classes, hknown, fun cls' name' => ?_⟩
      rw [hn.names, List.mem_append, List.mem_singleton]
      exact ⟨.inl, fun hm => hm.elim id fun hm => hm ▸ hold⟩
    · cases hd
  · next ho =>
    cases hd
    refine ⟨hn.classes, hknown, fun cls' name' => ?_⟩
    rw [instanceClass?, SortedMap.get?_insert, List.mem_append, List.mem_singleton, Prod.mk.injEq]
    split
    · next he =>
      subst he
      have hnew : (cls', name') ∉ ns := fun hm => by
        have := (hn.names cls' name').2 hm
        rw [instanceClass?, ho] at this
        cases this
      simp [hnew, eq_comm]
    · next hne =>
      rw [← hn.names cls' name', instanceClass?]
      simp [hne]

theorem refused (hn : HasNames h₀ ns h) {e : AgentError}
    (hd : h.declareInstanceName cls name = .error e) :
    h₀.contains cls = false ∨ ∃ owner, (owner, name) ∈ ns ∧ owner ≠ cls := by
  unfold declareInstanceName at hd
  rw [hn.contains_eq] at hd
  split at hd
  · next hc => exact .inl (by simpa using hc)
  · split at hd
    · next owner ho =>
      split at hd
      · cases hd
      · next hne => exact .inr ⟨owner, (hn.names owner name).1 ho, hne⟩
    · cases hd

end HasNames

/-- Instance names are taken up if each has one declared class. -/
theorem declareNames_cases (hn : h₀.instanceNames = .empty) (ns : List (String × String)) :
    (∃ h, declareNames ns h₀ = .ok h ∧ HasNames h₀ ns h) ∨
      (∃ e, declareNames ns h₀ = .error e) ∧
        ¬((∀ cls name, (cls, name) ∈ ns → h₀.contains cls = true) ∧
          ∀ cls cls' name, (cls, name) ∈ ns → (cls', name) ∈ ns → cls = cls') := by
  rcases foldlM_cases (f := fun h d => declareInstanceName h d.1 d.2) (HasNames.nil hn)
      (fun _ _ _ _ hn hd => hn.step hd) ns with
    ⟨h, hok, hn⟩ | ⟨e, herr, before, d, after, h, rfl, hn, hd⟩
  · exact .inl ⟨h, hok, hn⟩
  · refine .inr ⟨⟨e, herr⟩, fun ⟨hknown, howner⟩ => ?_⟩
    rcases hn.refused hd with hc | ⟨owner, ho, hne⟩
    · rw [hknown d.1 d.2 (by simp)] at hc
      cases hc
    · exact hne (howner owner d.1 d.2 (List.mem_append_left _ ho) (by simp))

/-! ## Static variables -/

/-- The hierarchy with exactly these static variables, each of a declared class. -/
structure HasStatics (h₀ : Hierarchy) (vs : List (String × String × Value)) (h : Hierarchy) :
    Prop where
  names : h.instanceNames = h₀.instanceNames
  parents : ∀ cls, (h.classes.get? cls).map (·.parent) = (h₀.classes.get? cls).map (·.parent)
  known : ∀ cls name v, (cls, name, v) ∈ vs → h₀.contains cls = true
  values : ∀ cls name, (h.staticDefaults? cls).bind (·.get? name) = lastValue? vs cls name

namespace HasStatics

theorem nil (hs : ∀ cls info, h₀.classes.get? cls = some info → info.statics = .empty) :
    HasStatics h₀ [] h₀ where
  names := rfl
  parents _ := rfl
  known _ _ _ hm := nomatch hm
  values cls name := by
    rw [staticDefaults?]
    cases hi : h₀.classes.get? cls with
    | none => rfl
    | some info => simp [hs cls info hi, lastValue?]

theorem contains_eq (hs : HasStatics h₀ vs h) : h.contains cls = h₀.contains cls := by
  have hp := congrArg Option.isSome (hs.parents cls)
  rwa [Option.isSome_map, Option.isSome_map] at hp

theorem parent?_eq (hs : HasStatics h₀ vs h) : h.parent? cls = h₀.parent? cls := by
  have hp := congrArg (Option.bind · id) (hs.parents cls)
  rwa [Option.bind_map, Option.bind_map] at hp

theorem step {v : Value} (hs : HasStatics h₀ vs h) (hd : h.declareStatic cls name v = .ok h') :
    HasStatics h₀ (vs ++ [(cls, name, v)]) h' := by
  unfold declareStatic at hd
  split at hd
  · cases hd
  next info hi =>
  cases hd
  refine ⟨hs.names, fun cls' => ?_, fun cls' name' v' hm => ?_, fun cls' name' => ?_⟩
  · rw [SortedMap.get?_insert, ← hs.parents cls']
    split
    · next he => rw [he, hi]; rfl
    · rfl
  · rcases List.mem_append.1 hm with hm | hm
    · exact hs.known cls' name' v' hm
    · cases List.mem_singleton.1 hm
      rw [← hs.contains_eq, contains, SortedMap.contains, hi]
      rfl
  · rw [lastValue?_append, ← hs.values, staticDefaults?, staticDefaults?, SortedMap.get?_insert]
    by_cases hc : cls' = cls
    · subst hc
      simp only [hi, if_true, Option.map_some, Option.bind_some, SortedMap.get?_insert, true_and,
        eq_comm (a := name)]
    · simp [hc, Ne.symm hc]

theorem refused (hs : HasStatics h₀ vs h) {e : AgentError} {v : Value}
    (hd : h.declareStatic cls name v = .error e) : h₀.contains cls = false := by
  unfold declareStatic at hd
  split at hd
  · next hi =>
    rw [← hs.contains_eq, contains, SortedMap.contains, hi]
    rfl
  · cases hd

end HasStatics

/-- Static variables are taken up if each has a declared class. -/
theorem declareStatics_cases
    (hs : ∀ cls info, h₀.classes.get? cls = some info → info.statics = .empty)
    (vs : List (String × String × Value)) :
    (∃ h, declareStatics vs h₀ = .ok h ∧ HasStatics h₀ vs h) ∨
      (∃ e, declareStatics vs h₀ = .error e) ∧
        ¬∀ cls name v, (cls, name, v) ∈ vs → h₀.contains cls = true := by
  rcases foldlM_cases (f := fun h d => declareStatic h d.1 d.2.1 d.2.2) (HasStatics.nil hs)
      (fun _ _ _ _ hs hd => hs.step hd) vs with
    ⟨h, hok, hs⟩ | ⟨e, herr, before, d, after, h, rfl, hs, hd⟩
  · exact .inl ⟨h, hok, hs⟩
  · refine .inr ⟨⟨e, herr⟩, fun hknown => ?_⟩
    have hc := hs.refused hd
    rw [hknown d.1 d.2.1 d.2.2 (by simp)] at hc
    cases hc

/-! ## Whole lists of declarations -/

/-- The declarations fit together. -/
structure WellFormed (ds : List Declaration) : Prop where
  oneParent : ∀ cls p p', Declaration.cls cls p ∈ ds → Declaration.cls cls p' ∈ ds → p = p'
  parents : ∀ cls parent, Declaration.cls cls (some parent) ∈ ds →
    ∃ p, Declaration.cls parent p ∈ ds
  acyclic : ∀ cls, ¬TransGen (fun cls parent => Declaration.cls cls (some parent) ∈ ds) cls cls
  nameClasses : ∀ cls name, Declaration.instanceName cls name ∈ ds →
    ∃ p, Declaration.cls cls p ∈ ds
  oneOwner : ∀ cls cls' name, Declaration.instanceName cls name ∈ ds →
    Declaration.instanceName cls' name ∈ ds → cls = cls'
  staticClasses : ∀ cls name v, Declaration.static cls name v ∈ ds →
    ∃ p, Declaration.cls cls p ∈ ds

/-- The hierarchy has what the declarations say, and nothing else. -/
structure Describes (ds : List Declaration) (h : Hierarchy) : Prop where
  classes : ∀ cls p, (h.contains cls = true ∧ h.parent? cls = p) ↔ Declaration.cls cls p ∈ ds
  names : ∀ cls name, h.instanceClass? name = some cls ↔ Declaration.instanceName cls name ∈ ds
  statics : ∀ cls name,
    (h.staticDefaults? cls).bind (·.get? name) = lastValue? (staticDecls ds) cls name

theorem wellFormed_iff : WellFormed ds ↔ Forest (classDecls ds) ∧
    ((∀ cls name, (cls, name) ∈ nameDecls ds → ∃ p, (cls, p) ∈ classDecls ds) ∧
      ∀ cls cls' name, (cls, name) ∈ nameDecls ds → (cls', name) ∈ nameDecls ds → cls = cls') ∧
    ∀ cls name v, (cls, name, v) ∈ staticDecls ds → ∃ p, (cls, p) ∈ classDecls ds := by
  simp only [mem_nameDecls, mem_staticDecls, mem_classDecls]
  constructor
  · intro hw
    refine ⟨⟨?_, ?_, ?_⟩, ⟨hw.nameClasses, hw.oneOwner⟩, hw.staticClasses⟩ <;>
      simp only [mem_classDecls]
    exacts [hw.oneParent, hw.parents, hw.acyclic]
  · rintro ⟨⟨hone, hparents, hacyclic⟩, ⟨hnames, howner⟩, hstatics⟩
    simp only [mem_classDecls] at hone hparents hacyclic
    exact ⟨hone, hparents, hacyclic, hnames, howner, hstatics⟩

namespace Describes

/-- The stages leave what they took up. -/
theorem of_stages {h₁ h₂ : Hierarchy} (hl : HasClasses (classDecls ds) h₁)
    (hn : HasNames h₁ (nameDecls ds) h₂) (hs : HasStatics h₂ (staticDecls ds) h) :
    Describes ds h where
  classes cls p := by
    rw [hs.contains_eq, hn.contains_eq, hs.parent?_eq, parent?, hn.classes, contains,
      SortedMap.contains, ← mem_classDecls]
    constructor
    · rintro ⟨hc, rfl⟩
      obtain ⟨info, hi⟩ := Option.isSome_iff_exists.1 hc
      rw [hi]
      exact ((hl.classes cls info).1 hi).1
    · intro hm
      rw [hl.get?_of_mem hm]
      exact ⟨rfl, rfl⟩
  names cls name := by
    rw [instanceClass?, hs.names]
    exact (hn.names cls name).trans mem_nameDecls
  statics := hs.values

/-- Declarations describe at most one hierarchy. -/
theorem unique (hd : Describes ds h) (hd' : Describes ds h') : h = h' := by
  have hread {h h' : Hierarchy} (hd : Describes ds h) (hd' : Describes ds h') {cls : String}
      {info : ClassInfo} (hi : h.classes.get? cls = some info) :
      h'.classes.get? cls = some info := by
    have hc : h.contains cls = true ∧ h.parent? cls = info.parent := by
      simp [contains, SortedMap.contains, parent?, hi]
    obtain ⟨hc', hp'⟩ := (hd'.classes cls info.parent).2 ((hd.classes cls info.parent).1 hc)
    obtain ⟨info', hi'⟩ := Option.isSome_iff_exists.1 hc'
    have hs : info.statics = info'.statics := SortedMap.ext_get? fun name => by
      have he := (hd.statics cls name).trans (hd'.statics cls name).symm
      simpa [staticDefaults?, hi, hi'] using he
    rw [parent?, hi', Option.bind_some] at hp'
    obtain ⟨parent, statics⟩ := info
    cases hp'
    cases hs
    exact hi'
  have hclasses : h.classes = h'.classes := SortedMap.ext_get? fun cls => Option.ext fun info =>
    ⟨hread hd hd', hread hd' hd⟩
  have hnames : h.instanceNames = h'.instanceNames := SortedMap.ext_get? fun name =>
    Option.ext fun cls => (hd.names cls name).trans (hd'.names cls name).symm
  obtain ⟨classes, names⟩ := h
  cases hclasses
  cases hnames
  rfl

end Describes

/-- Exactly the well-formed declarations are accepted, and make what they describe. -/
theorem buildIn_cases (horder : ∀ l, (order l).Perm l) (ds : List Declaration) :
    (∃ h, buildIn order ds = .ok h ∧ WellFormed ds ∧ Describes ds h) ∨
      (∃ e, buildIn order ds = .error e) ∧ ¬WellFormed ds := by
  unfold buildIn
  rw [wellFormed_iff]
  rcases declareClasses_cases horder (classDecls ds) with
    ⟨h₁, hok, hl, hforest⟩ | ⟨⟨fault, herr⟩, hforest⟩
  swap
  · exact .inr ⟨⟨_, by rw [herr]; rfl⟩, fun hw => hforest hw.1⟩
  rw [hok]
  simp only [← hl.contains_iff]
  rcases declareNames_cases hl.names (nameDecls ds) with ⟨h₂, hok, hn⟩ | ⟨⟨e, herr⟩, hnames⟩
  swap
  · refine .inr ⟨⟨e, ?_⟩, fun hw => hnames hw.2.1⟩
    dsimp only [bind, Except.bind]
    rw [herr]
  have hempty : ∀ cls info, h₂.classes.get? cls = some info → info.statics = .empty :=
    fun cls info hi => ((hl.classes cls info).1 (hn.classes ▸ hi)).2
  -- the statics of the third stage are those of the classes, for names change no class
  rcases declareStatics_cases hempty (staticDecls ds) with ⟨h, hok', hs⟩ | ⟨⟨e, herr⟩, hstatics⟩
  · refine .inl ⟨h, ?_, ⟨hforest, ⟨hn.known, fun cls cls' name => hn.oneOwner⟩, ?_⟩,
      .of_stages hl hn hs⟩
    · dsimp only [bind, Except.bind]
      rw [hok]
      exact hok'
    · exact fun cls name v hm => hn.contains_eq ▸ hs.known cls name v hm
  · refine .inr ⟨⟨e, ?_⟩, fun hw => hstatics fun cls name v hm => ?_⟩
    · dsimp only [bind, Except.bind]
      rw [hok]
      exact herr
    · rw [hn.contains_eq]
      exact hw.2.2 cls name v hm

/-! ## Outcomes -/

/-- Both make the same hierarchy, or both fail for the same kind of reason. -/
inductive SameOutcome : Except AgentError Hierarchy → Except AgentError Hierarchy → Prop
  | built (h : Hierarchy) : SameOutcome (.ok h) (.ok h)
  | refused {e e' : AgentError} (hkind : e.kind = e'.kind) : SameOutcome (.error e) (.error e')

theorem SameOutcome.refl (x : Except AgentError Hierarchy) : SameOutcome x x := by
  cases x with
  | error e => exact .refused rfl
  | ok h => exact .built h

theorem SameOutcome.bind {x y : Except AgentError Hierarchy} (hs : SameOutcome x y)
    (f : Hierarchy → Except AgentError Hierarchy) : SameOutcome (x >>= f) (y >>= f) := by
  cases hs with
  | built h => exact .refl _
  | refused hkind => exact .refused hkind

theorem Forest.of_same (hf : Forest l) (hmem : ∀ d, d ∈ l ↔ d ∈ l') : Forest l' := by
  obtain ⟨hone, hparents, hacyclic⟩ := hf
  simp only [hmem] at hone hparents hacyclic
  exact ⟨hone, hparents, hacyclic⟩

/-- Taking up classes depends only on which there are. -/
theorem declareClasses_congr (horder : ∀ l, (order l).Perm l) (horder' : ∀ l, (order' l).Perm l)
    (hmem : ∀ d, d ∈ l ↔ d ∈ l') :
    SameOutcome (declareClasses order l) (declareClasses order' l') := by
  rcases declareClasses_cases horder l with ⟨h, hok, hl, hf⟩ | ⟨⟨fault, herr⟩, hf⟩ <;>
    rcases declareClasses_cases horder' l' with ⟨h', hok', hl', hf'⟩ | ⟨⟨fault', herr'⟩, hf'⟩
  · rw [hok, hok', hl.unique hl' hmem]
    exact .built h'
  · exact absurd (hf.of_same hmem) hf'
  · exact absurd (hf'.of_same fun d => (hmem d).symm) hf
  · rw [herr, herr']
    exact .refused rfl

/-- The outcome depends only on which classes there are, on what the instance names come to and on
the static variables. -/
theorem buildIn_congr (horder : ∀ l, (order l).Perm l) (horder' : ∀ l, (order' l).Perm l)
    (hclasses : ∀ d, d ∈ classDecls ds ↔ d ∈ classDecls ds')
    (hnames : ∀ h : Hierarchy, h.instanceNames = .empty →
      declareNames (nameDecls ds) h = declareNames (nameDecls ds') h)
    (hstatics : staticDecls ds = staticDecls ds') :
    SameOutcome (buildIn order ds) (buildIn order' ds') := by
  have hs := declareClasses_congr horder horder' hclasses
  unfold buildIn
  rcases declareClasses_cases horder (classDecls ds) with ⟨h, hok, hl, -⟩ | ⟨⟨fault, herr⟩, -⟩
  · rw [hok] at hs ⊢
    generalize declareClasses order' (classDecls ds') = y at hs ⊢
    cases hs
    dsimp only [bind, Except.bind]
    rw [hnames h hl.names, hstatics]
    exact .refl _
  · rw [herr] at hs ⊢
    generalize declareClasses order' (classDecls ds') = y at hs ⊢
    cases hs with
    | refused hkind => exact .refused hkind

theorem HasNames.again (hn : HasNames h₀ ns h) (hm : (cls, name) ∈ ns) :
    h.declareInstanceName cls name = .ok h := by
  have hc : h.contains cls = true := hn.contains_eq.trans (hn.known cls name hm)
  have hget : h.instanceNames.get? name = some cls := (hn.names cls name).2 hm
  rw [declareInstanceName, hc, hget]
  exact if_pos rfl

/-- An instance name may be given again to its class. -/
theorem declareNames_repeat (hn : h₀.instanceNames = .empty) (hm : (cls, name) ∈ ns)
    (after : List (String × String)) :
    declareNames (ns ++ (cls, name) :: after) h₀ = declareNames (ns ++ after) h₀ := by
  unfold declareNames
  rw [List.foldlM_append, List.foldlM_append]
  rcases declareNames_cases hn ns with ⟨h, hok, hn⟩ | ⟨⟨e, herr⟩, -⟩
  · rw [declareNames] at hok
    rw [hok]
    dsimp only [bind, Except.bind]
    rw [List.foldlM_cons, hn.again hm]
    rfl
  · rw [declareNames] at herr
    rw [herr]
    rfl

/-- What building does, whatever order the classes are gone through in. Between two runs the order
may differ, also if the declarations do not. -/
structure Builds (order order' : List String → List String) (ds : List Declaration) : Prop where
  accepted : (∃ h, buildIn order ds = .ok h) ↔ WellFormed ds
  described : ∀ h, buildIn order ds = .ok h ↔ WellFormed ds ∧ Describes ds h
  inAnyOrder : SameOutcome (build ds) (buildIn order ds)
  reordered : ∀ ds', (classDecls ds).Perm (classDecls ds') → nameDecls ds = nameDecls ds' →
    staticDecls ds = staticDecls ds' → SameOutcome (buildIn order ds) (buildIn order' ds')
  repeated : ∀ l d after, ds = l ++ after → d ∈ l → (∀ cls name v, d ≠ .static cls name v) →
    SameOutcome (buildIn order ds) (buildIn order' (l ++ d :: after))

/-- Building accepts exactly the well-formed declarations and makes exactly what they describe.
Neither the order of the classes nor repetition makes a difference. -/
theorem build_exact (horder : ∀ l, (order l).Perm l) (horder' : ∀ l, (order' l).Perm l)
    (ds : List Declaration) : Builds order order' ds where
  accepted := by
    rcases buildIn_cases horder ds with ⟨h, hok, hw, -⟩ | ⟨⟨e, herr⟩, hw⟩
    · exact iff_of_true ⟨h, hok⟩ hw
    · refine iff_of_false (fun ⟨h, hok⟩ => ?_) hw
      cases herr.symm.trans hok
  described h := by
    rcases buildIn_cases horder ds with ⟨h', hok, hw, hd⟩ | ⟨⟨e, herr⟩, hw⟩
    · rw [hok, Except.ok.injEq]
      exact ⟨fun he => he ▸ ⟨hw, hd⟩, fun ⟨_, hd'⟩ => hd.unique hd'⟩
    · rw [herr]
      exact iff_of_false nofun fun hd => hw hd.1
  inAnyOrder :=
    buildIn_congr (fun l => .refl l) horder (fun _ => Iff.rfl) (fun _ _ => rfl) rfl
  reordered ds' hclasses hnames hstatics :=
    buildIn_congr horder horder' (fun _ => hclasses.mem_iff) (fun _ _ => by rw [hnames]) hstatics
  repeated l d after hds hm hd := by
    subst hds
    cases d with
    | cls cls parent =>
      refine buildIn_congr horder horder' (fun ⟨c, p⟩ => ?_) (fun _ _ => ?_) ?_
      · simp only [mem_classDecls, List.mem_append, List.mem_cons]
        constructor
        · exact fun hc => hc.imp_right .inr
        · rintro (hc | he | hc)
          exacts [.inl hc, .inl (he ▸ hm), .inr hc]
      · simp [nameDecls]
      · simp [staticDecls]
    | instanceName cls name =>
      refine buildIn_congr horder horder' (fun d => ?_) (fun h hn => ?_) ?_
      · simp [classDecls]
      · have hm' : (cls, name) ∈ nameDecls l := mem_nameDecls.2 hm
        simpa [nameDecls] using (declareNames_repeat hn hm' (nameDecls after)).symm
      · simp [staticDecls]
    | static cls name v => exact absurd rfl (hd cls name v)

/-- A subclass declared before its parent, with an instance name and a variable declared twice, and
the classes gone through from behind. -/
theorem build_exact_sample :
    let ds : List Declaration := [.static "Guard" "alarm" (.bool false), .cls "Guard" (some "Agent"),
      .instanceName "Agent" "first", .cls "Agent" none, .static "Guard" "alarm" (.bool true)]
    (∀ l : List String, l.reverse.Perm l) ∧ (∀ l : List String, (id l).Perm l) ∧
      Builds List.reverse id ds ∧
      ((buildIn List.reverse ds).toOption.map fun h =>
        (h.parent? "Guard", h.instanceClass? "first",
          (h.staticDefaults? "Guard").map (·.toList))) =
        some (some "Agent", some "Agent", some [("alarm", .bool true)]) :=
  ⟨List.reverse_perm, .refl, build_exact List.reverse_perm .refl _, by decide +kernel⟩

/-- A class is refused if its ancestors form a cycle, also if it is not one of them. -/
example : (build [.cls "Left" (some "Right"), .cls "Right" (some "Left"),
    .cls "Aside" (some "Left")]).toOption = none := by decide +kernel

end Hierarchy

end AgentScheduler
