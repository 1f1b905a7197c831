/-
The order of the classes. `lineage` stops after as many classes as there are; the walk it stands
for (`ancestor?`) follows the parents without a bound. In a rooted hierarchy the bound is
never met: a lineage is the class and the lineage of its parent (`Rooted.lineage_extends`), so
what holds of a root and comes down from a parent holds of every declared class
(`Rooted.of_parents`). What building makes is rooted, and so `isA` orders the declared classes
as a forest (`forest_order`).
-/
import AgentScheduler.Proofs.Declarations
import Mathlib.Data.List.Chain

namespace AgentScheduler.Hierarchy

open Relation

variable {h : Hierarchy} {cls parent owner a b c : String} {name : String} {n : Nat}
  {ds : List Declaration} {order : List String → List String}

/-- The ancestor of a declared class that is so many parents away. -/
def ancestor? (h : Hierarchy) (cls : String) : Nat → Option String
  | 0 => if h.contains cls then some cls else none
  | k + 1 => (h.ancestor? cls k).bind h.parent?

/-! ## Lineages without a bound -/

theorem lineage_undeclared (hc : h.contains cls = false) : h.lineage cls = [] := by
  simp [lineage, hc]

theorem lineage_declared (hc : h.contains cls = true) :
    h.lineage cls = h.chain h.classes.size cls := by
  simp [lineage, hc]

theorem size_pos_of_contains (hc : h.contains cls = true) : 0 < h.classes.size := by
  have hkey : 0 < h.classes.keys.length :=
    List.length_pos_of_mem (contains_iff_mem_keys.1 hc)
  rwa [SortedMap.keys, List.length_map] at hkey

/-- A chain that stops before its bound is the same with a smaller bound. -/
theorem chain_of_length_le (hle : (h.chain (n + 1) cls).length ≤ n) :
    h.chain (n + 1) cls = h.chain n cls := by
  induction n generalizing cls with
  | zero => simp [chain] at hle
  | succ n ih =>
    cases hp : h.parent? cls with
    | none => rw [chain_root hp, chain_root hp]
    | some parent =>
      rw [chain_extends hp, List.length_cons] at hle
      rw [chain_extends hp, chain_extends hp, ih (by omega)]

theorem mem_lineage_declared (ha : a ∈ h.lineage cls) : h.contains cls = true := by
  cases hc : h.contains cls with
  | true => rfl
  | false => rw [lineage_undeclared hc] at ha; cases ha

theorem descends_of_mem_lineage (ha : a ∈ h.lineage cls) : ReflTransGen h.Extends cls a := by
  rw [lineage_declared (mem_lineage_declared ha)] at ha
  exact descends_of_mem_chain ha

theorem extends_unique : Relator.RightUnique h.Extends := by
  intro cls p p' hp hp'
  exact Option.some.inj (hp.symm.trans hp')

namespace Rooted

theorem lineage_root (hc : h.contains cls = true) (hp : h.parent? cls = none) :
    h.lineage cls = [cls] := by
  rw [lineage_declared hc, ← Nat.succ_pred_eq_of_pos (size_pos_of_contains hc)]
  exact chain_root hp

/-- The lineage of a class goes on with the lineage of its parent, whatever the bound. -/
theorem lineage_extends (hr : h.Rooted) (hp : h.Extends cls parent) :
    h.lineage cls = cls :: h.lineage parent := by
  have hc : h.contains cls = true := contains_of_extends hp
  obtain ⟨m, hm⟩ : ∃ m, h.classes.size = m + 1 := by
    have hpos := size_pos_of_contains hc
    exact ⟨h.classes.size - 1, by omega⟩
  have hlen := hr.length_chain_le hc (m + 2)
  rw [chain_extends hp, List.length_cons, hm] at hlen
  rw [lineage_declared hc, lineage_declared (hr.closed cls parent hp), hm, chain_extends hp,
    chain_of_length_le (by omega)]

theorem length_lineage_le (hr : h.Rooted) (cls : String) :
    (h.lineage cls).length ≤ h.classes.size := by
  cases hc : h.contains cls with
  | false => simp [lineage_undeclared hc]
  | true => rw [lineage_declared hc]; exact hr.length_chain_le hc _

theorem nodup_lineage (hr : h.Rooted) (cls : String) : (h.lineage cls).Nodup := by
  cases hc : h.contains cls with
  | false => simp [lineage_undeclared hc]
  | true => rw [lineage_declared hc]; exact hr.nodup_chain _ cls

/-- What holds of every class without a parent, and of a class if it holds of its parent, holds
of every declared class. -/
@[elab_as_elim] theorem of_parents {motive : String → Prop} (hr : h.Rooted)
    (root : ∀ cls, h.contains cls = true → h.parent? cls = none → motive cls)
    (extend : ∀ cls parent, h.Extends cls parent → motive parent → motive cls)
    (cls : String) (hc : h.contains cls = true) : motive cls := by
  -- the lineage of the parent is shorter
  induction hn : (h.lineage cls).length generalizing cls with
  | zero =>
    cases hp : h.parent? cls with
    | none => exact root cls hc hp
    | some parent => rw [hr.lineage_extends hp] at hn; cases hn
  | succ n ih =>
    cases hp : h.parent? cls with
    | none => exact root cls hc hp
    | some parent =>
      rw [hr.lineage_extends hp, List.length_cons] at hn
      exact extend cls parent hp (ih parent (hr.closed cls parent hp) (by omega))

theorem head_lineage (hr : h.Rooted) (hc : h.contains cls = true) :
    (h.lineage cls).head? = some cls := by
  cases hp : h.parent? cls with
  | none => rw [lineage_root hc hp]; rfl
  | some parent => rw [hr.lineage_extends hp]; rfl

theorem self_mem_lineage (hr : h.Rooted) (hc : h.contains cls = true) : cls ∈ h.lineage cls :=
  List.mem_of_head? (hr.head_lineage hc)

/-- One parent further on is one place further on. -/
theorem next_lineage (hr : h.Rooted) (cls : String) :
    ∀ k, (h.lineage cls)[k + 1]? = (h.lineage cls)[k]?.bind h.parent? := by
  cases hc : h.contains cls with
  | false => simp [lineage_undeclared hc]
  | true =>
    refine hr.of_parents (fun cls hc hp => ?_) (fun cls parent hp ih => ?_) cls hc
    · intro k
      cases k <;> simp [lineage_root hc hp, hp]
    · intro k
      rw [hr.lineage_extends hp]
      cases k with
      | zero =>
        have hhead := hr.head_lineage (hr.closed cls parent hp)
        rw [List.head?_eq_getElem?] at hhead
        simpa [hhead] using hp.symm
      | succ k => simpa using ih k

/-- The lineage is the walk without a bound. -/
theorem lineage_walk (hr : h.Rooted) (cls : String) (k : Nat) :
    (h.lineage cls)[k]? = h.ancestor? cls k := by
  induction k with
  | zero =>
    rw [ancestor?, ← List.head?_eq_getElem?]
    cases hc : h.contains cls with
    | false => simp [lineage_undeclared hc]
    | true => rw [hr.head_lineage hc]; rfl
  | succ k ih => rw [hr.next_lineage, ih, ancestor?]

theorem isChain_lineage (hr : h.Rooted) (cls : String) : (h.lineage cls).IsChain h.Extends := by
  cases hc : h.contains cls with
  | false => simp [lineage_undeclared hc]
  | true =>
    refine hr.of_parents (fun cls hc hp => ?_) (fun cls parent hp ih => ?_) cls hc
    · simp [lineage_root hc hp]
    · rw [hr.lineage_extends hp, List.isChain_cons]
      refine ⟨fun next hnext => ?_, ih⟩
      rw [hr.head_lineage (hr.closed cls parent hp)] at hnext
      exact Option.some.inj hnext ▸ hp

theorem root_of_last (hr : h.Rooted) (hlast : (h.lineage cls).getLast? = some a) :
    h.parent? a = none := by
  have hlen : (h.lineage cls).length = (h.lineage cls).length - 1 + 1 := by
    have hpos := List.length_pos_of_mem (List.mem_of_getLast? hlast)
    omega
  rw [List.getLast?_eq_getElem?] at hlast
  have hnext := hr.next_lineage cls ((h.lineage cls).length - 1)
  rw [hlast, ← hlen, List.getElem?_eq_none (Nat.le_refl _)] at hnext
  exact hnext.symm

/-- The lineage has the class and all its ancestors. -/
theorem mem_lineage_iff (hr : h.Rooted) :
    a ∈ h.lineage cls ↔ h.contains cls = true ∧ ReflTransGen h.Extends cls a := by
  constructor
  · intro ha
    exact ⟨mem_lineage_declared ha, descends_of_mem_lineage ha⟩
  · rintro ⟨hc, ha⟩
    induction ha using ReflTransGen.head_induction_on with
    | refl => exact hr.self_mem_lineage hc
    | head hp _ ih =>
      rw [hr.lineage_extends hp]
      exact .tail _ (ih (hr.closed _ _ hp))

theorem isA_iff (hr : h.Rooted) :
    h.isA cls a = true ↔ h.contains cls = true ∧ ReflTransGen h.Extends cls a := by
  rw [isA, List.contains_iff_mem, hr.mem_lineage_iff]

/-! ## The order -/

theorem isA_self (hr : h.Rooted) : h.isA cls cls = true ↔ h.contains cls = true := by
  rw [hr.isA_iff]
  exact and_iff_left .refl

theorem isA_trans (hr : h.Rooted) (hab : h.isA a b = true) (hbc : h.isA b c = true) :
    h.isA a c = true := by
  rw [hr.isA_iff] at *
  exact ⟨hab.1, hab.2.trans hbc.2⟩

theorem isA_antisymm (hr : h.Rooted) (hab : h.isA a b = true) (hba : h.isA b a = true) :
    a = b := by
  rw [hr.isA_iff] at hab hba
  rcases reflTransGen_iff_eq_or_transGen.1 hab.2 with heq | hup
  · exact heq.symm
  · exact absurd (hup.trans_left hba.2) (hr.acyclic a)

/-- A class has one parent, so its ancestors stand one behind the other. -/
theorem isA_total (hr : h.Rooted) (ha : h.isA cls a = true) (hb : h.isA cls b = true) :
    h.isA a b = true ∨ h.isA b a = true := by
  have hdeclared {a : String} (ha : h.isA cls a = true) : h.contains a = true := by
    rw [hr.isA_iff] at ha
    exact hr.contains_of_descends ha.1 ha.2
  have hpaths := ReflTransGen.total_of_right_unique extends_unique (hr.isA_iff.1 ha).2
    (hr.isA_iff.1 hb).2
  rw [hr.isA_iff, hr.isA_iff]
  exact hpaths.imp (⟨hdeclared ha, ·⟩) (⟨hdeclared hb, ·⟩)

end Rooted

/-! ## Built hierarchies -/

/-- What declarations that fit together describe is rooted. -/
theorem Describes.rooted (hw : WellFormed ds) (hd : Describes ds h) : h.Rooted := by
  have hextends {cls parent : String} (hp : h.Extends cls parent) :
      Declaration.cls cls (some parent) ∈ ds :=
    (hd.classes cls (some parent)).1 ⟨contains_of_extends hp, hp⟩
  constructor
  · intro cls parent hp
    obtain ⟨p, hm⟩ := hw.parents cls parent (hextends hp)
    exact ((hd.classes parent p).2 hm).1
  · intro cls hcycle
    exact hw.acyclic cls (TransGen.mono (fun _ _ => hextends) _ _ hcycle)

/-- The classes of declarations, ordered as a forest: the lineages are the walks along the
declared parents, `isA` is an order in which the ancestors of a class form a chain, and a name is
valid in the subtree of the class it is declared for. -/
structure ForestOrder (ds : List Declaration) (h : Hierarchy) : Prop where
  declared : ∀ cls, h.contains cls = true ↔ ∃ p, Declaration.cls cls p ∈ ds
  parents : ∀ cls parent, h.Extends cls parent ↔ Declaration.cls cls (some parent) ∈ ds
  walk : ∀ cls k, (h.lineage cls)[k]? = h.ancestor? cls k
  nil : ∀ cls, h.lineage cls = [] ↔ h.contains cls = false
  head : ∀ cls, h.contains cls = true → (h.lineage cls).head? = some cls
  nodup : ∀ cls, (h.lineage cls).Nodup
  steps : ∀ cls, (h.lineage cls).IsChain h.Extends
  last : ∀ cls a, (h.lineage cls).getLast? = some a → h.parent? a = none
  length : ∀ cls, (h.lineage cls).length ≤ h.classes.size
  refl : ∀ cls, h.isA cls cls = true ↔ h.contains cls = true
  trans : ∀ a b c, h.isA a b = true → h.isA b c = true → h.isA a c = true
  antisymm : ∀ a b, h.isA a b = true → h.isA b a = true → a = b
  comparable : ∀ cls a b, h.isA cls a = true → h.isA cls b = true →
    h.isA a b = true ∨ h.isA b a = true
  names : ∀ name cls, h.isValidInstanceName name cls = true ↔
    ∃ owner ∈ h.lineage cls, Declaration.instanceName owner name ∈ ds
  inherited : ∀ name cls sub, h.isValidInstanceName name cls = true → h.isA sub cls = true →
    h.isValidInstanceName name sub = true
  subtree : ∀ owner name, Declaration.instanceName owner name ∈ ds →
    ∀ cls, h.isValidInstanceName name cls = true ↔ h.isA cls owner = true

/-- Every hierarchy that building makes is ordered as a forest. -/
theorem forest_order (horder : ∀ l, (order l).Perm l) (hb : buildIn order ds = .ok h) :
    ForestOrder ds h := by
  obtain ⟨hw, hd⟩ : WellFormed ds ∧ Describes ds h := by
    rcases buildIn_cases horder ds with ⟨h', hok, hw, hd⟩ | ⟨⟨e, herr⟩, -⟩
    · rw [hb, Except.ok.injEq] at hok
      exact hok ▸ ⟨hw, hd⟩
    · rw [hb] at herr
      cases herr
  have hr : h.Rooted := hd.rooted hw
  have hvalid {name owner cls : String} (ho : Declaration.instanceName owner name ∈ ds) :
      h.isValidInstanceName name cls = true ↔ h.isA cls owner = true := by
    rw [isValidInstanceName, (hd.names owner name).2 ho, Option.any_some]
  have howner {name cls : String} (hv : h.isValidInstanceName name cls = true) :
      ∃ owner, Declaration.instanceName owner name ∈ ds ∧ h.isA cls owner = true := by
    rw [isValidInstanceName, Option.any_eq_true] at hv
    obtain ⟨owner, ho, hv⟩ := hv
    exact ⟨owner, (hd.names owner name).1 ho, hv⟩
  exact {
    declared := fun cls => ⟨fun hc => ⟨_, (hd.classes cls _).1 ⟨hc, rfl⟩⟩,
      fun ⟨p, hm⟩ => ((hd.classes cls p).2 hm).1⟩
    parents := fun cls parent => ⟨fun hp => (hd.classes cls _).1 ⟨contains_of_extends hp, hp⟩,
      fun hm => ((hd.classes cls _).2 hm).2⟩
    walk := hr.lineage_walk
    nil := fun cls => by
      constructor
      · intro hnil
        cases hc : h.contains cls with
        | false => rfl
        | true => exact absurd (hr.self_mem_lineage hc) (by simp [hnil])
      · exact lineage_undeclared
    head := fun cls => hr.head_lineage
    nodup := hr.nodup_lineage
    steps := hr.isChain_lineage
    last := fun cls a => hr.root_of_last
    length := hr.length_lineage_le
    refl := fun cls => hr.isA_self
    trans := fun a b c => hr.isA_trans
    antisymm := fun a b => hr.isA_antisymm
    comparable := fun cls a b => hr.isA_total
    names := fun name cls => by
      constructor
      · intro hv
        obtain ⟨owner, ho, hisA⟩ := howner hv
        exact ⟨owner, List.contains_iff_mem.1 hisA, ho⟩
      · rintro ⟨owner, hmem, ho⟩
        exact (hvalid ho).2 (List.contains_iff_mem.2 hmem)
    inherited := fun name cls sub hv hsub => by
      obtain ⟨owner, ho, hisA⟩ := howner hv
      exact (hvalid ho).2 (hr.isA_trans hsub hisA)
    subtree := fun owner name ho cls => hvalid ho }

/-- Two trees, declared from the leaves up and gone through from behind; a name of the class in the
middle. -/
theorem forest_order_sample :
    let ds : List Declaration := [.cls "Captain" (some "Guard"), .cls "Guard" (some "Agent"),
      .instanceName "Guard" "gate", .cls "Agent" none, .cls "Tree" none]
    (∀ l : List String, l.reverse.Perm l) ∧
      ∃ h, buildIn List.reverse ds = .ok h ∧ ForestOrder ds h ∧
        h.lineage "Captain" = ["Captain", "Guard", "Agent"] ∧
        h.isValidInstanceName "gate" "Captain" = true ∧
        h.isValidInstanceName "gate" "Agent" = false := by
  intro ds
  have hsome : ((buildIn List.reverse ds).toOption.map fun h =>
      (h.lineage "Captain", h.isValidInstanceName "gate" "Captain",
        h.isValidInstanceName "gate" "Agent")) =
      some (["Captain", "Guard", "Agent"], true, false) := by decide +kernel
  cases hb : buildIn List.reverse ds with
  | error e => rw [hb] at hsome; cases hsome
  | ok h =>
    simp only [hb, Except.toOption, Option.map_some, Option.some.injEq, Prod.mk.injEq] at hsome
    exact ⟨List.reverse_perm, h, rfl, forest_order List.reverse_perm hb, hsome⟩

end AgentScheduler.Hierarchy
