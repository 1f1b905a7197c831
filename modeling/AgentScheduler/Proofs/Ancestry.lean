/-
Chains of parents. A hierarchy is `Rooted` if every parent is declared and no
class is its own ancestor. Then a chain of parents never comes to a class twice,
so it has no more classes than there are (`Rooted.length_chain_le`), and a walk
that counts its steps is never too short; on a cycle it is never long enough.
So looking at the parent of every class finds no fault exactly in a rooted
hierarchy (`parentFaults_eq_none_iff`).
-/
import AgentScheduler.Hierarchy
import AgentScheduler.Proofs.Changes
import Mathlib.Data.List.Perm.Subperm
import Mathlib.Logic.Relation

namespace AgentScheduler.Hierarchy

open Relation

variable {h : Hierarchy} {cls parent start a : String} {n : Nat}

/-- `parent` is the parent of `cls`. -/
def Extends (h : Hierarchy) (cls parent : String) : Prop := h.parent? cls = some parent

/-- Every parent is declared, and no class is its own ancestor. -/
structure Rooted (h : Hierarchy) : Prop where
  closed : ∀ cls parent, h.Extends cls parent → h.contains parent = true
  acyclic : ∀ cls, ¬TransGen h.Extends cls cls

theorem contains_iff_mem_keys : h.contains cls = true ↔ cls ∈ h.classes.keys :=
  SortedMap.mem_keys.symm

theorem contains_of_extends (hp : h.Extends cls parent) : h.contains cls = true := by
  rw [Extends, parent?, Option.bind_eq_some_iff] at hp
  obtain ⟨info, hi, -⟩ := hp
  exact Option.isSome_iff_exists.2 ⟨info, hi⟩

/-! ## Chains -/

theorem chain_root (hp : h.parent? cls = none) : h.chain (n + 1) cls = [cls] := by
  rw [chain, hp]

theorem chain_extends (hp : h.Extends cls parent) :
    h.chain (n + 1) cls = cls :: h.chain n parent := by
  rw [chain, hp]

/-- A chain goes through the class and its ancestors. -/
theorem descends_of_mem_chain (ha : a ∈ h.chain n cls) : ReflTransGen h.Extends cls a := by
  induction n generalizing cls with
  | zero => cases ha
  | succ n ih =>
    cases hp : h.parent? cls with
    | none =>
      rw [chain_root hp, List.mem_singleton] at ha
      exact ha ▸ .refl
    | some parent =>
      rw [chain_extends hp] at ha
      rcases List.mem_cons.1 ha with rfl | ha
      · exact .refl
      · exact .head hp (ih ha)

namespace Rooted

/-- A chain comes to no class twice. -/
theorem nodup_chain (hr : h.Rooted) (n : Nat) (cls : String) : (h.chain n cls).Nodup := by
  induction n generalizing cls with
  | zero => exact List.nodup_nil
  | succ n ih =>
    cases hp : h.parent? cls with
    | none => exact chain_root hp ▸ List.pairwise_singleton _ cls
    | some parent =>
      rw [chain_extends hp, List.nodup_cons]
      exact ⟨fun hm => hr.acyclic cls (.head' hp (descends_of_mem_chain hm)), ih parent⟩

theorem contains_of_descends (hr : h.Rooted) (hc : h.contains cls = true)
    (ha : ReflTransGen h.Extends cls a) : h.contains a = true := by
  cases ha with
  | refl => exact hc
  | tail _ hp => exact hr.closed _ a hp

/-- A chain has no more classes than there are. -/
theorem length_chain_le (hr : h.Rooted) (hc : h.contains cls = true) (n : Nat) :
    (h.chain n cls).length ≤ h.classes.size := by
  have hsub : h.chain n cls ⊆ h.classes.keys := fun a ha =>
    contains_iff_mem_keys.1 (hr.contains_of_descends hc (descends_of_mem_chain ha))
  have hle := (List.subperm_of_subset (hr.nodup_chain n cls) hsub).length_le
  rwa [SortedMap.keys, List.length_map] at hle

end Rooted

/-! ## The walk that counts its steps -/

theorem endsWithin_root (hp : h.parent? cls = none) : h.endsWithin start n cls = true := by
  unfold endsWithin
  simp only [hp]

theorem endsWithin_zero (hp : h.Extends cls parent) : h.endsWithin start 0 cls = false := by
  unfold endsWithin
  simp only [show h.parent? cls = some parent from hp]

theorem endsWithin_succ (hp : h.Extends cls parent) : h.endsWithin start (n + 1) cls =
    (parent != start && h.endsWithin start n parent) := by
  conv_lhs => unfold endsWithin
  simp only [show h.parent? cls = some parent from hp]

/-- A walk that does not end soon enough has gone through that many classes, unless it came back
to where it started. -/
theorem length_chain_of_walk (hacyclic : ∀ cls, ¬TransGen h.Extends cls cls)
    (hs : ReflTransGen h.Extends start cls) (hw : h.endsWithin start n cls = false) :
    (h.chain (n + 2) cls).length = n + 2 := by
  induction n generalizing cls with
  | zero =>
    cases hp : h.parent? cls with
    | none => rw [endsWithin_root hp] at hw; cases hw
    | some parent =>
      rw [chain_extends hp, List.length_cons, chain]
      cases h.parent? parent <;> rfl
  | succ n ih =>
    cases hp : h.parent? cls with
    | none => rw [endsWithin_root hp] at hw; cases hw
    | some parent =>
      have hne : parent ≠ start := fun he => hacyclic start (.tail' hs (he ▸ hp))
      have hrest : h.endsWithin start n parent = false := by
        simpa [endsWithin_succ hp, hne] using hw
      rw [chain_extends hp, List.length_cons, ih (hs.tail hp) hrest]

/-- A walk that leads to a cycle does not end. -/
theorem endsWithin_of_cycle (hcycle : TransGen h.Extends a a) (hcls : TransGen h.Extends cls a)
    (start : String) (n : Nat) : h.endsWithin start n cls = false := by
  induction n generalizing cls with
  | zero =>
    obtain ⟨parent, hp, -⟩ := TransGen.head'_iff.1 hcls
    exact endsWithin_zero hp
  | succ n ih =>
    obtain ⟨parent, hp, hrest⟩ := TransGen.head'_iff.1 hcls
    have hparent : TransGen h.Extends parent a := by
      rcases reflTransGen_iff_eq_or_transGen.1 hrest with rfl | hrest
      · exact hcycle
      · exact hrest
    rw [endsWithin_succ hp, ih hparent, Bool.and_false]

theorem parentFault?_eq_none_iff : h.parentFault? cls = none ↔
    (∀ parent, h.Extends cls parent → h.contains parent = true) ∧
      h.endsWithin cls h.classes.size cls = true := by
  unfold parentFault? Extends
  cases hp : h.parent? cls with
  | none => simp [endsWithin_root hp]
  | some parent =>
    cases hc : h.contains parent <;> cases h.endsWithin cls h.classes.size cls <;> simp [hc]

/-- No class has a faulty parent exactly if every parent is declared and there is no cycle. -/
theorem parentFaults_eq_none_iff :
    (∀ cls ∈ h.classes.keys, h.parentFault? cls = none) ↔ h.Rooted := by
  constructor
  · intro hnone
    have hsound {cls parent : String} (hp : h.Extends cls parent) :=
      parentFault?_eq_none_iff.1 (hnone cls (contains_iff_mem_keys.1 (contains_of_extends hp)))
    refine ⟨fun cls parent hp => (hsound hp).1 parent hp, fun cls hcycle => ?_⟩
    obtain ⟨parent, hp, -⟩ := TransGen.head'_iff.1 hcycle
    have hends := (hsound hp).2
    rw [endsWithin_of_cycle hcycle hcycle] at hends
    cases hends
  · intro hr cls hcls
    refine parentFault?_eq_none_iff.2 ⟨fun parent hp => hr.closed cls parent hp, ?_⟩
    cases hwalk : h.endsWithin cls h.classes.size cls with
    | true => rfl
    | false =>
      -- a walk that is too long goes through more classes than there are
      have hlong := length_chain_of_walk hr.acyclic .refl hwalk
      have hshort := hr.length_chain_le (contains_iff_mem_keys.2 hcls) (h.classes.size + 2)
      omega

end AgentScheduler.Hierarchy
