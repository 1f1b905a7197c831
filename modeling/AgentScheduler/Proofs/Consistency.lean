/-
What the check of a registry decides. `isConsistent` compares how many ids the
buckets and the index hold, and looks for every indexed id in the bucket of its
priority; whether an id in a bucket is indexed it never asks. It need not
(`isConsistent_iff`): the pairs of the index are then among the pairs of the
buckets and as many, so none is left over (`bucketPairs_eq_iff_count`).
-/
import AgentScheduler.Proofs.RegistryFacts
import Mathlib.Algebra.GroupWithZero.Nat
import Mathlib.Data.List.Perm.Subperm
import Mathlib.Data.Set.Basic

namespace AgentScheduler.Registry

open SortedMap

variable {r : Registry} {p : Int32} {i : AgentId}

/-! ## Pairs -/

/-- The ids in the buckets, each with the priority of its bucket. -/
def bucketPairs (r : Registry) : Set (Int32 × AgentId) :=
  {s | ∃ agents, (s.1, agents) ∈ r.buckets.toList ∧ s.2 ∈ agents.keys}

/-- The ids in the index, each with its priority there. -/
def indexPairs (r : Registry) : Set (Int32 × AgentId) :=
  {s | (s.2, s.1) ∈ r.index.toList}

theorem mem_bucketPairs : (p, i) ∈ r.bucketPairs ↔ ∃ a, (p, i, a) ∈ r.entries := by
  simp only [mem_entries, get?_bucket]
  constructor
  · rintro ⟨agents, hp, hi⟩
    obtain ⟨⟨j, a⟩, hj, rfl⟩ := List.mem_map.1 hi
    exact ⟨a, agents, get?_eq_some_iff.2 hp, get?_eq_some_iff.2 hj⟩
  · rintro ⟨a, agents, hp, hi⟩
    exact ⟨agents, get?_eq_some_iff.1 hp, List.mem_map.2 ⟨(i, a), get?_eq_some_iff.1 hi, rfl⟩⟩

theorem mem_indexPairs : (p, i) ∈ r.indexPairs ↔ r.index.get? i = some p :=
  get?_eq_some_iff.symm

theorem mem_bucketPairs_iff_mem_map :
    (p, i) ∈ r.bucketPairs ↔ (i, p) ∈ r.entries.map fun e => (e.2.1, e.1) := by
  rw [mem_bucketPairs, List.mem_map]
  constructor
  · rintro ⟨a, he⟩
    exact ⟨(p, i, a), he, rfl⟩
  · rintro ⟨⟨q, j, a⟩, he, heq⟩
    cases heq
    exact ⟨a, he⟩

/-- Neither list has a pair twice, so with the same pairs they have the same length. -/
theorem bucketPairs_eq_iff_perm : r.bucketPairs = r.indexPairs ↔
    (r.entries.map fun e => (e.2.1, e.1)).Perm r.index.toList := by
  rw [List.perm_ext_iff_of_nodup nodup_seats r.index.nodup_toList, Set.ext_iff]
  constructor
  · rintro h ⟨i, p⟩
    exact mem_bucketPairs_iff_mem_map.symm.trans (h (p, i))
  · rintro h ⟨p, i⟩
    exact mem_bucketPairs_iff_mem_map.trans (h (i, p))

/-- The ids in the buckets, counted bucket by bucket. -/
theorem length_entries : r.entries.length = (r.buckets.values.map size).sum := by
  rw [entries, List.length_flatMap, values, List.map_map]
  congr 2
  funext e
  exact List.length_map _

/-- The pairs of the index are those of the buckets if they are among them and the numbers
agree. -/
theorem bucketPairs_eq_iff_count : r.bucketPairs = r.indexPairs ↔
    (r.buckets.values.map size).sum = r.index.size ∧ r.indexPairs ⊆ r.bucketPairs := by
  rw [← length_entries, size]
  constructor
  · intro h
    have hlength := (bucketPairs_eq_iff_perm.1 h).length_eq
    rw [List.length_map] at hlength
    exact ⟨hlength, h.superset⟩
  · rintro ⟨hlength, hsub⟩
    have hsubset : r.index.toList ⊆ r.entries.map fun e => (e.2.1, e.1) := by
      rintro ⟨i, p⟩ he
      exact mem_bucketPairs_iff_mem_map.1 (hsub he)
    -- what has no repetitions and is no shorter than a list that it lies in is all of that list
    have hperm := (List.subperm_of_subset r.index.nodup_toList hsubset).perm_of_length_le
      (by rw [List.length_map, hlength])
    exact bucketPairs_eq_iff_perm.2 hperm.symm

/-! ## The check -/

/-- Looking for an id in the bucket of a priority. -/
theorem any_contains_iff_mem_bucketPairs :
    ((r.buckets.get? p).any fun agents => agents.contains i) = true ↔ (p, i) ∈ r.bucketPairs := by
  simp only [mem_bucketPairs, mem_entries, get?_bucket, Option.any_eq_true, contains,
    Option.isSome_iff_exists, ← exists_and_left]
  exact exists_comm

/-- What the check compares and looks up. -/
theorem isConsistent_iff_count : r.isConsistent = true ↔
    (r.buckets.values.map size).sum = r.index.size ∧ r.indexPairs ⊆ r.bucketPairs ∧
    ∀ p agents, r.buckets.get? p = some agents → agents.isEmpty = false := by
  have hfilled : (!r.buckets.values.any (·.isEmpty)) = true ↔
      ∀ p agents, r.buckets.get? p = some agents → agents.isEmpty = false := by
    simp only [values, List.any_map, Bool.not_eq_true', List.any_eq_false, Prod.forall,
      Function.comp_apply, get?_eq_some_iff, Bool.not_eq_true]
  have hlisted : (r.index.toList.all fun e => (r.buckets.get? e.2).any fun agents =>
      agents.contains e.1) = true ↔ r.indexPairs ⊆ r.bucketPairs := by
    simp only [List.all_eq_true, any_contains_iff_mem_bucketPairs]
    exact ⟨fun h s hs => h (s.2, s.1) hs, fun h e he => h he⟩
  rw [isConsistent, Bool.and_eq_true, Bool.and_eq_true, beq_iff_eq, length_entries, hfilled,
    hlisted, and_right_comm, and_assoc]

/-- Sound registries pass the check. -/
theorem Sound.isConsistent (h : r.Sound) : r.isConsistent = true := by
  have hpairs : r.bucketPairs = r.indexPairs := by
    ext ⟨p, i⟩
    rw [mem_bucketPairs, mem_indexPairs, h.indexed]
  obtain ⟨hcount, hlisted⟩ := bucketPairs_eq_iff_count.1 hpairs
  exact isConsistent_iff_count.2 ⟨hcount, hlisted, h.filled⟩

/-- The check passes exactly if the buckets hold the pairs of the index and no bucket is empty.
Then no id is in two buckets, and each id in a bucket is indexed. -/
theorem isConsistent_iff (r : Registry) :
    (r.isConsistent = true ↔ r.bucketPairs = r.indexPairs ∧
      ∀ p agents, r.buckets.get? p = some agents → agents.isEmpty = false) ∧
    (r.isConsistent = true →
      (∀ i p q, (p, i) ∈ r.bucketPairs → (q, i) ∈ r.bucketPairs → p = q) ∧
      r.bucketPairs ⊆ r.indexPairs) := by
  have hiff : r.isConsistent = true ↔ r.bucketPairs = r.indexPairs ∧
      ∀ p agents, r.buckets.get? p = some agents → agents.isEmpty = false := by
    rw [isConsistent_iff_count, bucketPairs_eq_iff_count, and_assoc]
  refine ⟨hiff, fun h => ?_⟩
  have hpairs : r.bucketPairs = r.indexPairs := (hiff.1 h).1
  refine ⟨fun i p q hp hq => ?_, hpairs.subset⟩
  rw [hpairs, mem_indexPairs] at hp hq
  exact Option.some.inj (hp.symm.trans hq)

/-- One agent has two ids here, and the index and the buckets agree on both. -/
theorem isConsistent_iff_sample :
    let r : Registry :=
      { lastId := 4
        index := .ofList [(⟨1⟩, 5), (⟨2⟩, -1), (⟨4⟩, 5)]
        buckets := .ofList [(-1, .ofList [(⟨2⟩, ⟨0⟩)]), (5, .ofList [(⟨1⟩, ⟨3⟩), (⟨4⟩, ⟨3⟩)])] }
    r.isConsistent = true ∧ r.bucketPairs = r.indexPairs ∧
      (∀ i p q, (p, i) ∈ r.bucketPairs → (q, i) ∈ r.bucketPairs → p = q) ∧
      r.bucketPairs ⊆ r.indexPairs := by
  intro r
  have h : r.isConsistent = true := by decide
  exact ⟨h, ((isConsistent_iff r).1.1 h).1, (isConsistent_iff r).2 h⟩

/-- Only the numbers tell of an id in two buckets, for the one that the index names has it. -/
example : isConsistent
    { index := .ofList [(⟨1⟩, 0)]
      buckets := .ofList [(0, .ofList [(⟨1⟩, ⟨0⟩)]), (5, .ofList [(⟨1⟩, ⟨0⟩)])] } = false := by
  decide

end AgentScheduler.Registry
