/-
Facts about a registry by itself. A registration is an entry: a priority, an id
and the agent registered there. `Sound` says that the index and the buckets
list the same registrations; `mem_entries_register`, `mem_entries_unregister`
and `mem_entries_prune` say what each operation does to the entries, and the
lemmas `Sound.register`, `Sound.unregister` and `Sound.prune` that soundness
survives it.
-/
import AgentScheduler.Registry

namespace AgentScheduler.Registry

open SortedMap

variable {r : Registry} {p p' : Int32} {i i' : AgentId} {a b : AgentRef}

/-! ## Entries -/

theorem bucket_of_get? {agents : SortedMap AgentId AgentRef} (h : r.buckets.get? p = some agents) :
    r.bucket p = agents := by
  rw [bucket, h, Option.getD_some]

theorem get?_bucket : (r.bucket p).get? i = some a ↔
    ∃ agents, r.buckets.get? p = some agents ∧ agents.get? i = some a := by
  rw [bucket]
  cases r.buckets.get? p <;> simp

theorem mem_entries : (p, i, a) ∈ r.entries ↔ (r.bucket p).get? i = some a := by
  simp only [entries, List.mem_flatMap, List.mem_map, Prod.exists, Prod.mk.injEq]
  constructor
  · rintro ⟨q, agents, hq, j, b, hj, rfl, rfl, rfl⟩
    exact get?_bucket.2 ⟨agents, get?_eq_some_iff.2 hq, get?_eq_some_iff.2 hj⟩
  · intro h
    obtain ⟨agents, hp, hi⟩ := get?_bucket.1 h
    exact ⟨p, agents, get?_eq_some_iff.1 hp, i, a, get?_eq_some_iff.1 hi, rfl, rfl, rfl⟩

theorem mem_walkOrder : a ∈ r.walkOrder ↔ ∃ p i, (p, i, a) ∈ r.entries := by
  simp only [walkOrder, List.mem_map, Prod.exists]
  exact ⟨fun ⟨p, i, _, he, h⟩ => ⟨p, i, h ▸ he⟩, fun ⟨p, i, he⟩ => ⟨p, i, a, he, rfl⟩⟩

theorem bucket_register : (r.register a p i).bucket p' =
    if p' = p then (r.bucket p).insert i a else r.bucket p' := by
  simp only [bucket, register, get?_insert]
  split <;> rfl

theorem bucket_unregister : (r.unregister p i).bucket p' =
    if p' = p then (r.bucket p).erase i else r.bucket p' := by
  simp only [bucket, unregister, dropFromBucket]
  cases hp : r.buckets.get? p with
  | none =>
    by_cases h : p' = p
    · rw [if_pos h, h, hp]; rfl
    · rw [if_neg h]
  | some agents =>
    simp only [Option.getD_some]
    by_cases he : (agents.erase i).isEmpty = true
    · rw [if_pos he, get?_erase]
      split
      · exact (isEmpty_iff.1 he).symm
      · rfl
    · rw [if_neg he, get?_insert]
      split <;> rfl

theorem mem_entries_unregister : (p', i', b) ∈ (r.unregister p i).entries ↔
    (p', i', b) ∈ r.entries ∧ (p', i') ≠ (p, i) := by
  rw [mem_entries, mem_entries, bucket_unregister]
  by_cases hp : p' = p
  · subst hp
    rw [if_pos rfl, get?_erase]
    by_cases hi : i' = i <;> simp [hi]
  · simp [hp]

/-! ## Order -/

/-- One registration is visited before another: its priority is lower, or its id is the
lower one within the priority. -/
def Before (e e' : Int32 × AgentId × AgentRef) : Prop :=
  e.1 < e'.1 ∨ e.1 = e'.1 ∧ e.2.1.number < e'.2.1.number

instance : Std.Asymm Before where
  asymm e e' h h' := by
    rcases h with h | ⟨hp, h⟩
    · rcases h' with h' | ⟨hp', -⟩
      · exact Int32.lt_asymm h h'
      · rw [hp'] at h
        exact Int32.lt_irrefl h
    · rcases h' with h' | ⟨-, h'⟩
      · rw [hp] at h'
        exact Int32.lt_irrefl h'
      · exact UInt32.lt_asymm h h'

theorem entries_pairwise : r.entries.Pairwise Before := by
  rw [entries, List.pairwise_flatMap]
  constructor
  · rintro ⟨p, agents⟩ -
    rw [List.pairwise_map]
    refine agents.ascending.imp fun h => .inr ⟨rfl, ?_⟩
    exact Std.compare_eq_lt.1 h
  · refine r.buckets.ascending.imp fun {x y} h => ?_
    rintro e he e' he'
    obtain ⟨_, -, rfl⟩ := List.mem_map.1 he
    obtain ⟨_, -, rfl⟩ := List.mem_map.1 he'
    exact .inl (Std.compare_eq_lt.1 h)

/-- No priority has an id twice. -/
theorem nodup_seats : (r.entries.map fun e => (e.2.1, e.1)).Nodup := by
  rw [List.nodup_iff_pairwise_ne, List.pairwise_map]
  refine entries_pairwise.imp ?_
  rintro ⟨p, i, a⟩ ⟨p', i', a'⟩ h he
  cases he
  rcases h with h | ⟨-, h⟩
  · exact Int32.lt_irrefl h
  · exact UInt32.lt_irrefl _ h

/-! ## Soundness -/

/-- The index and the buckets list the same ids and priorities, no bucket is empty, and the
ids are among those given out. -/
structure Sound (r : Registry) : Prop where
  indexed : ∀ p i, r.index.get? i = some p ↔ ∃ a, (p, i, a) ∈ r.entries
  filled : ∀ p agents, r.buckets.get? p = some agents → agents.isEmpty = false
  issued : ∀ p i a, (p, i, a) ∈ r.entries → 0 < i.number.toNat ∧ i.number.toNat ≤ r.lastId.toNat
  valid : r.lastId.toNat < AgentId.invalid.number.toNat

namespace Sound

theorem index_of_mem (h : r.Sound) (he : (p, i, a) ∈ r.entries) : r.index.get? i = some p :=
  (h.indexed p i).2 ⟨a, he⟩

/-- An id stands for one registration. -/
theorem unique (h : r.Sound) (he : (p, i, a) ∈ r.entries) (he' : (p', i, b) ∈ r.entries) :
    p' = p ∧ b = a := by
  have hp : p' = p := Option.some.inj ((h.index_of_mem he').symm.trans (h.index_of_mem he))
  subst hp
  rw [mem_entries] at he he'
  exact ⟨rfl, Option.some.inj (he'.symm.trans he)⟩

theorem empty : (({} : Registry)).Sound where
  indexed p i := by simp [entries, SortedMap.empty, get?, lookup]
  filled p agents h := by cases h
  issued p i a h := by cases h
  valid := by decide

/-- The agent under an id is the one of its entry. -/
theorem agent?_eq_some_iff (h : r.Sound) : r.agent? i = some a ↔ ∃ p, (p, i, a) ∈ r.entries := by
  rw [agent?, Option.bind_eq_some_iff]
  constructor
  · rintro ⟨p, -, hp⟩
    exact ⟨p, mem_entries.2 hp⟩
  · rintro ⟨p, hp⟩
    exact ⟨p, h.index_of_mem hp, mem_entries.1 hp⟩

theorem contains_iff (h : r.Sound) : r.index.contains i = true ↔ ∃ p a, (p, i, a) ∈ r.entries := by
  rw [contains, Option.isSome_iff_exists]
  exact exists_congr fun p => h.indexed p i

end Sound

/-! ## Registering -/

theorem nextId?_eq_some (h : r.nextId? = some i) :
    i.number.toNat = r.lastId.toNat + 1 ∧ i.number.toNat < AgentId.invalid.number.toNat := by
  simp only [nextId?] at h
  split at h
  · next hlt =>
    cases h
    have hmax : AgentId.invalid.number.toNat < UInt32.size := by decide
    rw [UInt32.toNat_ofNat_of_lt' (Nat.lt_trans hlt hmax)]
    exact ⟨rfl, hlt⟩
  · cases h

namespace Sound

/-- A new id is in no bucket. -/
theorem not_mem_of_next (h : r.Sound) (hn : r.nextId? = some i) : (p, i, a) ∉ r.entries := by
  intro he
  have h1 := (h.issued p i a he).2
  have h2 := (nextId?_eq_some hn).1
  omega

end Sound

theorem mem_entries_register (h : r.Sound) (hn : r.nextId? = some i) :
    (p', i', b) ∈ (r.register a p i).entries ↔
      (p', i', b) = (p, i, a) ∨ (p', i', b) ∈ r.entries := by
  rw [mem_entries, mem_entries, bucket_register]
  by_cases hp : p' = p
  · subst hp
    rw [if_pos rfl, get?_insert]
    by_cases hi : i' = i
    · subst hi
      have hne : (r.bucket p').get? i' ≠ some b := fun he => h.not_mem_of_next hn (mem_entries.2 he)
      simp [hne, eq_comm]
    · simp [hi]
  · simp [hp]

namespace Sound

theorem register (h : r.Sound) (hn : r.nextId? = some i) : (r.register a p i).Sound where
  indexed q j := by
    simp only [mem_entries_register h hn]
    show (r.index.insert i p).get? j = some q ↔ _
    rw [get?_insert]
    by_cases hj : j = i
    · subst hj
      have hnone : ∀ b, (q, j, b) ∉ r.entries := fun b => h.not_mem_of_next hn
      simp [hnone, eq_comm]
    · simp [hj, h.indexed]
  filled q agents hq := by
    replace hq : (r.buckets.insert p ((r.bucket p).insert i a)).get? q = some agents := hq
    rw [get?_insert] at hq
    split at hq
    · cases hq
      rw [Bool.eq_false_iff]
      intro he
      have : ((r.bucket p).insert i a).get? i = none := by rw [isEmpty_iff.1 he]; rfl
      rw [get?_insert, if_pos rfl] at this
      cases this
    · exact h.filled q agents hq
  issued q j b he := by
    have hi := (nextId?_eq_some hn).1
    show 0 < j.number.toNat ∧ j.number.toNat ≤ i.number.toNat
    rcases (mem_entries_register h hn).1 he with he | he
    · cases he; omega
    · have := h.issued q j b he; omega
  valid := (nextId?_eq_some hn).2

/-! ## Unregistering -/

theorem filled_unregister (h : ∀ q agents, r.buckets.get? q = some agents → agents.isEmpty = false)
    (q : Int32) (agents : SortedMap AgentId AgentRef)
    (hq : (r.unregister p i).buckets.get? q = some agents) : agents.isEmpty = false := by
  simp only [Registry.unregister, dropFromBucket] at hq
  split at hq
  · exact h q agents hq
  · split at hq
    · rw [get?_erase] at hq
      split at hq
      · cases hq
      · exact h q agents hq
    · next he =>
      rw [get?_insert] at hq
      split at hq
      · cases hq; exact Bool.eq_false_iff.2 he
      · exact h q agents hq

theorem unregister (h : r.Sound) (hi : r.index.get? i = some p) : (r.unregister p i).Sound where
  indexed q j := by
    simp only [mem_entries_unregister]
    show (r.index.erase i).get? j = some q ↔ _
    rw [get?_erase]
    by_cases hj : j = i
    · subst hj
      rw [if_pos rfl]
      constructor
      · intro hn; cases hn
      rintro ⟨b, he, hne⟩
      have : q = p := Option.some.inj ((h.index_of_mem he).symm.trans hi)
      exact absurd (by rw [this]) hne
    · simp [hj, h.indexed]
  filled := filled_unregister h.filled
  issued q j b he := h.issued q j b (mem_entries_unregister.1 he).1
  valid := h.valid

end Sound

theorem named_unbindAgent {name : String} : (r.unbindAgent a).named.get? name = some b ↔
    r.named.get? name = some b ∧ b ≠ a := by
  rw [unbindAgent, get?_filter, Option.filter_eq_some_iff, bne_iff_ne]

/-! ## Pruning -/

section Prune

variable {alive : AgentRef → Bool} {l : List (Int32 × AgentId)}

/-- The registry without a list of registrations. -/
def unregisterAll (r : Registry) (l : List (Int32 × AgentId)) : Registry :=
  l.foldl (fun r e => r.unregister e.1 e.2) r

theorem prune_eq : r.prune alive =
    { r.unregisterAll (r.stale alive) with
      named := (r.unregisterAll (r.stale alive)).named.filter fun _ a => alive a } := rfl

theorem mem_entries_unregisterAll : (p, i, a) ∈ (r.unregisterAll l).entries ↔
    (p, i, a) ∈ r.entries ∧ (p, i) ∉ l := by
  induction l generalizing r with
  | nil => simp [unregisterAll]
  | cons e l ih =>
    obtain ⟨q, j⟩ := e
    rw [unregisterAll, List.foldl_cons, ← unregisterAll, ih, mem_entries_unregister, List.mem_cons,
      not_or, and_assoc]

theorem index_unregisterAll : (r.unregisterAll l).index.get? i = some p ↔
    r.index.get? i = some p ∧ ∀ q, (q, i) ∉ l := by
  induction l generalizing r with
  | nil => simp [unregisterAll]
  | cons e l ih =>
    obtain ⟨q, j⟩ := e
    rw [unregisterAll, List.foldl_cons, ← unregisterAll, ih]
    show (r.index.erase j).get? i = some p ∧ _ ↔ _
    rw [get?_erase]
    by_cases hj : i = j
    · subst hj
      refine ⟨fun h => by simp at h, fun h => ?_⟩
      exact absurd List.mem_cons_self (h.2 q)
    · simp [hj]

theorem filled_unregisterAll
    (h : ∀ q agents, r.buckets.get? q = some agents → agents.isEmpty = false) :
    ∀ q agents, (r.unregisterAll l).buckets.get? q = some agents → agents.isEmpty = false := by
  induction l generalizing r with
  | nil => exact h
  | cons e l ih => exact ih (Sound.filled_unregister h)

theorem unregisterAll_rest : (r.unregisterAll l).lastId = r.lastId ∧
    (r.unregisterAll l).named = r.named ∧ (r.unregisterAll l).pendingAdd = r.pendingAdd ∧
    (r.unregisterAll l).pendingRemove = r.pendingRemove := by
  induction l generalizing r with
  | nil => exact ⟨rfl, rfl, rfl, rfl⟩
  | cons e l ih => exact ih (r := r.unregister e.1 e.2)

theorem mem_stale : (p, i) ∈ r.stale alive ↔ ∃ a, (p, i, a) ∈ r.entries ∧ alive a = false := by
  simp only [stale, List.mem_map, List.mem_filter, Bool.not_eq_true', Prod.exists, Prod.mk.injEq]
  constructor
  · rintro ⟨q, j, a, ⟨he, ha⟩, rfl, rfl⟩
    exact ⟨a, he, ha⟩
  · rintro ⟨a, he, ha⟩
    exact ⟨p, i, a, ⟨he, ha⟩, rfl, rfl⟩

/-- What is left are the registrations of living agents. -/
theorem mem_entries_prune : (p, i, a) ∈ (r.prune alive).entries ↔
    (p, i, a) ∈ r.entries ∧ alive a = true := by
  show (p, i, a) ∈ (r.unregisterAll (r.stale alive)).entries ↔ _
  rw [mem_entries_unregisterAll]
  refine and_congr_right fun he => ?_
  rw [mem_stale]
  constructor
  · intro hn
    exact Bool.not_eq_false _ ▸ fun ha => hn ⟨a, he, ha⟩
  · rintro ha ⟨b, hb, hdead⟩
    rw [mem_entries] at he hb
    rw [Option.some.inj (hb.symm.trans he), ha] at hdead
    cases hdead

@[simp] theorem lastId_prune : (r.prune alive).lastId = r.lastId := unregisterAll_rest.1

@[simp] theorem pendingAdd_prune : (r.prune alive).pendingAdd = r.pendingAdd :=
  unregisterAll_rest.2.2.1

@[simp] theorem pendingRemove_prune : (r.prune alive).pendingRemove = r.pendingRemove :=
  unregisterAll_rest.2.2.2

/-- What is left are the names of living agents. -/
theorem named_prune {name : String} : (r.prune alive).named.get? name = some a ↔
    r.named.get? name = some a ∧ alive a = true := by
  rw [prune_eq, unregisterAll_rest.2.1, get?_filter, Option.filter_eq_some_iff]

theorem Sound.prune (h : r.Sound) : (r.prune alive).Sound where
  indexed q j := by
    show (r.unregisterAll (r.stale alive)).index.get? j = some q ↔
      ∃ a, (q, j, a) ∈ (r.unregisterAll (r.stale alive)).entries
    rw [index_unregisterAll, h.indexed]
    constructor
    · rintro ⟨⟨a, he⟩, hn⟩
      exact ⟨a, mem_entries_unregisterAll.2 ⟨he, hn q⟩⟩
    · rintro ⟨a, he⟩
      rw [mem_entries_unregisterAll] at he
      refine ⟨⟨a, he.1⟩, fun q' hs => ?_⟩
      obtain ⟨b, hb, -⟩ := mem_stale.1 hs
      obtain ⟨rfl, -⟩ := h.unique he.1 hb
      exact he.2 hs
  filled := filled_unregisterAll h.filled
  issued q j a he := by
    rw [lastId_prune]
    exact h.issued q j a (mem_entries_prune.1 he).1
  valid := by rw [lastId_prune]; exact h.valid

end Prune

/-! ## Clearing -/

theorem entries_clear : r.clear.entries = [] := rfl

theorem Sound.clear (h : r.Sound) : r.clear.Sound where
  indexed q j := by
    rw [entries_clear]
    exact ⟨fun hn => (by cases hn), fun ⟨_, he⟩ => (by cases he)⟩
  filled q agents hq := by cases hq
  issued q j a he := by cases he
  valid := h.valid

end AgentScheduler.Registry
