/-
Maps kept as a list of entries in strictly ascending key order. The order is
part of the type, so two maps with the same entries are equal, and a walk over
a map visits its keys in ascending order.

`get?_insert`, `get?_erase` and `get?_filter` say what each operation does to
the lookup; `get?_eq_some_iff` says what the lookup finds.
-/
namespace AgentScheduler

variable {κ : Type} {ν ν' : Type}

/-- The keys of the entries ascend strictly. -/
def Ascending [Ord κ] (l : List (κ × ν)) : Prop :=
  l.Pairwise fun a b => compare a.1 b.1 = .lt

/-- A finite map whose entries are listed in strictly ascending key order. -/
structure SortedMap (κ ν : Type) [Ord κ] where
  toList : List (κ × ν)
  ascending : Ascending toList

namespace SortedMap

/-- The value of the first entry under `k`. -/
def lookup [Ord κ] (k : κ) : List (κ × ν) → Option ν
  | [] => none
  | (k', v) :: l => if compare k k' = .eq then some v else lookup k l

/-- The entries with `k` mapped to `v`, in key order. -/
def insertEntry [Ord κ] (k : κ) (v : ν) : List (κ × ν) → List (κ × ν)
  | [] => [(k, v)]
  | (k', v') :: l =>
    match compare k k' with
    | .lt => (k, v) :: (k', v') :: l
    | .eq => (k, v) :: l
    | .gt => (k', v') :: insertEntry k v l

section Lists

variable [Ord κ]

theorem mem_insertEntry {k : κ} {v : ν} {e : κ × ν} {l : List (κ × ν)}
    (h : e ∈ insertEntry k v l) : e = (k, v) ∨ e ∈ l := by
  induction l with
  | nil => simpa [insertEntry] using h
  | cons hd l ih =>
    obtain ⟨k', v'⟩ := hd
    simp only [insertEntry] at h
    split at h
    · simpa using h
    · rcases List.mem_cons.1 h with h | h
      · exact .inl h
      · exact .inr (List.mem_cons_of_mem _ h)
    · rcases List.mem_cons.1 h with h | h
      · exact .inr (h ▸ List.mem_cons_self)
      · exact (ih h).imp_right (List.mem_cons_of_mem _)

theorem ascending_insertEntry [Std.TransOrd κ] (k : κ) (v : ν) {l : List (κ × ν)}
    (h : Ascending l) : Ascending (insertEntry k v l) := by
  induction l with
  | nil => exact List.pairwise_singleton _ _
  | cons hd l ih =>
    obtain ⟨k', v'⟩ := hd
    have htl : Ascending l := (List.pairwise_cons.1 h).2
    have hhd : ∀ e ∈ l, compare k' e.1 = .lt := (List.pairwise_cons.1 h).1
    simp only [insertEntry]
    split
    · rename_i hlt
      refine List.pairwise_cons.2 ⟨fun e he => ?_, h⟩
      rcases List.mem_cons.1 he with rfl | he
      · exact hlt
      · exact Std.TransCmp.lt_trans hlt (hhd e he)
    · rename_i heq
      refine List.pairwise_cons.2 ⟨fun e he => ?_, htl⟩
      exact Std.TransCmp.lt_of_eq_of_lt heq (hhd e he)
    · rename_i hgt
      refine List.pairwise_cons.2 ⟨fun e he => ?_, ih htl⟩
      rcases mem_insertEntry he with rfl | he
      · exact Std.OrientedCmp.lt_of_gt hgt
      · exact hhd e he

theorem lookup_eq_none_of_lt [Std.TransOrd κ] {k : κ} {l : List (κ × ν)}
    (h : ∀ e ∈ l, compare k e.1 = .lt) : lookup k l = none := by
  induction l with
  | nil => rfl
  | cons hd l ih =>
    have hk := h hd List.mem_cons_self
    simp only [lookup, hk]
    exact ih fun e he => h e (List.mem_cons_of_mem _ he)

end Lists

section Operations

variable [Ord κ]

/-- The map with no entries. -/
def empty : SortedMap κ ν := ⟨[], .nil⟩

instance : EmptyCollection (SortedMap κ ν) := ⟨empty⟩

instance : Inhabited (SortedMap κ ν) := ⟨empty⟩

/-- Two maps are equal when they list the same entries. -/
theorem ext_toList {m m' : SortedMap κ ν} (h : m.toList = m'.toList) : m = m' := by
  cases m; cases m'; cases h; rfl

instance [DecidableEq κ] [DecidableEq ν] : DecidableEq (SortedMap κ ν) := fun m m' =>
  decidable_of_iff (m.toList = m'.toList) ⟨ext_toList, fun h => h ▸ rfl⟩

/-- The value under `k`. -/
def get? (m : SortedMap κ ν) (k : κ) : Option ν := lookup k m.toList

/-- `k` has an entry. -/
def contains (m : SortedMap κ ν) (k : κ) : Bool := (m.get? k).isSome

/-- The map with `k` mapped to `v`, whatever it was mapped to before. -/
def insert [Std.TransOrd κ] (m : SortedMap κ ν) (k : κ) (v : ν) : SortedMap κ ν :=
  ⟨insertEntry k v m.toList, ascending_insertEntry k v m.ascending⟩

/-- The entries that satisfy `p`. -/
def filter (m : SortedMap κ ν) (p : κ → ν → Bool) : SortedMap κ ν :=
  ⟨m.toList.filter fun e => p e.1 e.2, m.ascending.filter _⟩

/-- The map without an entry under `k`. -/
def erase (m : SortedMap κ ν) (k : κ) : SortedMap κ ν :=
  m.filter fun k' _ => compare k k' != .eq

/-- The map with every value sent through `f`. -/
def mapValues (m : SortedMap κ ν) (f : κ → ν → ν') : SortedMap κ ν' :=
  ⟨m.toList.map fun e => (e.1, f e.1 e.2), by rw [Ascending, List.pairwise_map]; exact m.ascending⟩

/-- The keys, ascending. -/
def keys (m : SortedMap κ ν) : List κ := m.toList.map (·.1)

/-- The values, in the order of their keys. -/
def values (m : SortedMap κ ν) : List ν := m.toList.map (·.2)

/-- How many entries there are. -/
def size (m : SortedMap κ ν) : Nat := m.toList.length

/-- There are no entries. -/
def isEmpty (m : SortedMap κ ν) : Bool := m.toList.isEmpty

/-- The map of a list of entries; of several entries under one key the last counts. -/
def ofList [Std.TransOrd κ] (l : List (κ × ν)) : SortedMap κ ν :=
  l.foldl (fun m e => m.insert e.1 e.2) empty

end Operations

section Lookup

variable [Ord κ]

@[simp] theorem get?_empty (k : κ) : (empty : SortedMap κ ν).get? k = none := rfl

theorem lookup_insertEntry [Std.TransOrd κ] [Std.LawfulEqOrd κ] [DecidableEq κ]
    (k k' : κ) (v : ν) (l : List (κ × ν)) :
    lookup k' (insertEntry k v l) = if k' = k then some v else lookup k' l := by
  induction l with
  | nil => simp [insertEntry, lookup]
  | cons hd l ih =>
    obtain ⟨c, w⟩ := hd
    simp only [insertEntry]
    split
    · simp [lookup]
    · rename_i heq
      have : k = c := Std.LawfulEqCmp.eq_of_compare heq
      subst this
      by_cases hk : k' = k <;> simp [lookup, hk]
    · rename_i hgt
      simp only [lookup, Std.LawfulEqCmp.compare_eq_iff_eq, ih]
      by_cases hc : k' = c
      · subst hc
        have : ¬ k' = k := fun h => by subst h; simp at hgt
        simp [this]
      · simp [hc]

/-- After an insertion the key reads the new value and every other key reads as before. -/
theorem get?_insert [Std.TransOrd κ] [Std.LawfulEqOrd κ] [DecidableEq κ] (m : SortedMap κ ν)
    (k k' : κ) (v : ν) : (m.insert k v).get? k' = if k' = k then some v else m.get? k' :=
  lookup_insertEntry k k' v m.toList

theorem lookup_filter [Std.TransOrd κ] [Std.LawfulEqOrd κ] (p : κ → ν → Bool) (k : κ)
    {l : List (κ × ν)} (h : Ascending l) :
    lookup k (l.filter fun e => p e.1 e.2) = (lookup k l).filter (p k) := by
  induction l with
  | nil => rfl
  | cons hd l ih =>
    obtain ⟨c, w⟩ := hd
    have htl : Ascending l := (List.pairwise_cons.1 h).2
    have hhd : ∀ e ∈ l, compare c e.1 = .lt := (List.pairwise_cons.1 h).1
    simp only [List.filter_cons, lookup, Std.LawfulEqCmp.compare_eq_iff_eq]
    by_cases hk : k = c
    · subst hk
      have hn : lookup k l = none := lookup_eq_none_of_lt hhd
      by_cases hp : p k w
      · simp [hp, lookup, Option.filter]
      · simp [hp, ih htl, hn, Option.filter]
    · by_cases hp : p c w
      · simp [hp, lookup, hk, ih htl]
      · simp [hp, hk, ih htl]

/-- A filter keeps exactly the values that satisfy the condition under their key. -/
theorem get?_filter [Std.TransOrd κ] [Std.LawfulEqOrd κ] (m : SortedMap κ ν)
    (p : κ → ν → Bool) (k : κ) : (m.filter p).get? k = (m.get? k).filter (p k) :=
  lookup_filter p k m.ascending

/-- After an erasure the key reads nothing and every other key reads as before. -/
theorem get?_erase [Std.TransOrd κ] [Std.LawfulEqOrd κ] [DecidableEq κ] (m : SortedMap κ ν)
    (k k' : κ) : (m.erase k).get? k' = if k' = k then none else m.get? k' := by
  rw [erase, get?_filter]
  by_cases h : k' = k
  · subst h
    cases m.get? k' <;> simp [Option.filter]
  · have : compare k k' ≠ .eq := fun he => h (Std.LawfulEqCmp.eq_of_compare he).symm
    cases m.get? k' <;> simp [Option.filter, h, this]

theorem lookup_map (f : κ → ν → ν') (k : κ) [Std.LawfulEqOrd κ] (l : List (κ × ν)) :
    lookup k (l.map fun e => (e.1, f e.1 e.2)) = (lookup k l).map (f k) := by
  induction l with
  | nil => rfl
  | cons hd l ih =>
    simp only [List.map_cons, lookup]
    split
    · rename_i h
      rw [Std.LawfulEqCmp.eq_of_compare h]; rfl
    · exact ih

theorem get?_mapValues [Std.LawfulEqOrd κ] (m : SortedMap κ ν) (f : κ → ν → ν') (k : κ) :
    (m.mapValues f).get? k = (m.get? k).map (f k) :=
  lookup_map f k m.toList

theorem lookup_eq_some_iff [Std.TransOrd κ] [Std.LawfulEqOrd κ] {k : κ} {v : ν}
    {l : List (κ × ν)} (h : Ascending l) : lookup k l = some v ↔ (k, v) ∈ l := by
  induction l with
  | nil => simp [lookup]
  | cons hd l ih =>
    obtain ⟨c, w⟩ := hd
    have htl : Ascending l := (List.pairwise_cons.1 h).2
    have hhd : ∀ e ∈ l, compare c e.1 = .lt := (List.pairwise_cons.1 h).1
    simp only [lookup, Std.LawfulEqCmp.compare_eq_iff_eq, List.mem_cons, Prod.mk.injEq]
    by_cases hk : k = c
    · subst hk
      have : (k, v) ∉ l := fun hm => by simpa using hhd _ hm
      simp [this, eq_comm]
    · simp [hk, ih htl]

/-- A key reads a value exactly when the two are an entry. -/
theorem get?_eq_some_iff [Std.TransOrd κ] [Std.LawfulEqOrd κ] {m : SortedMap κ ν} {k : κ}
    {v : ν} : m.get? k = some v ↔ (k, v) ∈ m.toList :=
  lookup_eq_some_iff m.ascending

/-- No key has two entries. -/
theorem nodup_toList [Std.TransOrd κ] (m : SortedMap κ ν) : m.toList.Nodup := by
  refine m.ascending.imp fun {e e'} h he => ?_
  subst he
  rw [Std.ReflOrd.compare_self] at h
  cases h

/-- What a map of a list reads is in the list. -/
theorem mem_of_get?_ofList [Std.TransOrd κ] [Std.LawfulEqOrd κ] {l : List (κ × ν)} {k : κ} {v : ν}
    (h : (ofList l).get? k = some v) : (k, v) ∈ l := by
  have key : ∀ m : SortedMap κ ν, (l.foldl (fun m e => m.insert e.1 e.2) m).get? k = some v →
      (k, v) ∈ l ∨ m.get? k = some v := by
    clear h
    induction l with
    | nil => exact fun m h => .inr h
    | cons e l ih =>
      intro m h
      rcases ih _ h with h | h
      · exact .inl (List.mem_cons_of_mem _ h)
      · rcases mem_insertEntry (get?_eq_some_iff.1 h) with h | h
        · exact .inl (h ▸ List.mem_cons_self)
        · exact .inr (get?_eq_some_iff.2 h)
  rcases key empty h with h | h
  · exact h
  · cases h

theorem isEmpty_iff {m : SortedMap κ ν} : m.isEmpty = true ↔ m = empty := by
  rw [isEmpty, List.isEmpty_iff]
  exact ⟨fun h => ext_toList h, fun h => h ▸ rfl⟩

end Lookup

end SortedMap

end AgentScheduler
