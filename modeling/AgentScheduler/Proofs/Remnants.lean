/-
What is left in a registry of agents that are gone. Two registries are the same
but for some agents (`SameBut`) if they have the same entries and names of all
other agents, the same requests, and the next id in common. Every operation of a
registry keeps them so. A reader that skips agents that are gone finds the same
in both, and once what is left is dropped the two are equal (`SameBut.prune_eq`).
-/
import AgentScheduler.Proofs.Changes
import AgentScheduler.Proofs.RegistryFacts
import Mathlib.Data.List.Sort

namespace AgentScheduler.Registry

open SortedMap

variable {r r' : Registry} {gone alive : AgentRef → Bool} {p : Int32} {i : AgentId} {a : AgentRef}

/-- The same registrations, names and requests, apart from what is left of some agents. -/
structure SameBut (gone : AgentRef → Bool) (r r' : Registry) : Prop where
  lastId : r'.lastId = r.lastId
  entries : ∀ p i a, gone a = false → ((p, i, a) ∈ r'.entries ↔ (p, i, a) ∈ r.entries)
  named : ∀ name a, gone a = false → (r'.named.get? name = some a ↔ r.named.get? name = some a)
  pendingAdd : r'.pendingAdd = r.pendingAdd
  pendingRemove : r'.pendingRemove = r.pendingRemove

/-! ## Equal registries -/

/-- Sound registries with the same entries have the same buckets. -/
theorem Sound.buckets_eq (h : r.Sound) (h' : r'.Sound)
    (he : ∀ p i a, (p, i, a) ∈ r'.entries ↔ (p, i, a) ∈ r.entries) : r'.buckets = r.buckets := by
  have hbucket (p : Int32) : r'.bucket p = r.bucket p := by
    refine ext_get? fun i => Option.ext fun a => ?_
    rw [← mem_entries, ← mem_entries, he]
  -- a bucket that is there is not empty, so an empty one is not there
  have hget {r : Registry} (h : r.Sound) (p : Int32) :
      r.buckets.get? p = if (r.bucket p).isEmpty then none else some (r.bucket p) := by
    cases hp : r.buckets.get? p with
    | none => rw [bucket, hp]; rfl
    | some agents => rw [bucket_of_get? hp, h.filled p agents hp]; rfl
  exact ext_get? fun p => by rw [hget h', hget h, hbucket]

/-- Sound registries with the same entries, names and requests are equal. -/
theorem Sound.eq_of_same (h : r.Sound) (h' : r'.Sound) (hs : SameBut (fun _ => false) r r') :
    r' = r := by
  have hentries : ∀ p i a, (p, i, a) ∈ r'.entries ↔ (p, i, a) ∈ r.entries :=
    fun p i a => hs.entries p i a rfl
  have hindex : r'.index = r.index := by
    refine ext_get? fun i => Option.ext fun p => ?_
    rw [h'.indexed, h.indexed]
    exact exists_congr fun a => hentries p i a
  have hnamed : r'.named = r.named :=
    ext_get? fun name => Option.ext fun a => hs.named name a rfl
  have hbuckets := h.buckets_eq h' hentries
  obtain ⟨_, _, _, _, _, _⟩ := r
  obtain ⟨_, _, _, _, _, _⟩ := r'
  obtain rfl := hs.lastId
  obtain rfl := hs.pendingAdd
  obtain rfl := hs.pendingRemove
  obtain rfl := hbuckets
  obtain rfl := hindex
  obtain rfl := hnamed
  rfl

namespace SameBut

theorem refl (gone : AgentRef → Bool) (r : Registry) : SameBut gone r r :=
  ⟨rfl, fun _ _ _ _ => .rfl, fun _ _ _ => .rfl, rfl, rfl⟩

/-! ## Operations -/

theorem nextId? (h : SameBut gone r r') : r'.nextId? = r.nextId? := by
  rw [Registry.nextId?, Registry.nextId?, h.lastId]

theorem register (h : SameBut gone r r') (hs : r.Sound) (hs' : r'.Sound)
    (hn : r.nextId? = some i) : SameBut gone (r.register a p i) (r'.register a p i) where
  lastId := rfl
  entries q j b hb := by
    rw [mem_entries_register hs hn, mem_entries_register hs' (h.nextId?.trans hn),
      h.entries q j b hb]
  named := h.named
  pendingAdd := h.pendingAdd
  pendingRemove := h.pendingRemove

theorem unregister (h : SameBut gone r r') :
    SameBut gone (r.unregister p i) (r'.unregister p i) where
  lastId := h.lastId
  entries q j b hb := by rw [mem_entries_unregister, mem_entries_unregister, h.entries q j b hb]
  named := h.named
  pendingAdd := h.pendingAdd
  pendingRemove := h.pendingRemove

/-- New names, the same in both but for some agents. -/
theorem rename (h : SameBut gone r r') {named named' : SortedMap String AgentRef}
    (hn : ∀ name a, gone a = false → (named'.get? name = some a ↔ named.get? name = some a)) :
    SameBut gone { r with named } { r' with named := named' } :=
  ⟨h.lastId, h.entries, hn, h.pendingAdd, h.pendingRemove⟩

theorem unbindAgent (h : SameBut gone r r') : SameBut gone (r.unbindAgent a) (r'.unbindAgent a) :=
  h.rename fun name b hb => by
    show (r'.unbindAgent a).named.get? name = some b ↔ (r.unbindAgent a).named.get? name = some b
    rw [named_unbindAgent, named_unbindAgent, h.named name b hb]

theorem setBinding (h : SameBut gone r r') (name : String) :
    SameBut gone (r.setBinding name a) (r'.setBinding name a) :=
  h.rename fun name' b hb => by
    rw [get?_insert, get?_insert]
    split
    · rfl
    · exact h.named name' b hb

theorem dropBinding (h : SameBut gone r r') (name : String) :
    SameBut gone (r.dropBinding name) (r'.dropBinding name) :=
  h.rename fun name' b hb => by
    rw [get?_erase, get?_erase]
    split
    · rfl
    · exact h.named name' b hb

/-- New requests, the same in both. -/
theorem queue (h : SameBut gone r r') {add add' remove remove' : List AgentRef} (ha : add' = add)
    (hr : remove' = remove) : SameBut gone { r with pendingAdd := add, pendingRemove := remove }
      { r' with pendingAdd := add', pendingRemove := remove' } :=
  ⟨h.lastId, h.entries, h.named, ha, hr⟩

theorem clear (h : SameBut gone r r') : SameBut gone r.clear r'.clear where
  lastId := h.lastId
  entries _ _ _ _ := .rfl
  named _ _ _ := .rfl
  pendingAdd := rfl
  pendingRemove := rfl

/-! ## Dropping what is left -/

theorem spared (hgone : ∀ a, gone a = true → alive a = false) (ha : alive a = true) :
    gone a = false :=
  Bool.eq_false_iff.2 fun hg => by rw [hgone a hg] at ha; cases ha

/-- Once the registrations and names of agents that are gone are dropped, there is no difference. -/
theorem prune_eq (h : SameBut gone r r') (hs : r.Sound) (hs' : r'.Sound)
    (hgone : ∀ a, gone a = true → alive a = false) : r'.prune alive = r.prune alive := by
  refine hs.prune.eq_of_same hs'.prune ⟨?_, fun p i a _ => ?_, fun name a _ => ?_, ?_, ?_⟩
  · rw [lastId_prune, lastId_prune, h.lastId]
  · rw [mem_entries_prune, mem_entries_prune]
    exact and_congr_left fun ha => h.entries p i a (spared hgone ha)
  · rw [named_prune, named_prune]
    exact and_congr_left fun ha => h.named name a (spared hgone ha)
  · rw [pendingAdd_prune, pendingAdd_prune, h.pendingAdd]
  · rw [pendingRemove_prune, pendingRemove_prune, h.pendingRemove]

/-- Dropping what is left makes no difference to agents that are not gone. -/
theorem of_prune (hentries : ∀ p i a, (p, i, a) ∈ r.entries → gone a = false → alive a = true)
    (hnamed : ∀ name a, r.named.get? name = some a → gone a = false → alive a = true) :
    SameBut gone r (r.prune alive) where
  lastId := lastId_prune
  entries p i a ha := by
    rw [mem_entries_prune]
    exact and_iff_left_of_imp fun he => hentries p i a he ha
  named name a ha := by
    rw [named_prune]
    exact and_iff_left_of_imp fun hn => hnamed name a hn ha
  pendingAdd := pendingAdd_prune
  pendingRemove := pendingRemove_prune

/-! ## Readers -/

/-- The entries of the other agents, in order. -/
theorem filter_entries (h : SameBut gone r r') : (r'.entries.filter fun e => !gone e.2.2) =
    r.entries.filter fun e => !gone e.2.2 := by
  refine (entries_pairwise.filter _).eq_of_mem_iff (entries_pairwise.filter _) ?_
  rintro ⟨p, i, a⟩
  rw [List.mem_filter, List.mem_filter]
  refine and_congr_left fun ha => h.entries p i a ?_
  simpa using ha

/-- The other agents, in the order in which a tick visits them. -/
theorem filter_walkOrder (h : SameBut gone r r') :
    (r'.walkOrder.filter fun a => !gone a) = r.walkOrder.filter fun a => !gone a := by
  have hfilter (r : Registry) : (r.walkOrder.filter fun a => !gone a) =
      (r.entries.filter fun e => !gone e.2.2).map (·.2.2) := List.filter_map
  rw [hfilter, hfilter, h.filter_entries]

section Alive

variable (hgone : ∀ a, gone a = true → alive a = false)

include hgone

/-- The living agents, in the order in which a tick visits them. -/
theorem walkOrder_alive (h : SameBut gone r r') :
    r'.walkOrder.filter alive = r.walkOrder.filter alive := by
  have hfilter (r : Registry) :
      (r.walkOrder.filter fun a => !gone a).filter alive = r.walkOrder.filter alive := by
    rw [List.filter_filter]
    refine List.filter_congr fun a _ => ?_
    cases ha : alive a with
    | false => rfl
    | true => rw [spared hgone ha]; rfl
  rw [← hfilter, ← hfilter, h.filter_walkOrder]

theorem named_alive (h : SameBut gone r r') (name : String) :
    (r'.named.get? name).filter alive = (r.named.get? name).filter alive := by
  refine Option.ext fun a => ?_
  rw [Option.filter_eq_some_iff, Option.filter_eq_some_iff]
  exact and_congr_left fun ha => h.named name a (spared hgone ha)

theorem bindings_alive (h : SameBut gone r r') :
    (r'.named.filter fun _ a => alive a) = r.named.filter fun _ a => alive a :=
  ext_get? fun name => by rw [get?_filter, get?_filter, named_alive hgone h]

theorem agent?_alive (h : SameBut gone r r') (hs : r.Sound) (hs' : r'.Sound) (i : AgentId) :
    (r'.agent? i).filter alive = (r.agent? i).filter alive := by
  refine Option.ext fun a => ?_
  rw [Option.filter_eq_some_iff, Option.filter_eq_some_iff, hs'.agent?_eq_some_iff,
    hs.agent?_eq_some_iff]
  exact and_congr_left fun ha => exists_congr fun p => h.entries p i a (spared hgone ha)

theorem namesOf_alive (h : SameBut gone r r') (ha : alive a = true) :
    r'.namesOf a = r.namesOf a := by
  rw [namesOf, namesOf]
  congr 1
  refine ext_get? fun name => Option.ext fun b => ?_
  rw [get?_filter, get?_filter, Option.filter_eq_some_iff, Option.filter_eq_some_iff]
  refine and_congr_left fun hb => h.named name b ?_
  rw [beq_iff_eq.1 hb]
  exact spared hgone ha

end Alive

end SameBut

end AgentScheduler.Registry
