/-
The ids that a context gives out over its life. `ledger` pairs every stage of a
run with the registrations that were made in a context until then, in order: the
entries that were not there one stage before. The ids of all of them are 1, 2, 3
and so on (`ids_in_order`), whatever is refused, removed, dropped, released or
loaded in between, and whether an addition was served at once or waited.
-/
import AgentScheduler.Proofs.Admissions
import AgentScheduler.Proofs.Routine
import Mathlib.Data.List.Nodup
import Mathlib.Data.List.Range
import Mathlib.Data.List.Sort

namespace AgentScheduler

/-- A registration as the buckets list it: the priority, the id, and the agent. -/
abbrev Listing := Int32 × AgentId × AgentRef

/-- A registration under the next id is the only entry that comes. -/
theorem Registry.filter_register {r : Registry} {p : Int32} {i : AgentId} {a : AgentRef}
    (hr : r.Sound) (hn : r.nextId? = some i) :
    ((r.register a p i).entries.filter fun e => e ∉ r.entries) = [(p, i, a)] := by
  have hnodup : ((r.register a p i).entries.filter fun e => e ∉ r.entries).Nodup :=
    .filter _ (.of_map _ nodup_seats)
  refine List.perm_singleton.1 ((List.perm_ext_iff_of_nodup hnodup (List.nodup_singleton _)).2
    fun (q, j, b) => ?_)
  rw [List.mem_filter, List.mem_singleton, decide_eq_true_iff, mem_entries_register hr hn]
  constructor
  · rintro ⟨he | he, hne⟩
    · exact he
    · exact absurd he hne
  · rintro ⟨rfl, rfl, rfl⟩
    exact ⟨.inl rfl, hr.not_mem_of_next hn⟩

namespace Context

variable {ctx : Context} {place : Registration} {a : AgentRef} {p : Int32} {i : AgentId}

theorem not_holds_of_fresh (h : ctx.entry place = .fresh i) : ctx.holds place = false := by
  unfold entry at h
  split at h
  · cases h
  · next hh => exact Bool.eq_false_iff.2 hh

theorem holds_register : (ctx.withRegistry (·.register a p i)).holds ⟨ctx.id, i⟩ = true := by
  have hin : (ctx.registry.index.insert i p).contains i = true := by
    rw [SortedMap.contains, SortedMap.get?_insert, if_pos rfl]
    rfl
  exact Bool.and_eq_true_iff.2 ⟨beq_self_eq_true _, hin⟩

end Context

namespace World

variable {τ α : Type} {w v u : World τ α} {c : ContextRef} {ctx : Context}

/-! ## The ledger -/

/-- The registry of a context; an empty one if the context does not exist. -/
def registry (w : World τ α) (c : ContextRef) : Registry :=
  ((w.context? c).map (·.registry)).getD {}

/-- The registrations of a context that were not there in an earlier world. -/
def newListings (c : ContextRef) (w v : World τ α) : List Listing :=
  (v.registry c).entries.filter fun e => e ∉ (w.registry c).entries

/-- Each stage of a list with the registrations made until then, `made` at the first one. -/
def ledgerFrom (c : ContextRef) (made : List Listing) (w : World τ α) :
    List (World τ α) → List (World τ α × List Listing)
  | [] => [(w, made)]
  | v :: S => (w, made) :: ledgerFrom c (made ++ newListings c w v) v S

theorem registry_eq (hc : w.context? c = some ctx) : w.registry c = ctx.registry := by
  rw [registry, hc]
  rfl

theorem registry_none (hc : w.context? c = none) : w.registry c = {} := by
  rw [registry, hc]
  rfl

theorem newListings_eq_nil (h : ∀ e ∈ (v.registry c).entries, e ∈ (w.registry c).entries) :
    newListings c w v = [] :=
  List.filter_eq_nil_iff.2 fun e he => by simpa using h e he

/-- What one change means for a context: the registrations that come, and the ids given out. -/
inductive Booked (c : ContextRef) (w v : World τ α) : Prop
  /-- The context is gone, or not there yet. -/
  | absent (hc : v.context? c = none)
  /-- The context is new. -/
  | opened (hc : w.contexts.size ≤ c.index) (hr : v.registry c = {})
  /-- No registration comes, and no id is given out. -/
  | kept (hc : (w.context? c).isSome) (hnew : newListings c w v = [])
      (hid : (v.registry c).lastId = (w.registry c).lastId)
      (hentries : ∀ e ∈ (v.registry c).entries, e ∈ (w.registry c).entries)
  /-- One registration comes, under the next id. -/
  | entered {p : Int32} {i : AgentId} {a : AgentRef} (hc : (w.context? c).isSome)
      (hnew : newListings c w v = [(p, i, a)])
      (hn : (w.registry c).nextId? = some i) (hid : (v.registry c).lastId = i.number)
      (hentries : ∀ e ∈ (v.registry c).entries, e = (p, i, a) ∨ e ∈ (w.registry c).entries)
      (hbefore : w.containsAgent c a = false) (hafter : v.containsAgent c a = true)

theorem Admits.booked (h : Admits w v) (hw : w.Sound) (c : ContextRef) : Booked c w v := by
  have still (hc : w.context? c = v.context? c) : Booked c w v := by
    have hr : v.registry c = w.registry c := by rw [registry, registry, hc]
    cases hx : v.context? c with
    | none => exact .absent hx
    | some ctx =>
      rw [hx] at hc
      exact .kept (by rw [hc]; rfl) (newListings_eq_nil fun e he => hr ▸ he) (by rw [hr])
        fun e he => hr ▸ he
  cases h with
  | recedes h =>
    cases hx : v.context? c with
    | none => exact .absent hx
    | some ctx' =>
      obtain ⟨ctx, hc, hr⟩ := h.context c ctx' hx
      have hentries : ∀ e ∈ (v.registry c).entries, e ∈ (w.registry c).entries := by
        rw [registry_eq hx, registry_eq hc]
        exact hr.entries
      refine .kept (by rw [hc]; rfl) (newListings_eq_nil hentries) ?_ hentries
      rw [registry_eq hx, registry_eq hc, hr.issued]
  | opens id types stepMillis h =>
    have hx := context?_addContext (w := w) (c := c) (.new id types stepMillis)
    rw [← h] at hx
    by_cases hi : c.index = w.contexts.size
    · rw [if_pos hi] at hx
      exact .opened (Nat.le_of_eq hi.symm) (registry_eq hx)
    · rw [if_neg hi] at hx
      exact still hx.symm
  | @enters d ctx a agent i hsize hc hl he hv ha =>
    by_cases hd : c = d
    · subst hd
      have hn := Context.nextId?_of_fresh he
      have hs := hw c ctx hc
      have hbefore : w.registry c = ctx.registry := registry_eq hc
      have hafter : v.registry c = ctx.registry.register a agent.priority i := registry_eq hv.self
      have hl' : v.live? a = some { agent with place := ⟨ctx.id, i⟩ } := by
        rw [live?_move hl ha, if_pos rfl]
      refine .entered (p := agent.priority) (i := i) (a := a) (by rw [hc]; rfl) ?_
        (by rw [hbefore]; exact hn) (by rw [hafter]; rfl) ?_ ?_ ?_
      · rw [newListings, hafter, hbefore]
        exact Registry.filter_register hs hn
      · rw [hafter, hbefore]
        exact fun _ he => (Registry.mem_entries_register hs hn).1 he
      · rw [← Bool.not_eq_true, World.containsAgent_iff hc hl, Context.not_holds_of_fresh he]
        exact Bool.false_ne_true
      · exact (World.containsAgent_iff hv.self hl').2 Context.holds_register
    · exact still (hv.other hd).symm

/-- The registrations made in a context account for what its registry has. -/
structure Accounts (r : Registry) (made : List Listing) : Prop where
  ids : made.map (·.2.1.number.toNat) = List.range' 1 r.lastId.toNat
  listed : ∀ e ∈ r.entries, e ∈ made

/-- The registrations made in a context, against its registry. -/
structure InOrder (r : Registry) (made : List Listing) : Prop where
  /-- They were given the ids from 1 to the last one, one after the other. -/
  ids : made.map (·.2.1.number.toNat) = List.range' 1 r.lastId.toNat
  /-- No id names two of them. -/
  distinct : (made.map (·.2.1)).Nodup
  /-- No id is zero or the invalid one. -/
  valid : ∀ e ∈ made, e.2.1.number ≠ 0 ∧ e.2.1 ≠ .invalid
  listed : ∀ e ∈ r.entries, e ∈ made
  index : ∀ p i, r.index.get? i = some p → i.number ≤ r.lastId ∧ ∃ a, (p, i, a) ∈ made
  /-- Within a priority, a tick visits the agents in the order in which the registrations that they
  have now were made. -/
  order : ∀ p, r.entries.filter (·.1 = p) = made.filter fun e => e.1 = p ∧ e ∈ r.entries

namespace Accounts

variable {r : Registry} {made : List Listing}

theorem ascending (h : Accounts r made) :
    made.Pairwise fun e e' => e.2.1.number.toNat < e'.2.1.number.toNat := by
  rw [← List.pairwise_map (f := fun e : Listing => e.2.1.number.toNat), h.ids]
  exact List.pairwise_lt_range' 1

theorem inOrder (h : Accounts r made) (hs : r.Sound) : InOrder r made := by
  have hbounds : ∀ e ∈ made, 1 ≤ e.2.1.number.toNat ∧ e.2.1.number.toNat ≤ r.lastId.toNat := by
    intro e he
    have hmem := List.mem_map_of_mem (f := fun e : Listing => e.2.1.number.toNat) he
    rw [h.ids, List.mem_range'_1] at hmem
    omega
  have hvalid := hs.valid
  refine ⟨h.ids, ?_, fun e he => ?_, h.listed, fun p i hi => ?_, fun p => ?_⟩
  · rw [List.nodup_iff_pairwise_ne, List.pairwise_map]
    exact h.ascending.imp fun {e e'} hlt (he : e.2.1 = e'.2.1) => Nat.ne_of_lt hlt (by rw [he])
  · obtain ⟨hpos, hle⟩ := hbounds e he
    refine ⟨fun hz => ?_, fun hz => ?_⟩
    · rw [hz] at hpos
      exact absurd hpos (by decide)
    · rw [hz] at hle
      omega
  · obtain ⟨a, he⟩ := (hs.indexed p i).1 hi
    exact ⟨UInt32.le_iff_toNat_le.2 (hbounds _ (h.listed _ he)).2, a, h.listed _ he⟩
  · -- both lists have the same members, and both are sorted by id
    have hsorted : (r.entries.filter (·.1 = p)).Pairwise fun e e' =>
        e.2.1.number.toNat < e'.2.1.number.toNat := by
      rw [List.pairwise_filter]
      refine Registry.entries_pairwise.imp fun {e e'} hbefore hp hp' => ?_
      rw [decide_eq_true_iff] at hp hp'
      rcases hbefore with hlt | ⟨-, hlt⟩
      · rw [hp, hp'] at hlt
        exact absurd hlt (Int32.lt_irrefl)
      · exact UInt32.lt_iff_toNat_lt.1 hlt
    have hsorted' := h.ascending.filter fun e => decide (e.1 = p ∧ e ∈ r.entries)
    refine hsorted.eq_of_mem_iff hsorted' fun e => ?_
    simp only [List.mem_filter, decide_eq_true_iff]
    exact ⟨fun ⟨he, hp⟩ => ⟨h.listed e he, hp, he⟩, fun ⟨_, hp, he⟩ => ⟨he, hp⟩⟩

end Accounts

/-- What holds of a stage and the registrations made in a context until then. -/
structure Tallied (c : ContextRef) (w : World τ α) (made : List Listing) : Prop where
  sound : w.Sound
  /-- A context that does not exist yet has made none. -/
  none : w.contexts.size ≤ c.index → made = []
  accounts : ∀ ctx, w.context? c = some ctx → Accounts ctx.registry made

/-- A change adds to the tally what it makes. -/
theorem Tallied.step {made : List Listing} (h : Tallied c w made) (ha : Admits w v) :
    Tallied c v (made ++ newListings c w v) := by
  have hgone (hi : v.contexts.size ≤ c.index) : newListings c w v = [] :=
    newListings_eq_nil fun e he => by
      rw [registry_none (context?_eq_none_of_size hi)] at he
      cases he
  have before (hc : (w.context? c).isSome) : Accounts (w.registry c) made := by
    obtain ⟨ctx, hc⟩ := Option.isSome_iff_exists.1 hc
    exact registry_eq hc ▸ h.accounts ctx hc
  refine ⟨ha.sound h.sound, fun hi => ?_, fun ctx' hx => ?_⟩
  · rw [hgone hi, h.none (Nat.le_trans ha.size hi)]
    rfl
  · rw [← registry_eq hx]
    cases ha.booked h.sound c with
    | absent hc => rw [hx] at hc; cases hc
    | opened hc hr =>
      have hnew : newListings c w v = [] := newListings_eq_nil fun e he => by rw [hr] at he; cases he
      rw [hnew, h.none hc, hr]
      exact ⟨rfl, fun e he => by cases he⟩
    | kept hc hnew hid hentries =>
      rw [hnew, List.append_nil]
      exact ⟨by rw [hid]; exact (before hc).ids,
        fun e he => (before hc).listed e (hentries e he)⟩
    | @entered p i a hc hnew hn hid hentries _ _ =>
      rw [hnew]
      refine ⟨?_, fun e he => ?_⟩
      · rw [List.map_append, (before hc).ids, hid, (Registry.nextId?_eq_some hn).1,
          List.range'_1_concat, Nat.add_comm 1]
        exact congrArg _ (congrArg (fun n => [n]) (Registry.nextId?_eq_some hn).1)
      · rcases hentries e he with rfl | he
        · exact List.mem_append_right _ List.mem_cons_self
        · exact List.mem_append_left _ ((before hc).listed e he)

theorem ledgerFrom_tallied {S : List (World τ α)} {made : List Listing}
    (hS : Arrives Admits w S u) (h : Tallied c w made) :
    ∀ page ∈ ledgerFrom c made w S, Tallied c page.1 page.2 := by
  induction hS generalizing made with
  | stay => exact List.forall_mem_singleton.2 h
  | step ha _ ih => exact List.forall_mem_cons.2 ⟨h, ih (h.step ha)⟩

theorem ledgerFrom_stages (c : ContextRef) (made : List Listing) (w : World τ α)
    (S : List (World τ α)) : (ledgerFrom c made w S).map (·.1) = w :: S := by
  induction S generalizing made w with
  | nil => rfl
  | cons v S ih => exact congrArg (w :: ·) (ih _ v)

/-- As long as the context exists, a change gives out an id only with a registration, one at most,
and of an agent that the context did not have. -/
def Admission (c : ContextRef) (w v : World τ α) : Prop := (v.context? c).isSome →
  (v.registry c).lastId.toNat = (w.registry c).lastId.toNat + (newListings c w v).length ∧
    (newListings c w v).length ≤ 1 ∧ ∀ e ∈ newListings c w v,
      e.2.1.number.toNat = (w.registry c).lastId.toNat + 1 ∧
        w.containsAgent c e.2.2 = false ∧ v.containsAgent c e.2.2 = true

theorem Admits.admission (h : Admits w v) (hw : w.Sound) (c : ContextRef) : Admission c w v := by
  intro hv
  cases h.booked hw c with
  | absent hc => rw [hc] at hv; cases hv
  | opened hc hr =>
    have hnew : newListings c w v = [] := newListings_eq_nil fun e he => by rw [hr] at he; cases he
    rw [hnew, hr, registry_none (context?_eq_none_of_size hc)]
    exact ⟨rfl, by decide, fun e he => by cases he⟩
  | kept _ hnew hid _ =>
    rw [hnew, hid]
    exact ⟨rfl, by decide, fun e he => by cases he⟩
  | entered _ hnew hn hid _ hbefore hafter =>
    rw [hnew, hid]
    have hnext := (Registry.nextId?_eq_some hn).1
    exact ⟨hnext, Nat.le_refl 1, List.forall_mem_singleton.2 ⟨hnext, hbefore, hafter⟩⟩

section Runs

variable [Behavior τ α]

/-- Every stage of a run with the registrations made in a context until then. -/
def ledger (c : ContextRef) (ds : List (Deed τ α)) (w : World τ α) :
    List (World τ α × List Listing) :=
  ledgerFrom c [] w (laterStages ds w)

/-- At every stage of every run, the registrations that a context made until then have the ids 1, 2,
3 and so on, and agents of one priority are visited in the order of their registrations. Every point
is a stage, and from one stage to the next, as at every addition, an id goes with a registration. -/
theorem ids_in_order (h : Host α) (ds : List (Deed τ α)) (c : ContextRef) :
    (∀ page ∈ ledger c ds { host := h },
      (∀ ctx, page.1.context? c = some ctx → InOrder ctx.registry page.2) ∧
        ∀ a, Admission c page.1 (page.1.addAgent c a) ∧
          Admission c page.1 (page.1.drainAddition c a).2) ∧
      (ledger c ds { host := h }).map (·.1) = stages ds { host := h } ∧
      points ds { host := h } ⊆ stages ds { host := h } ∧
      (stages ds ({ host := h } : World τ α)).IsChain (Admission c) := by
  have harrives := passes_admits.laterStages_arrive (w := { host := h }) ds
  have hnone (d : ContextRef) (ctx : Context) :
      ({ host := h } : World τ α).context? d ≠ some ctx := fun hc => by cases hc
  have hstart : Tallied c ({ host := h } : World τ α) [] :=
    ⟨fun d ctx hc => absurd hc (hnone d ctx), fun _ => rfl, fun ctx hc => absurd hc (hnone c ctx)⟩
  refine ⟨fun page hpage => ?_, ledgerFrom_stages .., points_subset_stages ds, ?_⟩
  · have hpage := ledgerFrom_tallied harrives hstart page hpage
    exact ⟨fun ctx hc => (hpage.accounts ctx hc).inOrder (hpage.sound c ctx hc),
      fun a => ⟨addAgent_admits.admission hpage.sound c,
        drainAddition_admits.admission hpage.sound c⟩⟩
  · refine (harrives.chain (P := World.Sound) (fun hw ha => ha.sound hw) hstart.sound).imp ?_
    rintro w v ⟨hw, ha⟩
    exact ha.admission hw c

end Runs

section Sample

/-- Two agents are added, one of them twice. The first one's task asks for two more, the last one
first, and gives up the second one; later all agents are released and two come back. -/
def bookedDeeds : List (Deed Routine Unit) :=
  let only : ContextRef := ⟨0⟩
  [.newContext ⟨1⟩ {} 10,
    .create ⟨"first", "Agent", 5, ⟨[.here (.add ⟨3⟩), .here (.add ⟨2⟩), .here (.remove ⟨1⟩),
      .here (.add ⟨0⟩)]⟩⟩,
    .create ⟨"second", "Agent", 5, ⟨[]⟩⟩, .create ⟨"third", "Agent", 0, ⟨[]⟩⟩,
    .create ⟨"fourth", "Agent", 5, ⟨[]⟩⟩,
    .on only (.task (.add ⟨0⟩)), .on only (.task (.add ⟨1⟩)), .on only (.task (.add ⟨1⟩)),
    .on only .tick, .on only (.task (.add ⟨1⟩)), .on only .release,
    .on only (.task (.add ⟨2⟩)), .on only (.task (.add ⟨0⟩))]

/-- The additions asked for during the tick come in the order in which they were asked for. -/
theorem ids_in_order_sample :
    ((ledger ⟨0⟩ bookedDeeds { host := { app := () } }).map (·.2)).getLast? =
        some [(5, ⟨1⟩, ⟨0⟩), (5, ⟨2⟩, ⟨1⟩), (5, ⟨3⟩, ⟨3⟩), (0, ⟨4⟩, ⟨2⟩), (5, ⟨5⟩, ⟨1⟩),
          (0, ⟨6⟩, ⟨2⟩), (5, ⟨7⟩, ⟨0⟩)] ∧
      ∀ page ∈ ledger ⟨0⟩ bookedDeeds { host := { app := () } },
        ∀ ctx, page.1.context? ⟨0⟩ = some ctx → InOrder ctx.registry page.2 := by
  refine ⟨by decide +kernel, fun page hpage => ?_⟩
  exact ((ids_in_order { app := () } bookedDeeds ⟨0⟩).1 page hpage).1

end Sample

end World

end AgentScheduler
