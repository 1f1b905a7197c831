/-
The changes between two sets of named values, name by name. `mem_diff` says
which change stands in the difference, and `diff_pairwise` in which order;
`applyChanges_diff` follows: the changes lead from the one set to the other.
Order and content leave no choice (`Differs.unique`), so the difference taken
the other way round has the same changes, each the other way round.
-/
import AgentScheduler.Variables

namespace AgentScheduler

namespace SortedMap

variable {κ ν : Type} [Ord κ] [Std.LawfulEqOrd κ]

theorem lookup_cons [DecidableEq κ] {k j : κ} {v : ν} {l : List (κ × ν)} :
    lookup k ((j, v) :: l) = if k = j then some v else lookup k l := by
  simp only [lookup, Std.LawfulEqCmp.compare_eq_iff_eq]

/-- A key that reads something is the key of an entry. -/
theorem lt_of_lookup {k k' : κ} {l : List (κ × ν)} (h : ∀ e ∈ l, compare k e.1 = .lt)
    (hk : lookup k' l ≠ none) : compare k k' = .lt := by
  obtain ⟨v, hv⟩ := Option.ne_none_iff_exists'.1 hk
  have hmem : ∃ e ∈ l, e.1 = k' := by
    clear h hk
    induction l with
    | nil => cases hv
    | cons hd l ih =>
      obtain ⟨c, w⟩ := hd
      simp only [lookup] at hv
      split at hv
      · next he => exact ⟨_, List.mem_cons_self, (Std.LawfulEqCmp.eq_of_compare he).symm⟩
      · obtain ⟨e, he, hk⟩ := ih hv
        exact ⟨e, List.mem_cons_of_mem _ he, hk⟩
  obtain ⟨e, he, rfl⟩ := hmem
  exact h e he

/-- Lists that ascend by a key are the same if they have the same members. -/
theorem eq_of_ascending [Std.TransOrd κ] {β : Type} (key : β → κ) {l l' : List β}
    (hl : l.Pairwise fun a b => compare (key a) (key b) = .lt)
    (hl' : l'.Pairwise fun a b => compare (key a) (key b) = .lt) (h : ∀ b, b ∈ l ↔ b ∈ l') :
    l = l' := by
  have nodup {l : List β} (hl : l.Pairwise fun a b => compare (key a) (key b) = .lt) : l.Nodup :=
    hl.imp fun {a b} hlt he => by
      rw [he, Std.ReflOrd.compare_self] at hlt
      cases hlt
  have hperm : l.Perm l' := (List.perm_ext_iff_of_nodup (nodup hl) (nodup hl')).2 h
  refine hperm.eq_of_pairwise (fun a b _ _ hab hba => ?_) hl hl'
  rw [Std.OrientedCmp.gt_of_lt hab] at hba
  cases hba

/-- Maps that read the same are the same. -/
theorem ext_get? [Std.TransOrd κ] {m m' : SortedMap κ ν} (h : ∀ k, m.get? k = m'.get? k) : m = m' := by
  refine ext_toList (eq_of_ascending Prod.fst m.ascending m'.ascending fun e => ?_)
  rw [← get?_eq_some_iff (k := e.1) (v := e.2), h, get?_eq_some_iff]

theorem mem_keys [Std.TransOrd κ] {m : SortedMap κ ν} {k : κ} :
    k ∈ m.keys ↔ (m.get? k).isSome = true := by
  rw [keys, List.mem_map, Option.isSome_iff_exists]
  constructor
  · rintro ⟨⟨k, v⟩, hm, rfl⟩
    exact ⟨v, get?_eq_some_iff.2 hm⟩
  · rintro ⟨v, hv⟩
    exact ⟨_, get?_eq_some_iff.1 hv, rfl⟩

theorem nodup_keys [Std.TransOrd κ] (m : SortedMap κ ν) : m.keys.Nodup := by
  refine List.pairwise_map.2 (m.ascending.imp fun h he => ?_)
  rw [he, Std.ReflOrd.compare_self] at h
  cases h

end SortedMap

open SortedMap

namespace Variables

variable {base live : Variables} {c : VarChange}

/-! ## What a difference holds -/

theorem mem_changes {base live : List (String × Value)} (hb : Ascending base)
    (hl : Ascending live) : c ∈ changes base live ↔
      c.old = lookup c.name base ∧ c.new = lookup c.name live ∧ c.old ≠ c.new := by
  obtain ⟨name, old, new⟩ := c
  induction base, live using changes.induct with
  | case1 live =>
    simp only [changes, List.mem_map, lookup]
    constructor
    · rintro ⟨⟨n, v⟩, hm, h⟩
      cases h
      exact ⟨rfl, ((lookup_eq_some_iff hl).2 hm).symm, by simp⟩
    · rintro ⟨rfl, rfl, hne⟩
      obtain ⟨v, hv⟩ := Option.ne_none_iff_exists'.1 hne.symm
      exact ⟨(name, v), (lookup_eq_some_iff hl).1 hv, by rw [hv]⟩
  | case2 base hne =>
    have heq : changes base [] = base.map fun e => ⟨e.1, some e.2, none⟩ := by
      cases base with
      | nil => exact absurd rfl hne
      | cons e base => rw [changes]; simp
    simp only [heq, List.mem_map, lookup]
    constructor
    · rintro ⟨⟨n, v⟩, hm, h⟩
      cases h
      exact ⟨((lookup_eq_some_iff hb).2 hm).symm, rfl, by simp⟩
    · rintro ⟨rfl, rfl, hne⟩
      obtain ⟨v, hv⟩ := Option.ne_none_iff_exists'.1 hne
      exact ⟨(name, v), (lookup_eq_some_iff hb).1 hv, by rw [hv]⟩
  | case3 m x base n y live hlt ih =>
    have hm : ∀ e ∈ (n, y) :: live, compare m e.1 = .lt := by
      refine List.forall_mem_cons.2 ⟨hlt, fun e he => ?_⟩
      exact Std.TransCmp.lt_trans hlt ((List.pairwise_cons.1 hl).1 e he)
    have hmb : lookup m base = none := lookup_eq_none_of_lt (List.pairwise_cons.1 hb).1
    have hml : lookup m ((n, y) :: live) = none := lookup_eq_none_of_lt hm
    rw [changes]
    simp only [hlt, List.mem_cons, ih (List.pairwise_cons.1 hb).2 hl, VarChange.mk.injEq]
    by_cases hname : name = m
    · subst hname
      simp only [hmb, hml, lookup_cons, if_pos]
      grind
    · simp only [lookup_cons (j := m), hname, if_false]
      grind
  | case4 m x base n y live hgt ih =>
    have hlt : compare n m = .lt := Std.OrientedCmp.lt_of_gt hgt
    have hn : ∀ e ∈ (m, x) :: base, compare n e.1 = .lt := by
      refine List.forall_mem_cons.2 ⟨hlt, fun e he => ?_⟩
      exact Std.TransCmp.lt_trans hlt ((List.pairwise_cons.1 hb).1 e he)
    have hnl : lookup n live = none := lookup_eq_none_of_lt (List.pairwise_cons.1 hl).1
    have hnb : lookup n ((m, x) :: base) = none := lookup_eq_none_of_lt hn
    rw [changes]
    simp only [hgt, List.mem_cons, ih hb (List.pairwise_cons.1 hl).2, VarChange.mk.injEq]
    by_cases hname : name = n
    · subst hname
      simp only [hnb, hnl, lookup_cons, if_pos]
      grind
    · simp only [lookup_cons (j := n), hname, if_false]
      grind
  | case5 m base n y live heq ih =>
    have hmn : m = n := Std.LawfulEqCmp.eq_of_compare heq
    subst hmn
    have hmb : lookup m base = none := lookup_eq_none_of_lt (List.pairwise_cons.1 hb).1
    have hml : lookup m live = none := lookup_eq_none_of_lt (List.pairwise_cons.1 hl).1
    rw [changes]
    simp only [heq, if_true, ih (List.pairwise_cons.1 hb).2 (List.pairwise_cons.1 hl).2,
      lookup_cons]
    by_cases hname : name = m
    · subst hname
      simp only [hmb, hml, if_pos]
      grind
    · simp only [hname, if_false]
  | case6 m x base n y live heq hne ih =>
    have hmn : m = n := Std.LawfulEqCmp.eq_of_compare heq
    subst hmn
    have hmb : lookup m base = none := lookup_eq_none_of_lt (List.pairwise_cons.1 hb).1
    have hml : lookup m live = none := lookup_eq_none_of_lt (List.pairwise_cons.1 hl).1
    rw [changes]
    simp only [heq, hne, if_false, List.mem_cons,
      ih (List.pairwise_cons.1 hb).2 (List.pairwise_cons.1 hl).2, lookup_cons, VarChange.mk.injEq]
    by_cases hname : name = m
    · subst hname
      simp only [hmb, hml, if_pos]
      grind
    · simp only [hname, if_false]
      grind

/-- A change stands in the difference exactly if the two sets differ at its name, absence
included, and it says how. -/
theorem mem_diff : c ∈ diff base live ↔
    c.old = base.get? c.name ∧ c.new = live.get? c.name ∧ c.old ≠ c.new :=
  mem_changes base.ascending live.ascending

theorem changes_pairwise {base live : List (String × Value)} (hb : Ascending base)
    (hl : Ascending live) :
    (changes base live).Pairwise fun c d => compare c.name d.name = .lt := by
  -- the name of every later change is a later name of one of the two lists
  have later {base live : List (String × Value)} (hb : Ascending base) (hl : Ascending live)
      {m : String} (hmb : ∀ e ∈ base, compare m e.1 = .lt) (hml : ∀ e ∈ live, compare m e.1 = .lt) :
      ∀ d ∈ changes base live, compare m d.name = .lt := by
    intro d hd
    obtain ⟨hold, hnew, hne⟩ := (mem_changes hb hl).1 hd
    by_cases h : lookup d.name base = none
    · exact lt_of_lookup hml fun h' => hne (by rw [hold, hnew, h, h'])
    · exact lt_of_lookup hmb h
  induction base, live using changes.induct with
  | case1 live =>
    rw [changes, List.pairwise_map]
    exact hl
  | case2 base hne =>
    have heq : changes base [] = base.map fun e => ⟨e.1, some e.2, none⟩ := by
      cases base with
      | nil => exact absurd rfl hne
      | cons e base => rw [changes]; simp
    rw [heq, List.pairwise_map]
    exact hb
  | case3 m x base n y live hlt ih =>
    obtain ⟨hmb, hb'⟩ := List.pairwise_cons.1 hb
    rw [changes]
    simp only [hlt, List.pairwise_cons]
    refine ⟨later hb' hl hmb (List.forall_mem_cons.2 ⟨hlt, fun e he => ?_⟩), ih hb' hl⟩
    exact Std.TransCmp.lt_trans hlt ((List.pairwise_cons.1 hl).1 e he)
  | case4 m x base n y live hgt ih =>
    have hlt : compare n m = .lt := Std.OrientedCmp.lt_of_gt hgt
    obtain ⟨hnl, hl'⟩ := List.pairwise_cons.1 hl
    rw [changes]
    simp only [hgt, List.pairwise_cons]
    refine ⟨later hb hl' (List.forall_mem_cons.2 ⟨hlt, fun e he => ?_⟩) hnl, ih hb hl'⟩
    exact Std.TransCmp.lt_trans hlt ((List.pairwise_cons.1 hb).1 e he)
  | case5 m base n y live heq ih =>
    rw [changes]
    simp only [heq, if_true]
    exact ih (List.pairwise_cons.1 hb).2 (List.pairwise_cons.1 hl).2
  | case6 m x base n y live heq hne ih =>
    have hmn : m = n := Std.LawfulEqCmp.eq_of_compare heq
    subst hmn
    obtain ⟨hmb, hb'⟩ := List.pairwise_cons.1 hb
    obtain ⟨hml, hl'⟩ := List.pairwise_cons.1 hl
    rw [changes]
    simp only [heq, hne, if_false, List.pairwise_cons]
    exact ⟨later hb' hl' hmb hml, ih hb' hl'⟩

/-- The changes ascend strictly by name. -/
theorem diff_pairwise : (diff base live).Pairwise fun c d => compare c.name d.name = .lt :=
  changes_pairwise base.ascending live.ascending

/-- No name has two changes. -/
theorem diff_nodup : ((diff base live).map (·.name)).Nodup := by
  refine List.pairwise_map.2 (diff_pairwise.imp fun {c d} h he => ?_)
  rw [he, Std.ReflOrd.compare_self] at h
  cases h

/-- Nothing changed exactly if the two sets are the same. -/
theorem diff_eq_nil_iff : diff base live = [] ↔ base = live := by
  rw [List.eq_nil_iff_forall_not_mem]
  constructor
  · intro h
    refine ext_get? fun name => Decidable.byContradiction fun hne => ?_
    exact h ⟨name, base.get? name, live.get? name⟩ (mem_diff.2 ⟨rfl, rfl, hne⟩)
  · rintro rfl c hc
    obtain ⟨ho, hn, hne⟩ := mem_diff.1 hc
    exact hne (ho.trans hn.symm)

/-! ## Applying changes -/

theorem get?_applyChange (vars : Variables) (c : VarChange) (name : String) :
    (vars.applyChange c).get? name = if name = c.name then c.new else vars.get? name := by
  unfold applyChange
  split
  · next v hv => rw [get?_insert, hv]
  · next hv => rw [get?_erase, hv]

theorem get?_applyChanges_of_not_mem {cs : List VarChange} (vars : Variables) {name : String}
    (h : name ∉ cs.map (·.name)) : (vars.applyChanges cs).get? name = vars.get? name := by
  induction cs generalizing vars with
  | nil => rfl
  | cons c cs ih =>
    rw [List.map_cons, List.mem_cons, not_or] at h
    show ((vars.applyChange c).applyChanges cs).get? name = _
    rw [ih _ h.2, get?_applyChange, if_neg h.1]

/-- Each change sets its name to the new value, or removes it. -/
theorem get?_applyChanges {cs : List VarChange} (vars : Variables)
    (hcs : (cs.map (·.name)).Nodup) (h : c ∈ cs) :
    (vars.applyChanges cs).get? c.name = c.new := by
  induction cs generalizing vars with
  | nil => cases h
  | cons d cs ih =>
    rw [List.map_cons, List.nodup_cons] at hcs
    show ((vars.applyChange d).applyChanges cs).get? c.name = _
    rcases List.mem_cons.1 h with rfl | h
    · rw [get?_applyChanges_of_not_mem _ hcs.1, get?_applyChange, if_pos rfl]
    · exact ih _ hcs.2 h

/-- The changes between two sets lead from the one to the other. -/
theorem applyChanges_diff (base live : Variables) : base.applyChanges (diff base live) = live := by
  refine ext_get? fun name => ?_
  by_cases h : name ∈ (diff base live).map (·.name)
  · obtain ⟨c, hc, rfl⟩ := List.mem_map.1 h
    rw [get?_applyChanges base diff_nodup hc, (mem_diff.1 hc).2.1]
  · rw [get?_applyChanges_of_not_mem base h]
    refine Decidable.byContradiction fun hne => h ?_
    exact List.mem_map.2 ⟨⟨name, base.get? name, live.get? name⟩, mem_diff.2 ⟨rfl, rfl, hne⟩, rfl⟩

/-! ## The difference as a whole -/

/-- The change the other way round. -/
def reverseChange (c : VarChange) : VarChange := ⟨c.name, c.new, c.old⟩

/-- The changes are what differs between two sets of named values. -/
structure Differs (base live : Variables) (cs : List VarChange) : Prop where
  ascending : cs.Pairwise fun c d => compare c.name d.name = .lt
  /-- A name has a change exactly if the sets differ at it; absence counts as a value. -/
  complete : ∀ name, (∃ c ∈ cs, c.name = name) ↔ base.get? name ≠ live.get? name
  /-- A change says what the two sets hold, and one of them holds something. -/
  truthful : ∀ c ∈ cs, c.old = base.get? c.name ∧ c.new = live.get? c.name ∧
    ¬(c.old = none ∧ c.new = none)
  /-- Doubles differ exactly if their bits do. -/
  doubles : ∀ name x y, base.get? name = some (.float x) → live.get? name = some (.float y) →
    ((∃ c ∈ cs, c.name = name) ↔ x.bits ≠ y.bits)

namespace Differs

variable {cs cs' : List VarChange}

theorem mem_iff (h : Differs base live cs) :
    c ∈ cs ↔ c.old = base.get? c.name ∧ c.new = live.get? c.name ∧ c.old ≠ c.new := by
  constructor
  · intro hc
    obtain ⟨hold, hnew, -⟩ := h.truthful c hc
    refine ⟨hold, hnew, ?_⟩
    rw [hold, hnew]
    exact (h.complete c.name).1 ⟨c, hc, rfl⟩
  · rintro ⟨hold, hnew, hne⟩
    rw [hold, hnew] at hne
    obtain ⟨d, hd, hname⟩ := (h.complete c.name).2 hne
    obtain ⟨hold', hnew', -⟩ := h.truthful d hd
    have hdc : d = c := by
      cases c
      cases d
      simp only at hname hold hnew hold' hnew'
      subst hname
      rw [hold, hnew, hold', hnew']
    exact hdc ▸ hd

/-- There is only one list of what differs. -/
theorem unique (h : Differs base live cs) (h' : Differs base live cs') : cs = cs' :=
  eq_of_ascending VarChange.name h.ascending h'.ascending fun _ => h.mem_iff.trans h'.mem_iff.symm

/-- What differs, seen from the other set. -/
theorem reverse (h : Differs base live cs) : Differs live base (cs.map reverseChange) := by
  have hnames (name : String) :
      (∃ c ∈ cs.map reverseChange, c.name = name) ↔ ∃ c ∈ cs, c.name = name := by
    constructor
    · rintro ⟨c, hc, hname⟩
      obtain ⟨d, hd, rfl⟩ := List.mem_map.1 hc
      exact ⟨d, hd, hname⟩
    · rintro ⟨c, hc, hname⟩
      exact ⟨reverseChange c, List.mem_map_of_mem hc, hname⟩
  refine ⟨List.pairwise_map.2 h.ascending, fun name => ?_, fun c hc => ?_,
    fun name x y hx hy => ?_⟩
  · rw [hnames, h.complete]
    exact ne_comm
  · obtain ⟨d, hd, rfl⟩ := List.mem_map.1 hc
    obtain ⟨hold, hnew, hsome⟩ := h.truthful d hd
    exact ⟨hnew, hold, fun hnone => hsome hnone.symm⟩
  · rw [hnames, h.doubles name y x hy hx]
    exact ne_comm

end Differs

theorem differs_diff (base live : Variables) : Differs base live (diff base live) := by
  have hcomplete (name : String) :
      (∃ c ∈ diff base live, c.name = name) ↔ base.get? name ≠ live.get? name := by
    constructor
    · rintro ⟨c, hc, rfl⟩
      obtain ⟨hold, hnew, hne⟩ := mem_diff.1 hc
      rwa [hold, hnew] at hne
    · intro hne
      exact ⟨⟨name, base.get? name, live.get? name⟩, mem_diff.2 ⟨rfl, rfl, hne⟩, rfl⟩
  refine ⟨diff_pairwise, hcomplete, fun c hc => ?_, fun name x y hx hy => ?_⟩
  · obtain ⟨hold, hnew, hne⟩ := mem_diff.1 hc
    exact ⟨hold, hnew, fun hnone => hne (hnone.1.trans hnone.2.symm)⟩
  · obtain ⟨x⟩ := x
    obtain ⟨y⟩ := y
    rw [hcomplete, hx, hy]
    simp only [ne_eq, Option.some.injEq, Value.float.injEq, Binary64.mk.injEq]

/-- The difference of two sets of named values is exactly what differs between them, and nothing
else is. It leads from the first to the second, is empty only between equal sets, and is the same
the other way round, with old and new exchanged. -/
theorem diff_exact (base live : Variables) :
    Differs base live (diff base live) ∧
    (∀ cs, Differs base live cs → cs = diff base live) ∧
    base.applyChanges (diff base live) = live ∧
    (diff base live = [] ↔ base = live) ∧
    diff live base = (diff base live).map reverseChange := by
  have h := differs_diff base live
  exact ⟨h, fun cs hcs => hcs.unique h, applyChanges_diff base live, diff_eq_nil_iff,
    (differs_diff live base).unique h.reverse⟩

/-- A NaN is no change, but the other zero is. -/
example : diff (ofList [("nan", .float ⟨0x7ff8000000000000⟩), ("zero", .float ⟨0⟩)])
    (ofList [("nan", .float ⟨0x7ff8000000000000⟩), ("zero", .float ⟨0x8000000000000000⟩)]) =
      [⟨"zero", some (.float ⟨0⟩), some (.float ⟨0x8000000000000000⟩)⟩] := by cbv

end Variables

end AgentScheduler
