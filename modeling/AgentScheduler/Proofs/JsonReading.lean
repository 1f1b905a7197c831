/-
Typed values out of the trees of printed ones. A record gives all its fields
(`fields?_source`), a list and a map give themselves if all their parts are
accepted (`list?_source`, `map?_source`), and any value is read back if it is
nested no deeper than allowed (`json?_source`). Whatever is read is of the JSON
type (`json?_spec`).
-/
import AgentScheduler.Proofs.Finiteness
import AgentScheduler.Proofs.JsonText
import AgentScheduler.Proofs.Restoring

namespace AgentScheduler

/-! ## Lists of computations -/

section Lists

variable {β γ : Type} {f : β → Option γ}

theorem mapM_eq_some_map {g : β → γ} {l : List β} (h : ∀ x ∈ l, f x = some (g x)) :
    l.mapM f = some (l.map g) := by
  induction l with
  | nil => rfl
  | cons x l ih =>
    obtain ⟨hx, hl⟩ := List.forall_mem_cons.1 h
    simp [hx, ih hl]

/-- A list whose members are each given back or refused is given back, or refused for one of
them. -/
theorem mapM_guard {f : β → Option β} {p : β → Bool} {l : List β}
    (h : ∀ x ∈ l, f x = Option.guard p x) : l.mapM f = Option.guard (·.all p) l := by
  induction l with
  | nil => rfl
  | cons x l ih =>
    obtain ⟨hx, hl⟩ := List.forall_mem_cons.1 h
    cases hp : p x <;> cases ha : l.all p <;> simp [Option.guard, hx, ih hl, hp, ha]

theorem forall_of_mapM {P : γ → Prop} {l : List β} {ys : List γ}
    (hf : ∀ x ∈ l, ∀ y, f x = some y → P y) (h : l.mapM f = some ys) : ∀ y ∈ ys, P y := by
  induction l generalizing ys with
  | nil =>
    obtain rfl := Option.some.inj h
    exact fun y hy => by cases hy
  | cons x l ih =>
    obtain ⟨hx, hl⟩ := List.forall_mem_cons.1 hf
    rw [List.mapM_cons] at h
    obtain ⟨y, hy, h⟩ := Option.bind_eq_some_iff.1 h
    obtain ⟨zs, hz, h⟩ := Option.bind_eq_some_iff.1 h
    obtain rfl := Option.some.inj h
    exact List.forall_mem_cons.2 ⟨hx y hy, ih hl hz⟩

end Lists

namespace Json

/-! ## Numbers -/

/-- A proper number that is read back means itself. -/
theorem numberSource_of_proper {n : Number} (hn : n.Proper) (h : Legible [n]) :
    ∃ m, numberSource n = .num m ∧ m.number? = some n := by
  cases n with
  | int i =>
    refine ⟨_, ?_, Numeral.number?_toDigits hn⟩
    rw [numberSource, writeNumber, Source.numeral_toString]
  | float x =>
    obtain ⟨m, hm, hx⟩ := Source.numeral_of_readsBack hn (legible_singleton_float.1 h hn)
    exact ⟨m, by rw [numberSource, hm], hx⟩

theorem numberSource_of_not_finite {x : Binary64} (hx : x.isFinite = false) :
    numberSource (.float x) = .null := by
  have hnull : writeNumber (.float x) = "null".toList := by
    rw [writeNumber, if_neg (by rw [hx]; decide)]
  rw [numberSource, hnull]
  rfl

/-- A printed double is read back exactly if it is finite. -/
theorem float?_source {x : Binary64} (h : Legible [.float x]) :
    (num (.float x)).source.float? = Option.guard Binary64.isFinite x := by
  rw [source]
  cases hx : x.isFinite with
  | true =>
    obtain ⟨m, hm, hvalue⟩ := numberSource_of_proper (n := .float x) hx h
    simp [hm, Source.float?, hvalue, Option.guard, hx]
  | false =>
    rw [numberSource_of_not_finite hx]
    simp [Source.float?, Option.guard, hx]

theorem legible_int (i : Int) : Legible [.int i] := by simp [Legible]

/-- An integer of 64 bits is found within all bounds around it. -/
theorem intWithin?_source {i low high : Int} (hproper : (Number.int i).Proper) (hlow : low ≤ i)
    (hhigh : i ≤ high) : (Json.int i).source.intWithin? low high = some i := by
  obtain ⟨m, hm, hi⟩ := numberSource_of_proper hproper (legible_int i)
  have hsource : (Json.int i).source = .num m := hm
  simp [hsource, Source.intWithin?, hi, hlow, hhigh]

theorem uint32?_source (n : UInt32) : (Json.int n.toNat).source.uint32? = some n := by
  have hn := n.toNat_lt
  have hint : (Json.int n.toNat).source.intWithin? 0 0xffffffff = some (n.toNat : Int) :=
    intWithin?_source ⟨by omega, by omega⟩ (by omega) (by omega)
  simp [Source.uint32?, hint]

theorem uint64?_source (n : UInt64) : (Json.int n.toNat).source.uint64? = some n := by
  have hn := n.toNat_lt
  have hint : (Json.int n.toNat).source.intWithin? 0 0xffffffffffffffff = some (n.toNat : Int) :=
    intWithin?_source ⟨by omega, by omega⟩ (by omega) (by omega)
  simp [Source.uint64?, hint]

theorem int32?_source (n : Int32) : (Json.int n.toInt).source.int32? = some n := by
  have hlow := n.le_toInt
  have hhigh := n.toInt_lt
  have hint : (Json.int n.toInt).source.intWithin? (-0x80000000) 0x7fffffff = some n.toInt :=
    intWithin?_source ⟨by omega, by omega⟩ (by omega) (by omega)
  simp [Source.int32?, hint]

theorem int64?_source (n : Int64) : (Json.int n.toInt).source.int64? = some n := by
  have hlow := n.le_toInt
  have hhigh := n.toInt_lt
  have hint : (Json.int n.toInt).source.intWithin? (-0x8000000000000000) 0x7fffffffffffffff
      = some n.toInt :=
    intWithin?_source ⟨by omega, by omega⟩ (by omega) (by omega)
  simp [Source.int64?, hint]

/-! ## Parts -/

theorem legible_arr {items : List Json} (h : Legible (arr items).numbers) :
    ∀ item ∈ items, Legible item.numbers := by
  induction items with
  | nil => exact fun item hitem => by cases hitem
  | cons item items ih =>
    obtain ⟨hitem, hitems⟩ := legible_append.1 h
    exact List.forall_mem_cons.2 ⟨hitem, ih hitems⟩

theorem legible_obj {members : List (String × Json)} (h : Legible (obj members).numbers) :
    ∀ m ∈ members, Legible m.2.numbers := by
  induction members with
  | nil => exact fun m hm => by cases hm
  | cons m members ih =>
    obtain ⟨hm, hmembers⟩ := legible_append.1 h
    exact List.forall_mem_cons.2 ⟨hm, ih hmembers⟩

/-! ## Records -/

theorem itemSources_eq_map (items : List Json) : itemSources items = items.map source := by
  induction items with
  | nil => rfl
  | cons item items ih => rw [itemSources, ih]; rfl

theorem memberSources_eq_map (members : List (String × Json)) :
    memberSources members = members.map fun m => (some m.1, m.2.source) := by
  induction members with
  | nil => rfl
  | cons m members ih => rw [memberSources, ih]; rfl

theorem members?_source (members : List (String × Json)) :
    (obj members).source.members? = some (members.map fun m => (m.1, m.2.source)) := by
  rw [source, memberSources_eq_map, Source.members?, List.mapM_map]
  exact mapM_eq_some_map fun m _ => rfl

theorem only?_of_mem {l : List (String × Source)} {key : String} {v : Source}
    (hnodup : (l.map (·.1)).Nodup) (hmem : (key, v) ∈ l) :
    Source.only? l key = some (some v) := by
  have hfilter : l.filter (·.1 == key) = [(key, v)] := by
    induction l with
    | nil => cases hmem
    | cons e l ih =>
      obtain ⟨hout, hnodup⟩ := List.nodup_cons.1 hnodup
      rcases List.mem_cons.1 hmem with rfl | hmem
      · have hrest : l.filter (·.1 == key) = [] := by
          refine List.filter_eq_nil_iff.2 fun d hd hkey => hout ?_
          exact List.mem_map.2 ⟨d, hd, by simpa using hkey⟩
        rw [List.filter_cons_of_pos (by simp), hrest]
      · have hne : ¬(e.1 == key) = true := by
          intro he
          exact hout (List.mem_map.2 ⟨(key, v), hmem, (beq_iff_eq.1 he).symm⟩)
        rw [List.filter_cons, if_neg hne]
        exact ih hnodup hmem
  rw [Source.only?, hfilter]

/-- A record printed with its fields in order gives all of them. -/
theorem fields?_source {members : List (String × Json)} {names : List String}
    (hnames : members.map (·.1) = names) (h : names.Nodup) :
    (obj members).source.fields? names = some (members.map fun m => some m.2.source) := by
  subst hnames
  have honly : ∀ m ∈ members, Source.only? (members.map fun m => (m.1, m.2.source)) m.1
      = some (some m.2.source) := by
    intro m hm
    refine only?_of_mem ?_ (List.mem_map.2 ⟨m, hm, rfl⟩)
    rwa [List.map_map]
  have hmembers := members?_source members
  rw [source] at hmembers ⊢
  rw [Source.fields?, hmembers, Option.bind_eq_bind, Option.bind_some, List.mapM_map]
  exact mapM_eq_some_map honly

/-! ## Lists and maps -/

section Collections

variable {δ : Type} {read : Source → Option δ} {write : δ → Json} {p : δ → Bool}

/-- A printed list is given back if each of its members is. -/
theorem list?_source {l : List δ} (h : ∀ x ∈ l, read (write x).source = Option.guard p x) :
    (arr (l.map write)).source.list? read = Option.guard (·.all p) l := by
  rw [source, itemSources_eq_map, Source.list?, List.map_map, List.mapM_map]
  exact mapM_guard h

/-- A printed map is given back if each of its values is. -/
theorem map?_source {m : SortedMap String δ}
    (h : ∀ e ∈ m.toList, read (write e.2).source = Option.guard p e.2) :
    (obj (m.toList.map fun (key, v) => (key, write v))).source.map? read
      = Option.guard (fun m => m.toList.all fun e => p e.2) m := by
  have hentries : ∀ e ∈ m.toList, (read (write e.2).source).map (e.1, ·)
      = Option.guard (fun e => p e.2) e := by
    intro e he
    rw [h e he]
    cases hp : p e.2 <;> simp [Option.guard, hp]
  rw [Source.map?, members?_source, Option.bind_eq_bind, Option.bind_some, List.map_map,
    List.mapM_map]
  refine (congrArg (Option.bind · fun entries => some (SortedMap.ofList entries))
    (mapM_guard hentries)).trans ?_
  simp only [Option.guard]
  split
  · exact congrArg some (SortedMap.ofList_toList m)
  · rfl

theorem list?_forall {P : δ → Prop} {s : Source} {l : List δ}
    (hread : ∀ s x, read s = some x → P x) (h : s.list? read = some l) : ∀ x ∈ l, P x := by
  cases s with
  | arr items => exact forall_of_mapM (fun s _ => hread s) h
  | _ => cases h

theorem map?_forall {P : δ → Prop} {s : Source} {m : SortedMap String δ}
    (hread : ∀ s x, read s = some x → P x) (h : s.map? read = some m) : ∀ e ∈ m.toList, P e.2 := by
  obtain ⟨members, -, h⟩ := Option.bind_eq_some_iff.1 h
  obtain ⟨entries, hentries, h⟩ := Option.bind_eq_some_iff.1 h
  obtain rfl := Option.some.inj h
  have hall : ∀ e ∈ entries, P e.2 := by
    refine forall_of_mapM (fun d _ e he => ?_) hentries
    obtain ⟨v, hv, rfl⟩ := Option.map_eq_some_iff.1 he
    exact hread _ v hv
  exact fun e he => hall e (SortedMap.mem_of_get?_ofList (SortedMap.get?_eq_some_iff.2 he))

end Collections

theorem isFinite_of_float? {s : Source} {x : Binary64} (h : s.float? = some x) :
    x.isFinite = true := by
  cases s with
  | num n =>
    obtain ⟨m, hm, hx⟩ := Option.map_eq_some_iff.1 h
    have hproper : m.Proper := Numeral.number?_proper hm
    cases m with
    | int i =>
      obtain rfl : Binary64.ofInt i = x := hx
      exact Binary64.isFinite_ofInt hproper
    | float y =>
      obtain rfl : y = x := hx
      exact hproper
  | _ => cases h

/-! ## Any value -/

mutual

/-- Of the JSON type: all numbers are proper, and the members of every object ascend. -/
def Proper : Json → Prop
  | num n => n.Proper
  | arr items => ProperItems items
  | obj members => Ascending members ∧ ProperMembers members
  | _ => True

/-- All items are of the JSON type. -/
def ProperItems : List Json → Prop
  | [] => True
  | item :: items => Proper item ∧ ProperItems items

/-- The values of all members are of the JSON type. -/
def ProperMembers : List (String × Json) → Prop
  | [] => True
  | (_, value) :: members => Proper value ∧ ProperMembers members

end

mutual

/-- How deep arrays and objects are nested. -/
def depth : Json → Nat
  | arr items => itemsDepth items + 1
  | obj members => membersDepth members + 1
  | _ => 0

/-- The depth of the deepest item. -/
def itemsDepth : List Json → Nat
  | [] => 0
  | item :: items => max (depth item) (itemsDepth items)

/-- The depth of the deepest member. -/
def membersDepth : List (String × Json) → Nat
  | [] => 0
  | (_, value) :: members => max (depth value) (membersDepth members)

end

theorem properMembers_iff {members : List (String × Json)} :
    ProperMembers members ↔ ∀ m ∈ members, m.2.Proper := by
  induction members with
  | nil => simp [ProperMembers]
  | cons m members ih => simp [ProperMembers, ih]

theorem membersDepth_le_iff {members : List (String × Json)} {k : Nat} :
    membersDepth members ≤ k ↔ ∀ m ∈ members, m.2.depth ≤ k := by
  induction members with
  | nil => simp [membersDepth]
  | cons m members ih => rw [membersDepth, Nat.max_le, ih, List.forall_mem_cons]

theorem ofMembers_of_ascending {members : List (String × Json)} (h : Ascending members) :
    ofMembers members = obj members :=
  congrArg (fun m : SortedMap String Json => obj m.toList) (SortedMap.ofList_toList ⟨members, h⟩)

mutual

/-- A printed value is read back exactly if it is nested no deeper than allowed. -/
theorem json?_source : ∀ (j : Json) (levels : Nat), j.Proper → Legible j.numbers →
    j.source.json? levels = if j.depth ≤ levels then some j else none
  | null, levels, _, _ => rfl
  | bool b, levels, _, _ => rfl
  | str s, levels, _, _ => rfl
  | num n, levels, hn, h => by
    obtain ⟨m, hm, hvalue⟩ := numberSource_of_proper hn h
    rw [source, hm, Source.json?, hvalue]
    rfl
  | arr items, 0, _, _ => rfl
  | arr items, levels + 1, hn, h => by
    rw [source, Source.json?, jsonItems?_source items levels hn h, depth]
    by_cases hd : itemsDepth items ≤ levels <;> simp [hd]
  | obj members, 0, _, _ => rfl
  | obj members, levels + 1, hn, h => by
    rw [source, Source.json?, jsonMembers?_source members levels hn.2 h, depth]
    by_cases hd : membersDepth members ≤ levels <;> simp [hd, ofMembers_of_ascending hn.1]

theorem jsonItems?_source : ∀ (items : List Json) (levels : Nat), ProperItems items →
    Legible (itemNumbers items) →
    Source.jsonItems? levels (itemSources items)
      = if itemsDepth items ≤ levels then some items else none
  | [], levels, _, _ => rfl
  | item :: items, levels, hn, h => by
    obtain ⟨hitem, hitems⟩ := legible_append.1 h
    rw [itemSources, Source.jsonItems?, json?_source item levels hn.1 hitem,
      jsonItems?_source items levels hn.2 hitems, itemsDepth]
    simp only [Nat.max_le]
    by_cases hd : item.depth ≤ levels <;> by_cases hds : itemsDepth items ≤ levels <;>
      simp [hd, hds]

theorem jsonMembers?_source : ∀ (members : List (String × Json)) (levels : Nat),
    ProperMembers members → Legible (memberNumbers members) →
    Source.jsonMembers? levels (memberSources members)
      = if membersDepth members ≤ levels then some members else none
  | [], levels, _, _ => rfl
  | (key, value) :: members, levels, hn, h => by
    obtain ⟨hvalue, hmembers⟩ := legible_append.1 h
    rw [memberSources, Source.jsonMembers?, json?_source value levels hn.1 hvalue,
      jsonMembers?_source members levels hn.2 hmembers, membersDepth]
    simp only [Nat.max_le]
    by_cases hd : value.depth ≤ levels <;> by_cases hds : membersDepth members ≤ levels <;>
      simp [hd, hds]

end

mutual

/-- Whatever is read is of the JSON type and nested no deeper than allowed. -/
theorem json?_spec : ∀ (s : Source) (levels : Nat) {j : Json}, s.json? levels = some j →
    j.Proper ∧ j.depth ≤ levels
  | .null, levels, j, h => by
    obtain rfl := Option.some.inj h
    exact ⟨trivial, Nat.zero_le _⟩
  | .bool b, levels, j, h => by
    obtain rfl := Option.some.inj h
    exact ⟨trivial, Nat.zero_le _⟩
  | .str s, levels, j, h => by
    obtain ⟨t, -, rfl⟩ := Option.map_eq_some_iff.1 h
    exact ⟨trivial, Nat.zero_le _⟩
  | .num n, levels, j, h => by
    obtain ⟨m, hm, rfl⟩ := Option.map_eq_some_iff.1 h
    exact ⟨Numeral.number?_proper hm, Nat.zero_le _⟩
  | .arr items, 0, j, h => by cases h
  | .arr items, levels + 1, j, h => by
    obtain ⟨js, hjs, rfl⟩ := Option.map_eq_some_iff.1 h
    obtain ⟨hproper, hdepth⟩ := jsonItems?_spec items levels hjs
    exact ⟨hproper, Nat.succ_le_succ hdepth⟩
  | .obj members, 0, j, h => by cases h
  | .obj members, levels + 1, j, h => by
    obtain ⟨ms, hms, rfl⟩ := Option.map_eq_some_iff.1 h
    have hspec := jsonMembers?_spec members levels hms
    have hof : ∀ m ∈ (SortedMap.ofList ms).toList, m.2.Proper ∧ m.2.depth ≤ levels := fun m hm =>
      hspec m (SortedMap.mem_of_get?_ofList (SortedMap.get?_eq_some_iff.2 hm))
    exact ⟨⟨(SortedMap.ofList ms).ascending, properMembers_iff.2 fun m hm => (hof m hm).1⟩,
      Nat.succ_le_succ (membersDepth_le_iff.2 fun m hm => (hof m hm).2)⟩

theorem jsonItems?_spec : ∀ (items : List Source) (levels : Nat) {js : List Json},
    Source.jsonItems? levels items = some js → ProperItems js ∧ itemsDepth js ≤ levels
  | [], levels, js, h => by
    obtain rfl := Option.some.inj h
    exact ⟨trivial, Nat.zero_le _⟩
  | item :: items, levels, js, h => by
    obtain ⟨j, hj, h⟩ := Option.bind_eq_some_iff.1 h
    obtain ⟨rest, hrest, h⟩ := Option.bind_eq_some_iff.1 h
    obtain rfl := Option.some.inj h
    obtain ⟨hproper, hdepth⟩ := json?_spec item levels hj
    obtain ⟨hproper', hdepth'⟩ := jsonItems?_spec items levels hrest
    exact ⟨⟨hproper, hproper'⟩, Nat.max_le.2 ⟨hdepth, hdepth'⟩⟩

theorem jsonMembers?_spec : ∀ (members : List (Option String × Source)) (levels : Nat)
    {ms : List (String × Json)}, Source.jsonMembers? levels members = some ms →
    ∀ m ∈ ms, m.2.Proper ∧ m.2.depth ≤ levels
  | [], levels, ms, h => by
    obtain rfl := Option.some.inj h
    exact fun m hm => by cases hm
  | (key, value) :: members, levels, ms, h => by
    obtain ⟨k, -, h⟩ := Option.bind_eq_some_iff.1 h
    obtain ⟨j, hj, h⟩ := Option.bind_eq_some_iff.1 h
    obtain ⟨rest, hrest, h⟩ := Option.bind_eq_some_iff.1 h
    obtain rfl := Option.some.inj h
    exact List.forall_mem_cons.2
      ⟨json?_spec value levels hj, jsonMembers?_spec members levels hrest⟩

end

end Json

end AgentScheduler
