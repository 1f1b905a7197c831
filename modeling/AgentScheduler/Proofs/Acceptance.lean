/-
Which texts of snapshots are accepted, whether or not the doubles in them are
read back to the same bits: exactly those of snapshots that the JSON form can
hold (`decode_accepts`). A part is accepted if its parts are; what a list, a map
or a record needs of them is stated once for each.
-/
import AgentScheduler.Proofs.SnapshotText

namespace AgentScheduler

namespace Json

/-! ## Lists and maps -/

section Collections

variable {δ γ : Type} {f : δ → Option γ}

/-- All computations of a list succeed if each one does. -/
theorem isSome_mapM (l : List δ) : (l.mapM f).isSome = l.all fun x => (f x).isSome := by
  induction l with
  | nil => rfl
  | cons x l ih =>
    rw [List.mapM_cons, List.all_cons, ← ih]
    cases f x <;> cases l.mapM f <;> rfl

variable {read : Source → Option δ} {write : δ → Json}

theorem isSome_list?_source (l : List δ) : ((arr (l.map write)).source.list? read).isSome
    = l.all fun x => (read (write x).source).isSome := by
  rw [source, itemSources_eq_map, Source.list?, List.map_map, List.mapM_map]
  exact isSome_mapM l

theorem isSome_map?_source (m : SortedMap String δ) :
    ((obj (m.toList.map fun (key, v) => (key, write v))).source.map? read).isSome
      = m.toList.all fun e => (read (write e.2).source).isSome := by
  have hentries := isSome_mapM (f := fun e : String × δ => (read (write e.2).source).map (e.1, ·))
    m.toList
  simp only [Option.isSome_map] at hentries
  rw [← hentries, Source.map?, members?_source, Option.bind_eq_bind, Option.bind_some, List.map_map,
    List.mapM_map]
  cases h : m.toList.mapM fun e => (read (write e.2).source).map (e.1, ·) <;>
    simp [Function.comp_def, h]

end Collections

/-! ## Any value -/

/-- Every proper number is printed as a numeral that means a number. -/
theorem numberSource_means {n : Number} (hn : n.Proper) :
    ∃ m v, numberSource n = .num m ∧ m.number? = some v := by
  cases n with
  | int i =>
    obtain ⟨m, hm, hi⟩ := numberSource_of_proper hn (legible_int i)
    exact ⟨m, _, hm, hi⟩
  | float x =>
    obtain ⟨m, v, hm, hv⟩ := Numeral.numeral_layOut hn
    exact ⟨m, v, by rw [numberSource, hm], hv⟩

theorem isSome_float?_source (x : Binary64) :
    (num (.float x)).source.float?.isSome = x.isFinite := by
  rw [source]
  cases hx : x.isFinite with
  | true =>
    obtain ⟨m, v, hm, hv⟩ := numberSource_means (n := .float x) hx
    simp [hm, Source.float?, hv]
  | false => rw [numberSource_of_not_finite hx]; rfl

mutual

/-- A printed value is accepted exactly if it is nested no deeper than allowed. -/
theorem isSome_json?_source : ∀ (j : Json) (levels : Nat), j.Proper →
    (j.source.json? levels).isSome = decide (j.depth ≤ levels)
  | null, levels, _ => rfl
  | bool b, levels, _ => rfl
  | str s, levels, _ => rfl
  | num n, levels, hn => by
    obtain ⟨m, v, hm, hv⟩ := numberSource_means hn
    rw [source, hm, Source.json?, hv]
    rfl
  | arr items, 0, _ => rfl
  | arr items, levels + 1, hn => by
    rw [source, Source.json?, Option.isSome_map, isSome_jsonItems?_source items levels hn, depth]
    simp
  | obj members, 0, _ => rfl
  | obj members, levels + 1, hn => by
    rw [source, Source.json?, Option.isSome_map, isSome_jsonMembers?_source members levels hn.2,
      depth]
    simp

theorem isSome_jsonItems?_source : ∀ (items : List Json) (levels : Nat), ProperItems items →
    (Source.jsonItems? levels (itemSources items)).isSome = decide (itemsDepth items ≤ levels)
  | [], levels, _ => rfl
  | item :: items, levels, hn => by
    have hitem := isSome_json?_source item levels hn.1
    have hitems := isSome_jsonItems?_source items levels hn.2
    rw [itemSources, Source.jsonItems?, itemsDepth]
    simp only [Nat.max_le, Bool.decide_and, ← hitem, ← hitems]
    cases item.source.json? levels <;> cases Source.jsonItems? levels (itemSources items) <;> rfl

theorem isSome_jsonMembers?_source : ∀ (members : List (String × Json)) (levels : Nat),
    ProperMembers members → (Source.jsonMembers? levels (memberSources members)).isSome
      = decide (membersDepth members ≤ levels)
  | [], levels, _ => rfl
  | (key, value) :: members, levels, hn => by
    have hvalue := isSome_json?_source value levels hn.1
    have hmembers := isSome_jsonMembers?_source members levels hn.2
    rw [memberSources, Source.jsonMembers?, membersDepth]
    simp only [Nat.max_le, Bool.decide_and, ← hvalue, ← hmembers]
    cases value.source.json? levels <;>
      cases Source.jsonMembers? levels (memberSources members) <;> rfl

end

end Json

open Json

/-! ## Records -/

theorem Value.isSome_ofSource?_toJson (v : Value) :
    (ofSource? v.toJson.source).isSome = v.isFinite := by
  have hfields : v.toJson.source.fields? ["type", "value"]
      = some [some (Source.str v.kind), some v.content.source] := fields?_source rfl (by decide)
  have hcontent : ofSource? v.toJson.source = ofContent? v.kind v.content.source :=
    ofSource?_obj hfields
  rw [hcontent]
  cases v with
  | bool b => rfl
  | str s => rfl
  | int i =>
    have hint : (Value.int i).content.source.int64? = some i := int64?_source i
    simp [kind, ofContent?, hint, isFinite]
  | float x =>
    have hfloat : (Value.float x).content.source.float?.isSome = x.isFinite :=
      isSome_float?_source x
    simp [kind, ofContent?, hfloat, isFinite]

theorem Variables.isSome_ofSource?_toJson (vars : Variables) :
    (ofSource? vars.toJson.source).isSome = vars.isFinite := by
  refine (isSome_map?_source vars).trans ?_
  simp only [Value.isSome_ofSource?_toJson]
  rfl

namespace Snapshot

theorem isSome_agentOfSource?_toJson {a : AgentSnapshot} (hproper : a.state.Proper) :
    (agentOfSource? (agentToJson a).source).isSome = decide (a.state.depth ≤ blobDepth) := by
  have hfields : (agentToJson a).source.fields? ["id", "class", "priority", "state"]
      = some [some (Json.int a.id.number.toNat).source, some (Source.str a.cls),
        some (Json.int a.priority.toInt).source, some a.state.source] :=
    fields?_source rfl (by decide)
  rw [agentOfSource?, hfields, ← isSome_json?_source a.state blobDepth hproper]
  simp only [Option.bind_eq_bind, Option.bind_some, uint32?_source, int32?_source, Source.string?]
  cases a.state.source.json? blobDepth <;> rfl

/-- The tree of a snapshot's text is accepted exactly if the JSON form can hold the snapshot. -/
theorem isSome_ofSource?_toJson {s : Snapshot} (hproper : s.Proper) :
    (ofSource? s.toJson.source).isSome = s.isEncodable := by
  have hfields : s.toJson.source.fields?
      ["context_id", "clock", "named", "static_baselines", "static_values", "agents"]
      = some [some (Json.int s.context.number.toInt).source, some s.clock.toJson.source,
        some (mapToJson s.named bindingToJson).source,
        some (mapToJson s.baselines Variables.toJson).source,
        some (mapToJson s.values Variables.toJson).source,
        some (Json.arr (s.agents.map agentToJson)).source] := fields?_source rfl (by decide)
  have hstatics (m : SortedMap String Variables) :
      ((mapToJson m Variables.toJson).source.map? Variables.ofSource?).isSome = allFinite m := by
    refine (isSome_map?_source m).trans ?_
    simp only [Variables.isSome_ofSource?_toJson]
    rfl
  have hagents : ((Json.arr (s.agents.map agentToJson)).source.list? agentOfSource?).isSome
      = s.agents.all fun a => decide (a.state.depth ≤ blobDepth) := by
    rw [isSome_list?_source, Bool.eq_iff_iff, List.all_eq_true, List.all_eq_true]
    exact forall₂_congr fun a ha => by rw [isSome_agentOfSource?_toJson (hproper a ha)]
  rw [ofSource?, hfields, isEncodable, ← hstatics, ← hstatics, ← hagents]
  simp only [Option.bind_eq_bind, Option.bind_some, int64?_source, Clock.ofSource?_toJson,
    map?_bindings]
  cases (mapToJson s.baselines Variables.toJson).source.map? Variables.ofSource? <;>
    cases (mapToJson s.values Variables.toJson).source.map? Variables.ofSource? <;>
    cases (Json.arr (s.agents.map agentToJson)).source.list? agentOfSource? <;> rfl

/-- The text of a snapshot is accepted exactly if the JSON form can hold the snapshot. -/
theorem decode_accepts {s : Snapshot} (hproper : s.Proper) :
    (∃ s', decode s.toText = .ok s') ↔ s.Encodable := by
  have htext : ofText? s.toText = ofSource? s.toJson.source := by
    rw [ofText?, toText, ofText?_pretty, Option.bind_some]
  rw [← isEncodable_iff, ← isSome_ofSource?_toJson hproper, decode, htext]
  cases ofSource? s.toJson.source <;> simp

end Snapshot

end AgentScheduler
