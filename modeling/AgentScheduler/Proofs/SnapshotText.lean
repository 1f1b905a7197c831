/-
The JSON text of a snapshot, written and read again. Each record is read back
from its printed form (`ofSource?_toJson`, once for each kind); a static
variable has to be finite for that, and a task state flat enough. Whatever is
read has these properties (`decode_spec`). So decoding undoes encoding exactly
on the snapshots that can be decoded at all (`text_round_trip`).
-/
import AgentScheduler.Persistence
import AgentScheduler.Proofs.JsonReading

namespace AgentScheduler

open Json

/-! ## Values -/

namespace Value

theorem ofSource?_obj {members : List (Option String × Source)} {kind content : Source}
    (h : (Source.obj members).fields? ["type", "value"] = some [some kind, some content]) :
    ofSource? (.obj members) = (kindName? kind).bind (ofContent? · content) := by
  simp only [ofSource?, h]

/-- A printed value is read back exactly if it is finite. -/
theorem ofSource?_toJson {v : Value} (h : Legible v.toJson.numbers) :
    ofSource? v.toJson.source = Option.guard isFinite v := by
  have hfields : v.toJson.source.fields? ["type", "value"]
      = some [some (Source.str v.kind), some v.content.source] := fields?_source rfl (by decide)
  have hcontent : ofSource? v.toJson.source = ofContent? v.kind v.content.source :=
    ofSource?_obj hfields
  rw [hcontent]
  cases v with
  | bool b => rfl
  | str s => rfl
  | int i => exact congrArg (Option.map int) (int64?_source i)
  | float x =>
    have hx : Legible [.float x] := legible_obj h ("value", .num (.float x)) (by simp [content])
    have hfloat : (Value.float x).content.source.float? = Option.guard Binary64.isFinite x :=
      float?_source hx
    cases hf : x.isFinite <;> simp [kind, ofContent?, hfloat, Option.guard, isFinite, hf]

theorem isFinite_of_ofContent? {kind : String} {content : Source} {v : Value}
    (h : ofContent? kind content = some v) : v.isFinite = true := by
  unfold ofContent? at h
  split at h
  · obtain ⟨b, -, rfl⟩ := Option.map_eq_some_iff.1 h
    rfl
  · obtain ⟨i, -, rfl⟩ := Option.map_eq_some_iff.1 h
    rfl
  · obtain ⟨x, hx, rfl⟩ := Option.map_eq_some_iff.1 h
    exact isFinite_of_float? hx
  · obtain ⟨s, -, rfl⟩ := Option.map_eq_some_iff.1 h
    rfl
  · cases h

/-- Whatever value is read is finite. -/
theorem isFinite_of_ofSource? {s : Source} {v : Value} (h : ofSource? s = some v) :
    v.isFinite = true := by
  unfold ofSource? at h
  split at h
  · obtain ⟨kind, -, h⟩ := Option.bind_eq_some_iff.1 h
    exact isFinite_of_ofContent? h
  · split at h
    · obtain ⟨kind, -, h⟩ := Option.bind_eq_some_iff.1 h
      exact isFinite_of_ofContent? h
    · cases h
  · cases h

end Value

namespace Variables

/-- All values are finite. -/
def isFinite (vars : Variables) : Bool := vars.toList.all fun e => e.2.isFinite

theorem ofSource?_toJson {vars : Variables} (h : Legible vars.toJson.numbers) :
    ofSource? vars.toJson.source = Option.guard isFinite vars :=
  map?_source fun e he =>
    Value.ofSource?_toJson (legible_obj h (e.1, e.2.toJson) (List.mem_map.2 ⟨e, he, rfl⟩))

theorem isFinite_of_ofSource? {s : Source} {vars : Variables} (h : ofSource? s = some vars) :
    vars.isFinite = true :=
  List.all_eq_true.2 (map?_forall (fun _ _ => Value.isFinite_of_ofSource?) h)

end Variables

/-! ## Records -/

theorem Clock.ofSource?_toJson (c : Clock) : Clock.ofSource? c.toJson.source = some c := by
  have hfields : c.toJson.source.fields? ["frames", "elapsed_millis", "step_millis"]
      = some [some (Json.int c.frames.toNat).source, some (Json.int c.elapsedMillis.toInt).source,
        some (Json.int c.stepMillis.toNat).source] := fields?_source rfl (by decide)
  rw [Clock.ofSource?, hfields]
  simp [uint64?_source, int64?_source, uint32?_source]

namespace Snapshot

theorem bindingOfSource?_toJson (b : NamedBinding) :
    bindingOfSource? (bindingToJson b).source = some b := by
  have hfields : (bindingToJson b).source.fields? ["agent", "class"]
      = some [some (Json.int b.agent.number.toNat).source, some (Source.str b.cls)] :=
    fields?_source rfl (by decide)
  rw [bindingOfSource?, hfields]
  simp [uint32?_source, Source.string?]

/-- A printed state of an agent is read back exactly if it is not nested too deep. -/
theorem agentOfSource?_toJson {a : AgentSnapshot} (hproper : a.state.Proper)
    (h : Legible a.state.numbers) :
    agentOfSource? (agentToJson a).source
      = Option.guard (fun a => decide (a.state.depth ≤ blobDepth)) a := by
  have hfields : (agentToJson a).source.fields? ["id", "class", "priority", "state"]
      = some [some (Json.int a.id.number.toNat).source, some (Source.str a.cls),
        some (Json.int a.priority.toInt).source, some a.state.source] :=
    fields?_source rfl (by decide)
  rw [agentOfSource?, hfields]
  by_cases hd : a.state.depth ≤ blobDepth <;>
    simp [uint32?_source, int32?_source, Source.string?, json?_source a.state _ hproper h, hd,
      Option.guard]

/-! ## Snapshots -/

/-- All task states are of the JSON type. -/
def Proper (s : Snapshot) : Prop := ∀ a ∈ s.agents, a.state.Proper

/-- Every finite double of the snapshot is read back from the text that is printed for it. -/
def FloatsReadBack (s : Snapshot) : Prop := Legible s.toJson.numbers

instance (s : Snapshot) : Decidable s.FloatsReadBack :=
  inferInstanceAs (Decidable (Legible _))

/-- The JSON form can hold the snapshot: doubles of static variables are finite, and in task
states arrays and objects are nested at most 124 deep. -/
structure Encodable (s : Snapshot) : Prop where
  baselines : ∀ vars ∈ s.baselines.values, ∀ v ∈ vars.values, v.isFinite = true
  values : ∀ vars ∈ s.values.values, ∀ v ∈ vars.values, v.isFinite = true
  states : ∀ a ∈ s.agents, a.state.depth ≤ 124

/-- All values of all classes are finite. -/
def allFinite (m : SortedMap String Variables) : Bool := m.toList.all fun e => e.2.isFinite

theorem allFinite_iff {m : SortedMap String Variables} :
    allFinite m = true ↔ ∀ vars ∈ m.values, ∀ v ∈ vars.values, v.isFinite = true := by
  simp only [allFinite, Variables.isFinite, SortedMap.values, List.all_eq_true, List.forall_mem_map]

/-- Whether the JSON form can hold the snapshot. -/
def isEncodable (s : Snapshot) : Bool :=
  allFinite s.baselines && allFinite s.values && s.agents.all fun a => a.state.depth ≤ blobDepth

theorem isEncodable_iff {s : Snapshot} : s.isEncodable = true ↔ s.Encodable := by
  simp only [isEncodable, Bool.and_eq_true, allFinite_iff, List.all_eq_true, decide_eq_true_eq]
  exact ⟨fun ⟨⟨hb, hv⟩, hs⟩ => ⟨hb, hv, hs⟩, fun ⟨hb, hv, hs⟩ => ⟨⟨hb, hv⟩, hs⟩⟩

theorem map?_statics {m : SortedMap String Variables}
    (h : Legible (mapToJson m Variables.toJson).numbers) :
    (mapToJson m Variables.toJson).source.map? Variables.ofSource? = Option.guard allFinite m :=
  map?_source fun e he =>
    Variables.ofSource?_toJson (legible_obj h (e.1, e.2.toJson) (List.mem_map.2 ⟨e, he, rfl⟩))

theorem map?_bindings (m : SortedMap String NamedBinding) :
    (mapToJson m bindingToJson).source.map? bindingOfSource? = some m := by
  have hread : (mapToJson m bindingToJson).source.map? bindingOfSource?
      = Option.guard (fun m => m.toList.all fun _ => true) m :=
    map?_source (p := fun _ => true) fun e _ => bindingOfSource?_toJson e.2
  rw [hread]
  simp [Option.guard]

/-- The tree of a snapshot's text is read back exactly if it can hold the snapshot. -/
theorem ofSource?_toJson {s : Snapshot} (hproper : s.Proper) (h : s.FloatsReadBack) :
    ofSource? s.toJson.source = Option.guard isEncodable s := by
  have hpart := legible_obj h
  have hfields : s.toJson.source.fields?
      ["context_id", "clock", "named", "static_baselines", "static_values", "agents"]
      = some [some (Json.int s.context.number.toInt).source, some s.clock.toJson.source,
        some (mapToJson s.named bindingToJson).source,
        some (mapToJson s.baselines Variables.toJson).source,
        some (mapToJson s.values Variables.toJson).source,
        some (Json.arr (s.agents.map agentToJson)).source] := fields?_source rfl (by decide)
  have hbaselines : Legible (mapToJson s.baselines Variables.toJson).numbers :=
    hpart ("static_baselines", mapToJson s.baselines Variables.toJson) (by simp)
  have hvalues : Legible (mapToJson s.values Variables.toJson).numbers :=
    hpart ("static_values", mapToJson s.values Variables.toJson) (by simp)
  have hagents : Legible (Json.arr (s.agents.map agentToJson)).numbers :=
    hpart ("agents", Json.arr (s.agents.map agentToJson)) (by simp)
  have hstates : (Json.arr (s.agents.map agentToJson)).source.list? agentOfSource?
      = Option.guard (·.all fun a => decide (a.state.depth ≤ blobDepth)) s.agents := by
    refine list?_source fun a ha => agentOfSource?_toJson (hproper a ha) ?_
    have hagent : Legible (agentToJson a).numbers :=
      legible_arr hagents _ (List.mem_map.2 ⟨a, ha, rfl⟩)
    exact legible_obj hagent ("state", a.state) (by simp)
  rw [ofSource?, hfields]
  simp only [Option.bind_eq_bind, Option.bind_some, int64?_source, Clock.ofSource?_toJson,
    map?_bindings, map?_statics hbaselines, map?_statics hvalues, hstates]
  by_cases hb : allFinite s.baselines = true <;> by_cases hv : allFinite s.values = true <;>
    by_cases hs : (s.agents.all fun a => decide (a.state.depth ≤ blobDepth)) = true <;>
    simp only [Option.guard, isEncodable, hb, hv, hs] <;> rfl

/-- The text of a snapshot is read back exactly if it can hold the snapshot. -/
theorem decode_toText {s : Snapshot} (hproper : s.Proper) (h : s.FloatsReadBack) :
    decode s.toText = if s.isEncodable then .ok s else .error (.encoding "malformed snapshot") := by
  have htext : ofText? s.toText = Option.guard isEncodable s := by
    rw [ofText?, toText, ofText?_pretty, Option.bind_some, ofSource?_toJson hproper h]
  rw [decode, htext]
  cases he : s.isEncodable <;> simp [Option.guard, he]

/-! ## What is read -/

theorem agentOfSource?_spec {t : Source} {a : AgentSnapshot} (h : agentOfSource? t = some a) :
    a.state.Proper ∧ a.state.depth ≤ 124 := by
  obtain ⟨fields, -, h⟩ := Option.bind_eq_some_iff.1 h
  split at h
  · obtain ⟨id, -, h⟩ := Option.bind_eq_some_iff.1 h
    obtain ⟨cls, -, h⟩ := Option.bind_eq_some_iff.1 h
    obtain ⟨priority, -, h⟩ := Option.bind_eq_some_iff.1 h
    obtain ⟨state, hstate, h⟩ := Option.bind_eq_some_iff.1 h
    obtain rfl := Option.some.inj h
    exact json?_spec _ blobDepth hstate
  · cases h

/-- Whatever snapshot is read can be held by the JSON form. -/
theorem ofSource?_spec {t : Source} {s : Snapshot} (h : ofSource? t = some s) :
    s.Proper ∧ s.Encodable := by
  obtain ⟨fields, -, h⟩ := Option.bind_eq_some_iff.1 h
  split at h
  · obtain ⟨context, -, h⟩ := Option.bind_eq_some_iff.1 h
    obtain ⟨clock, -, h⟩ := Option.bind_eq_some_iff.1 h
    obtain ⟨named, -, h⟩ := Option.bind_eq_some_iff.1 h
    obtain ⟨baselines, hbaselines, h⟩ := Option.bind_eq_some_iff.1 h
    obtain ⟨values, hvalues, h⟩ := Option.bind_eq_some_iff.1 h
    obtain ⟨agents, hagents, h⟩ := Option.bind_eq_some_iff.1 h
    obtain rfl := Option.some.inj h
    have hstates : ∀ a ∈ agents, a.state.Proper ∧ a.state.depth ≤ 124 :=
      list?_forall (fun _ _ => agentOfSource?_spec) hagents
    have hstatics {t : Source} {m : SortedMap String Variables}
        (h : t.map? Variables.ofSource? = some m) : allFinite m = true :=
      List.all_eq_true.2 (map?_forall (fun _ _ => Variables.isFinite_of_ofSource?) h)
    exact ⟨fun a ha => (hstates a ha).1, allFinite_iff.1 (hstatics hbaselines),
      allFinite_iff.1 (hstatics hvalues), fun a ha => (hstates a ha).2⟩
  · cases h

theorem decode_spec {text : String} {s : Snapshot} (h : decode text = .ok s) :
    s.Proper ∧ s.Encodable := by
  unfold decode at h
  split at h
  · next t ht =>
    obtain rfl := Except.ok.inj h
    obtain ⟨source, -, hsource⟩ := Option.bind_eq_some_iff.1 ht
    exact ofSource?_spec hsource
  · cases h

/-- A snapshot whose finite doubles are read back from their texts is read back from its own
text exactly if its static variables are finite and its task states are not nested too deep;
otherwise reading fails, for the encoding. Whatever text is read, the snapshot it stands for is
one of those, and so is read back from its own text. -/
theorem text_round_trip :
    (∀ s : Snapshot, s.Proper → s.FloatsReadBack →
      (decode s.toText = .ok s ↔ s.Encodable) ∧
      (¬s.Encodable → ∃ reason, decode s.toText = .error (.encoding reason))) ∧
    ∀ (text : String) (s : Snapshot), decode text = .ok s →
      s.Proper ∧ s.Encodable ∧ (s.FloatsReadBack → decode s.toText = .ok s) := by
  have hencodable {s : Snapshot} (hproper : s.Proper) (h : s.FloatsReadBack) (he : s.Encodable) :
      decode s.toText = .ok s := by
    rw [decode_toText hproper h, if_pos (isEncodable_iff.2 he)]
  refine ⟨fun s hproper h => ⟨⟨fun hs => (decode_spec hs).2, hencodable hproper h⟩, fun he => ?_⟩,
    fun text s hs => ?_⟩
  · rw [decode_toText hproper h, if_neg (mt isEncodable_iff.1 he)]
    exact ⟨_, rfl⟩
  · obtain ⟨hproper, he⟩ := decode_spec hs
    exact ⟨hproper, he, fun h => hencodable hproper h he⟩

/-- Numbers at their bounds, names beyond ASCII, control characters and empty containers. -/
def sample : Snapshot where
  context := ⟨-7⟩
  clock := ⟨0xffffffffffffffff, -0x8000000000000000, 0xffffffff⟩
  named := .ofList [("", ⟨⟨0xffffffff⟩, "\x00\x1f\"\\/"⟩), ("\né😀", ⟨⟨1⟩, "A"⟩)]
  baselines := .ofList [("A", .empty), ("B", .ofList [("x", .float ⟨0x3fb999999999999a⟩)])]
  values := .ofList
    [("B", .ofList [("n", .int (-0x8000000000000000)), ("x", .float ⟨0x8000000000000000⟩)])]
  agents := [⟨⟨3⟩, "A", -0x80000000, .obj
    [("a", .arr [.null, .arr [], .obj [], .bool true]), ("b", .num (.float ⟨0x0000000000000001⟩)),
      ("c", .int 0xffffffffffffffff)]⟩]

/-- A value that JSON cannot hold. -/
def unwritable : Snapshot where
  values := .ofList [("A", .ofList [("x", .float .nan)])]

/-- Records as arrays, members out of order, an unknown one, and a key given twice. -/
def sampleText : String :=
  "\x7b\"x\":0,\"agents\":[[1,\"A\",-5,1e2]],\"named\":\x7b\"n\":[1,\"A\"],\"n\":[2,\"B\"]\x7d,"
    ++ "\"clock\":[1,2,3],\"static_values\":\x7b\x7d,\"static_baselines\":\x7b\x7d,\"context_id\":5\x7d"

theorem text_round_trip_sample :
    (sample.Proper ∧ sample.FloatsReadBack ∧ sample.Encodable ∧
      decode sample.toText = .ok sample) ∧
    (unwritable.Proper ∧ unwritable.FloatsReadBack ∧ ¬unwritable.Encodable ∧
      ∃ reason, decode unwritable.toText = .error (.encoding reason)) ∧
    ∃ s, decode sampleText = .ok s ∧ s.FloatsReadBack ∧ s.Encodable ∧
      decode s.toText = .ok s := by
  have hproper : sample.Proper := by
    refine List.forall_mem_cons.2 ⟨⟨?_, ?_⟩, fun a ha => by cases ha⟩
    · unfold Ascending
      decide +kernel
    · simp [ProperMembers, Json.Proper, ProperItems, Ascending, Number.Proper, Json.int]
      decide +kernel
  have hfloats : sample.FloatsReadBack := by decide +kernel
  have he : sample.Encodable := isEncodable_iff.1 (by decide +kernel)
  have hproper' : unwritable.Proper := fun a ha => by cases ha
  have hfloats' : unwritable.FloatsReadBack := by decide +kernel
  have he' : ¬unwritable.Encodable := mt isEncodable_iff.2 (by decide +kernel)
  have hread : (decode sampleText).toOption.any (decide ·.FloatsReadBack) = true := by
    decide +kernel
  refine ⟨⟨hproper, hfloats, he, (text_round_trip.1 sample hproper hfloats).1.2 he⟩,
    ⟨hproper', hfloats', he', (text_round_trip.1 unwritable hproper' hfloats').2 he'⟩, ?_⟩
  cases hs : decode sampleText with
  | error e =>
    rw [hs] at hread
    cases hread
  | ok s =>
    rw [hs] at hread
    have hfloats : s.FloatsReadBack := of_decide_eq_true hread
    obtain ⟨-, he, hagain⟩ := text_round_trip.2 sampleText s hs
    exact ⟨s, rfl, hfloats, he, hagain hfloats⟩

end Snapshot

end AgentScheduler
