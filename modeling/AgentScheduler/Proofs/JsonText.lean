/-
The text printed for a value is read as one tree (`ofText?_pretty`), whatever
the value: `source` is that tree, in which a double that is not finite has left
null.
-/
import AgentScheduler.Proofs.DoubleNumerals

namespace AgentScheduler

namespace Json

/-! ## Values -/

mutual

/-- The numbers in a value. -/
def numbers : Json → List Number
  | num n => [n]
  | arr items => itemNumbers items
  | obj members => memberNumbers members
  | _ => []

/-- The numbers in the items of an array. -/
def itemNumbers : List Json → List Number
  | [] => []
  | item :: items => numbers item ++ itemNumbers items

/-- The numbers in the members of an object. -/
def memberNumbers : List (String × Json) → List Number
  | [] => []
  | (_, value) :: members => numbers value ++ memberNumbers members

end

/-- The tree of the text that is printed for a number. -/
def numberSource (n : Number) : Source :=
  match Source.numeral (writeNumber n) with
  | some (m, []) => .num m
  | _ => .null

mutual

/-- The tree of the text that is printed for a value. -/
def source : Json → Source
  | null => .null
  | bool b => .bool b
  | num n => numberSource n
  | str s => .str s
  | arr items => .arr (itemSources items)
  | obj members => .obj (memberSources members)

/-- The trees of the items of an array. -/
def itemSources : List Json → List Source
  | [] => []
  | item :: items => source item :: itemSources items

/-- The trees of the members of an object. -/
def memberSources : List (String × Json) → List (Option String × Source)
  | [] => []
  | (key, value) :: members => (key, source value) :: memberSources members

end

/-- Finite doubles are read back; the other ones have no text of their own. -/
def Legible (ns : List Number) : Prop :=
  ∀ x, Number.float x ∈ ns → x.isFinite = true → x.ReadsBack

/-- Whether a number is read back, if it has to be. -/
def legibleNumber : Number → Bool
  | .int _ => true
  | .float x => !x.isFinite || decide x.ReadsBack

theorem legible_iff {ns : List Number} : ns.all legibleNumber = true ↔ Legible ns := by
  rw [List.all_eq_true]
  constructor
  · intro h x hx hfinite
    simpa [legibleNumber, hfinite] using h _ hx
  · rintro h (i | x) hn
    · rfl
    · cases hfinite : x.isFinite <;> simp [legibleNumber, hfinite]
      exact h x hn hfinite

instance (ns : List Number) : Decidable (Legible ns) := decidable_of_iff _ legible_iff

theorem legible_append {ns ms : List Number} : Legible (ns ++ ms) ↔ Legible ns ∧ Legible ms := by
  simp [Legible, or_imp, forall_and]

theorem legible_singleton_float {x : Binary64} :
    Legible [.float x] ↔ (x.isFinite = true → x.ReadsBack) := by
  simp [Legible]

/-- A number is printed as a numeral or as null. -/
theorem writeNumber_cases (n : Number) :
    (∃ m, Source.numeral (writeNumber n) = some (m, [])) ∨
      writeNumber n = "null".toList := by
  cases n with
  | int i => exact .inl ⟨_, Source.numeral_toString i⟩
  | float x =>
    by_cases hx : x.isFinite = true
    · obtain ⟨m, -, hm, -⟩ := Numeral.numeral_layOut hx
      exact .inl ⟨m, hm⟩
    · exact .inr (by rw [writeNumber, if_neg hx])

theorem value_writeNumber {n : Number} {fuel : Nat} {rest : List Char} (hrest : EndsNumber rest) :
    Source.value (fuel + 1) (writeNumber n ++ rest) = some (numberSource n, rest) := by
  rcases writeNumber_cases n with ⟨m, hm⟩ | hnull
  · rw [Source.value_of_numeral (Source.numeral_append hrest hm), numberSource, hm]
    rfl
  · have hsource : numberSource n = .null := by
      rw [numberSource, hnull]
      rfl
    rw [hnull, hsource]
    rfl

/-- A printed value starts with a character that is no blank and no closing bracket. -/
theorem writeIndented_head (j : Json) (depth : Nat) :
    ∃ c cs, j.writeIndented depth = c :: cs ∧ Source.isBlank c = false ∧ c ≠ ']' := by
  have hdigit {c : Char} (hc : c = '-' ∨ c.isDigit = true) :
      Source.isBlank c = false ∧ c ≠ ']' := by
    rcases hc with rfl | hc
    · decide
    · exact ⟨Source.notBlank_of_isDigit hc, by rintro rfl; cases hc⟩
  cases j with
  | null => exact ⟨'n', _, rfl, by decide⟩
  | bool b => cases b with
    | true => exact ⟨'t', _, rfl, by decide⟩
    | false => exact ⟨'f', _, rfl, by decide⟩
  | num n =>
    rcases writeNumber_cases n with ⟨m, hm⟩ | hnull
    · obtain ⟨c, body, hcs, hc, -⟩ := Source.numeral_text hm
      exact ⟨c, _, hcs, hdigit hc⟩
    · exact ⟨'n', _, hnull, by decide⟩
  | str s => exact ⟨'"', _, rfl, by decide⟩
  | arr items => cases items with
    | nil => exact ⟨'[', _, rfl, by decide⟩
    | cons item items => exact ⟨'[', _, rfl, by decide⟩
  | obj members => cases members with
    | nil => exact ⟨'\x7b', _, rfl, by decide⟩
    | cons member members => exact ⟨'\x7b', _, rfl, by decide⟩

/-! ## What follows the first item and the first member -/

/-- The text of an array behind its first item. -/
def behindItem (depth : Nat) (items : List Json) (rest : List Char) : List Char :=
  writeIndentedItems (depth + 1) items ++ (newLine depth ++ ']' :: rest)

/-- The text of an object behind its first member. -/
def behindMember (depth : Nat) (members : List (String × Json)) (rest : List Char) : List Char :=
  writeIndentedMembers (depth + 1) members ++ (newLine depth ++ '\x7d' :: rest)

/-- A member and the text behind it. -/
def memberText (depth : Nat) (key : String) (value : Json) (rest : List Char) : List Char :=
  '"' :: (key.toList.flatMap escape ++ '"' :: ':' :: ' ' :: (value.writeIndented depth ++ rest))

section Texts

variable {depth : Nat} {rest cs : List Char} {item : Json} {items : List Json} {key : String}
  {members : List (String × Json)}

theorem writeIndented_arr_append :
    (arr (item :: items)).writeIndented depth ++ rest
      = '[' :: (newLine (depth + 1) ++ (item.writeIndented (depth + 1)
        ++ behindItem depth items rest)) := by
  simp [writeIndented, behindItem]

theorem writeIndented_obj_append :
    (obj ((key, item) :: members)).writeIndented depth ++ rest
      = '\x7b' :: (newLine (depth + 1) ++ memberText (depth + 1) key item
        (behindMember depth members rest)) := by
  simp [writeIndented, memberText, behindMember, quote]

theorem skipBlanks_behindItem_nil :
    Source.skipBlanks (behindItem depth [] rest) = ']' :: rest := by
  rw [behindItem, writeIndentedItems, List.nil_append, Source.skipBlanks_newLine]
  exact Source.skipBlanks_cons rfl

theorem skipBlanks_behindItem_cons :
    Source.skipBlanks (behindItem depth (item :: items) rest)
      = ',' :: (newLine (depth + 1) ++ (item.writeIndented (depth + 1)
        ++ behindItem depth items rest)) := by
  simp only [behindItem, writeIndentedItems, List.append_assoc, List.cons_append]
  exact Source.skipBlanks_cons rfl

theorem skipBlanks_behindMember_nil :
    Source.skipBlanks (behindMember depth [] rest) = '\x7d' :: rest := by
  rw [behindMember, writeIndentedMembers, List.nil_append, Source.skipBlanks_newLine]
  exact Source.skipBlanks_cons rfl

theorem skipBlanks_behindMember_cons :
    Source.skipBlanks (behindMember depth ((key, item) :: members) rest)
      = ',' :: (newLine (depth + 1) ++ memberText (depth + 1) key item
        (behindMember depth members rest)) := by
  simp only [behindMember, writeIndentedMembers, memberText, quote, List.append_assoc,
    List.cons_append, List.nil_append]
  exact Source.skipBlanks_cons rfl

theorem endsNumber_behindItem : EndsNumber (behindItem depth items rest) := by
  cases items with
  | nil => exact Source.endsNumber_newLine depth _
  | cons item items => exact endsNumber_cons.2 (by decide)

theorem endsNumber_behindMember : EndsNumber (behindMember depth members rest) := by
  cases members with
  | nil => exact Source.endsNumber_newLine depth _
  | cons member members => exact endsNumber_cons.2 (by decide)

theorem skipBlanks_writeIndented :
    Source.skipBlanks (item.writeIndented depth ++ rest) = item.writeIndented depth ++ rest := by
  obtain ⟨c, cs, hcs, hblank, -⟩ := writeIndented_head item depth
  rw [hcs]
  exact Source.skipBlanks_cons hblank

theorem value_arr {fuel : Nat} {sources : List Source}
    (hread : Source.items fuel (item.writeIndented (depth + 1) ++ behindItem depth items rest)
      = some (sources, rest)) :
    Source.value (fuel + 1) ((arr (item :: items)).writeIndented depth ++ rest)
      = some (.arr sources, rest) := by
  obtain ⟨c, cs, hcs, -, hclose⟩ := writeIndented_head item (depth + 1)
  rw [writeIndented_arr_append, Source.value, Source.skipBlanks_newLine, skipBlanks_writeIndented]
  rw [hcs] at hread ⊢
  simp only [List.cons_append] at hread ⊢
  simp [hclose, hread]

theorem value_obj {fuel : Nat} {sources : List (Option String × Source)}
    (hread : Source.members fuel (memberText (depth + 1) key item (behindMember depth members rest))
      = some (sources, rest)) :
    Source.value (fuel + 1) ((obj ((key, item) :: members)).writeIndented depth ++ rest)
      = some (.obj sources, rest) := by
  rw [writeIndented_obj_append, Source.value, Source.skipBlanks_newLine]
  unfold memberText at hread ⊢
  rw [Source.skipBlanks_cons rfl]
  simp [hread]

theorem skipBlanks_colon (item : Json) (depth : Nat) (tail : List Char) :
    Source.skipBlanks (':' :: ' ' :: (item.writeIndented depth ++ tail))
        = ':' :: ' ' :: (item.writeIndented depth ++ tail) ∧
      Source.skipBlanks (' ' :: (item.writeIndented depth ++ tail))
        = item.writeIndented depth ++ tail :=
  ⟨Source.skipBlanks_cons rfl, skipBlanks_writeIndented⟩

/-- A brace behind a member ends the object. -/
theorem members_last {fuel : Nat} {tail : List Char}
    (hcs : Source.skipBlanks cs = memberText depth key item tail)
    (hvalue : Source.value fuel (item.writeIndented depth ++ tail) = some (item.source, tail))
    (htail : Source.skipBlanks tail = '\x7d' :: rest) :
    Source.members (fuel + 1) cs = some ([(some key, item.source)], rest) := by
  obtain ⟨hcolon, hblank⟩ := skipBlanks_colon item depth tail
  rw [Source.members, hcs]
  simp [memberText, Source.string_flatMap, hcolon, hblank, hvalue, htail]

/-- Behind a comma the object goes on. -/
theorem members_next {fuel : Nat} {tail t : List Char} {ms : List (Option String × Source)}
    (hcs : Source.skipBlanks cs = memberText depth key item tail)
    (hvalue : Source.value fuel (item.writeIndented depth ++ tail) = some (item.source, tail))
    (htail : Source.skipBlanks tail = ',' :: t) (hread : Source.members fuel t = some (ms, rest)) :
    Source.members (fuel + 1) cs = some ((some key, item.source) :: ms, rest) := by
  obtain ⟨hcolon, hblank⟩ := skipBlanks_colon item depth tail
  rw [Source.members, hcs]
  simp [memberText, Source.string_flatMap, hcolon, hblank, hvalue, htail, hread]

end Texts

/-! ## Reading what was printed -/

mutual

/-- A printed value is read as its tree. Every step of the reader takes a character, so the
length of the text is fuel enough. -/
theorem value_writeIndented : ∀ (j : Json) (depth fuel : Nat) (rest : List Char),
    EndsNumber rest → (j.writeIndented depth).length ≤ fuel →
    Source.value fuel (j.writeIndented depth ++ rest) = some (j.source, rest)
  | j, depth, 0, rest, _, hfuel => by
    obtain ⟨c, cs, hcs, -⟩ := writeIndented_head j depth
    rw [hcs] at hfuel
    cases hfuel
  | null, depth, fuel + 1, rest, _, _ => rfl
  | bool true, depth, fuel + 1, rest, _, _ => rfl
  | bool false, depth, fuel + 1, rest, _, _ => rfl
  | num n, depth, fuel + 1, rest, hrest, _ => value_writeNumber hrest
  | str s, depth, fuel + 1, rest, _, _ => by
    have htext : (str s).writeIndented depth ++ rest
        = '"' :: (s.toList.flatMap escape ++ '"' :: rest) := by
      simp [writeIndented, quote]
    rw [htext, Source.value, Source.string_flatMap]
    rfl
  | arr [], depth, fuel + 1, rest, _, _ => rfl
  | arr (item :: items), depth, fuel + 1, rest, hrest, hfuel => by
    have hlength : (item.writeIndented (depth + 1)).length
        + (writeIndentedItems (depth + 1) items).length < fuel := by
      simp only [writeIndented, newLine, List.length_append, List.length_cons] at hfuel
      omega
    exact value_arr (items_writeIndented item items depth fuel _ rest hlength
      skipBlanks_writeIndented)
  | obj [], depth, fuel + 1, rest, _, _ => rfl
  | obj ((key, item) :: members), depth, fuel + 1, rest, hrest, hfuel => by
    have hlength : (item.writeIndented (depth + 1)).length
        + (writeIndentedMembers (depth + 1) members).length < fuel := by
      simp only [writeIndented, newLine, List.length_append, List.length_cons] at hfuel
      omega
    exact value_obj (members_writeIndented key item members depth fuel _ rest hlength
      (Source.skipBlanks_cons rfl))

/-- The items of an array, from one of them on. -/
theorem items_writeIndented : ∀ (item : Json) (items : List Json) (depth fuel : Nat)
    (cs rest : List Char),
    (item.writeIndented (depth + 1)).length + (writeIndentedItems (depth + 1) items).length < fuel →
    Source.skipBlanks cs = item.writeIndented (depth + 1) ++ behindItem depth items rest →
    Source.items fuel cs = some (item.source :: itemSources items, rest)
  | item, items, depth, 0, cs, rest, hfuel, _ => by cases hfuel
  | item, [], depth, fuel + 1, cs, rest, hfuel, hcs => by
    have hvalue := value_writeIndented item (depth + 1) fuel (behindItem depth [] rest)
      endsNumber_behindItem (by omega)
    rw [Source.items, hcs, hvalue]
    simp [skipBlanks_behindItem_nil, itemSources]
  | item, next :: items, depth, fuel + 1, cs, rest, hfuel, hcs => by
    have hlength : (next.writeIndented (depth + 1)).length
        + (writeIndentedItems (depth + 1) items).length < fuel := by
      simp only [writeIndentedItems, newLine, List.length_append, List.length_cons] at hfuel
      omega
    have hvalue := value_writeIndented item (depth + 1) fuel (behindItem depth (next :: items) rest)
      endsNumber_behindItem (by omega)
    have hread := items_writeIndented next items depth fuel
      (newLine (depth + 1) ++ (next.writeIndented (depth + 1) ++ behindItem depth items rest)) rest
      hlength (by rw [Source.skipBlanks_newLine, skipBlanks_writeIndented])
    rw [Source.items, hcs, hvalue]
    simp [skipBlanks_behindItem_cons, hread, itemSources]

/-- The members of an object, from one of them on. -/
theorem members_writeIndented : ∀ (key : String) (item : Json) (members : List (String × Json))
    (depth fuel : Nat) (cs rest : List Char),
    (item.writeIndented (depth + 1)).length
      + (writeIndentedMembers (depth + 1) members).length < fuel →
    Source.skipBlanks cs = memberText (depth + 1) key item (behindMember depth members rest) →
    Source.members fuel cs = some ((some key, item.source) :: memberSources members, rest)
  | key, item, members, depth, 0, cs, rest, hfuel, _ => by cases hfuel
  | key, item, [], depth, fuel + 1, cs, rest, hfuel, hcs => by
    have hvalue := value_writeIndented item (depth + 1) fuel (behindMember depth [] rest)
      endsNumber_behindMember (by omega)
    exact members_last hcs hvalue skipBlanks_behindMember_nil
  | key, item, (next, value) :: members, depth, fuel + 1, cs, rest, hfuel, hcs => by
    have hlength : (value.writeIndented (depth + 1)).length
        + (writeIndentedMembers (depth + 1) members).length < fuel := by
      simp only [writeIndentedMembers, newLine, List.length_append, List.length_cons] at hfuel
      omega
    have hvalue := value_writeIndented item (depth + 1) fuel
      (behindMember depth ((next, value) :: members) rest) endsNumber_behindMember (by omega)
    have hread := members_writeIndented next value members depth fuel
      (newLine (depth + 1) ++ memberText (depth + 1) next value (behindMember depth members rest))
      rest hlength (by rw [Source.skipBlanks_newLine]; exact Source.skipBlanks_cons rfl)
    exact members_next hcs hvalue skipBlanks_behindMember_cons hread

end

/-- The text of a value is read as the tree of the value. -/
theorem ofText?_pretty (j : Json) : Source.ofText? j.pretty = some j.source := by
  have hlength : (j.writeIndented 0).length ≤ 2 * (j.writeIndented 0).length + 2 := by omega
  have hvalue := value_writeIndented j 0 _ [] endsNumber_nil hlength
  have hblank : Source.skipBlanks (j.writeIndented 0 ++ []) = j.writeIndented 0 ++ [] :=
    skipBlanks_writeIndented
  rw [List.append_nil] at hvalue hblank
  have hend : Source.skipBlanks [] = [] := rfl
  simp [Source.ofText?, pretty, hblank, hvalue, hend]

end Json

end AgentScheduler
