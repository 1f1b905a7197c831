/-
Strings and doubles as they are printed. A quoted string is read back character
by character (`string_flatMap`). The text of a double has no blanks, and a point
or an exponent in it; so where it is read back at all, it is read as one
numeral, and as a double (`numeral_of_readsBack`).
-/
import AgentScheduler.Json.Decode
import AgentScheduler.Json.Printer
import AgentScheduler.Proofs.Numerals

namespace AgentScheduler

namespace Json.Source

/-! ## Strings -/

/-- The two digits of a control character. -/
theorem hexWord?_control : ∀ n < 32,
    hexWord? '0' '0' (hexDigit (n / 16)) (hexDigit (n % 16)) = some n := by
  decide

/-- An escaped character is read as one unit, the character's code point. -/
theorem stringUnits_escape (c : Char) (tail : List Char) :
    stringUnits (escape c ++ tail)
      = (stringUnits tail).map fun (units, rest) => (c.toNat :: units, rest) := by
  unfold escape
  split
  -- The characters with an escape of one letter.
  iterate 7
    · cases h : stringUnits tail <;> simp [stringUnits, unescape?, h]
  next hquote hslash _ _ _ _ _ =>
  split
  · next hcontrol =>
    cases h : stringUnits tail <;> simp [stringUnits, hexWord?_control _ hcontrol, h]
  · next hprinted =>
    have hplain : ¬(c.toNat < 32 ∨ c = '\\') := not_or.2 ⟨hprinted, hslash⟩
    rw [List.singleton_append, stringUnits.eq_def]
    split
    · next heq => cases heq
    · next heq => exact absurd (List.cons.inj heq).1 hquote
    · next heq => exact absurd (List.cons.inj heq).1 hslash
    · next heq => exact absurd (List.cons.inj heq).1 hslash
    · next heq =>
      obtain ⟨rfl, rfl⟩ := List.cons.inj heq
      rw [if_neg hplain]
      cases stringUnits tail <;> rfl

theorem stringUnits_flatMap (cs rest : List Char) :
    stringUnits (cs.flatMap escape ++ '"' :: rest) = some (cs.map Char.toNat, rest) := by
  induction cs with
  | nil => rfl
  | cons c cs ih => rw [List.flatMap_cons, List.append_assoc, stringUnits_escape, ih]; rfl

/-- No code point of a character is half of a surrogate pair. -/
theorem joinSurrogates_toNat (cs : List Char) : joinSurrogates (cs.map Char.toNat) = some cs := by
  have hproper (c : Char) : isHighSurrogate c.toNat = false ∧ isLowSurrogate c.toNat = false := by
    have hvalid : c.toNat < 0xd800 ∨ 0xdfff < c.toNat ∧ c.toNat < 0x110000 := c.valid
    constructor
    · simp only [isHighSurrogate, Bool.and_eq_false_iff, decide_eq_false_iff_not]
      omega
    · simp only [isLowSurrogate, Bool.and_eq_false_iff, decide_eq_false_iff_not]
      omega
  induction cs with
  | nil => rfl
  | cons c cs ih =>
    obtain ⟨hhigh, hlow⟩ := hproper c
    cases cs with
    | nil => simp [joinSurrogates, hhigh, hlow]
    | cons d cs =>
      rw [List.map_cons] at ih
      simp [joinSurrogates, hhigh, hlow, ih]

/-- A quoted string is read back. -/
theorem string_flatMap (s : String) (rest : List Char) :
    string (s.toList.flatMap escape ++ '"' :: rest) = some (some s, rest) := by
  simp [string, stringUnits_flatMap, joinSurrogates_toNat]

/-! ## Blanks -/

theorem skipBlanks_cons {c : Char} {cs : List Char} (h : isBlank c = false) :
    skipBlanks (c :: cs) = c :: cs := by
  simp [skipBlanks, h]

theorem skipBlanks_newLine (depth : Nat) (cs : List Char) :
    skipBlanks (newLine depth ++ cs) = skipBlanks cs := by
  refine List.dropWhile_append_of_pos fun c hc => ?_
  rcases List.mem_cons.1 hc with rfl | hc
  · rfl
  · rw [(List.mem_replicate.1 hc).2]
    rfl

theorem endsNumber_newLine (depth : Nat) (cs : List Char) : EndsNumber (newLine depth ++ cs) :=
  endsNumber_cons.2 (by decide)

/-! ## Numbers -/

variable {cs rest : List Char} {n : Numeral} {fuel : Nat}

theorem value_of_numeral (h : numeral cs = some (n, rest)) :
    value (fuel + 1) cs = some (.num n, rest) := by
  unfold value
  split
  -- No other kind of value starts with a sign or a digit.
  iterate 6
    · simp [numeral, wholePart, digits] at h
  · rw [h]
    rfl

theorem numeral_of_value (h : value (fuel + 1) cs = some (.num n, rest)) :
    numeral cs = some (n, rest) := by
  unfold value at h
  split at h
  · cases h
  · cases h
  · cases h
  · obtain ⟨⟨s, r⟩, -, h⟩ := Option.map_eq_some_iff.1 h
    cases h
  · split at h
    · cases h
    · obtain ⟨⟨vs, r⟩, -, h⟩ := Option.map_eq_some_iff.1 h
      cases h
  · split at h
    · cases h
    · obtain ⟨⟨ms, r⟩, -, h⟩ := Option.map_eq_some_iff.1 h
      cases h
  · obtain ⟨⟨m, r⟩, hm, h⟩ := Option.map_eq_some_iff.1 h
    cases h
    exact hm

/-! ## Doubles -/

end Json.Source

/-- The JSON text printed for a double is read back to the same bits. -/
def Binary64.ReadsBack (x : Binary64) : Prop :=
  (Json.Source.ofText? (Json.num (.float x)).pretty).bind Json.Source.float? = some x

instance (x : Binary64) : Decidable x.ReadsBack :=
  inferInstanceAs (Decidable (_ = _))

namespace Json.Source

theorem notBlank_of_isDigit {c : Char} (h : c.isDigit = true) : isBlank c = false := by
  simp only [isBlank, Bool.or_eq_false_iff, beq_eq_false_iff_ne]
  refine ⟨⟨⟨?_, ?_⟩, ?_⟩, ?_⟩ <;> (rintro rfl; cases h)

/-- A text without blanks. -/
def Solid (s : String) : Prop := ∀ c ∈ s.toList, isBlank c = false

theorem solid_of_all {s : String} (h : s.toList.all (!isBlank ·) = true) : Solid s := by
  intro c hc
  simpa using List.all_eq_true.1 h c hc

theorem Solid.append {s t : String} (hs : Solid s) (ht : Solid t) : Solid (s ++ t) := by
  intro c hc
  rw [String.toList_append, List.mem_append] at hc
  exact hc.elim (hs c) (ht c)

theorem solid_digits {n : Nat} {cs : List Char} (h : ∀ c ∈ cs, c ∈ Nat.toDigits 10 n) :
    Solid (String.ofList cs) := by
  intro c hc
  rw [String.toList_ofList] at hc
  exact notBlank_of_isDigit (Nat.isDigit_of_mem_toDigits (by decide) (by decide) (h c hc))

theorem solid_zeros (n : Nat) : Solid (Decimal.zeros n) := by
  intro c hc
  rw [Decimal.zeros, String.toList_ofList] at hc
  rw [(List.mem_replicate.1 hc).2]
  rfl

theorem solid_positional (d : Decimal) : Solid (d.positional ".0") := by
  have hwhole : Solid ".0" := solid_of_all (by decide +kernel)
  have hpoint : Solid "." := solid_of_all (by decide +kernel)
  have hnought : Solid "0." := solid_of_all (by decide +kernel)
  unfold Decimal.positional
  dsimp only
  split
  · exact ((solid_digits fun _ => id).append (solid_zeros _)).append hwhole
  · split
    · exact ((solid_digits fun _ => List.mem_of_mem_take).append hpoint).append
        (solid_digits fun _ => List.mem_of_mem_drop)
    · exact (hnought.append (solid_zeros _)).append (solid_digits fun _ => id)

theorem solid_scientific (d : Decimal) : Solid d.scientific := by
  have hfraction : Solid (if (Nat.toDigits 10 d.digits).length ≤ 1 then ""
      else "." ++ String.ofList ((Nat.toDigits 10 d.digits).drop 1)) := by
    split
    · exact solid_of_all (by decide +kernel)
    · have hpoint : Solid "." := solid_of_all (by decide +kernel)
      exact hpoint.append (solid_digits fun _ => List.mem_of_mem_drop)
  have hmark : Solid "e" := solid_of_all (by decide +kernel)
  have hsign : Solid (if d.leadingExponent < 0 then "-" else "+") := by
    split <;> exact solid_of_all (by decide +kernel)
  have hexponent : Solid (toString d.leadingExponent.natAbs) := by
    rw [Nat.toString_eq_ofList_toDigits]
    exact solid_digits fun _ => id
  exact ((((solid_digits fun _ => List.mem_of_mem_take).append hfraction).append hmark).append
    hsign).append hexponent

theorem point_mem_positional (d : Decimal) : '.' ∈ (d.positional ".0").toList := by
  unfold Decimal.positional
  dsimp only
  split
  · simp
  · split <;> simp

theorem mark_mem_scientific (d : Decimal) : 'e' ∈ d.scientific.toList := by
  simp [Decimal.scientific]

theorem solid_layOut (x : Binary64) : Solid (x.layOut Binary64.inJson) := by
  have hsign : Solid (if x.isNegative then "-" else "") := by
    split <;> exact solid_of_all (by decide +kernel)
  unfold Binary64.layOut
  dsimp only
  split
  · exact hsign.append (solid_positional _)
  · exact hsign.append (solid_scientific _)

/-- A printed double has a point or an exponent. -/
theorem mark_mem_layOut (x : Binary64) :
    ∃ c ∈ (x.layOut Binary64.inJson).toList, c ≠ '-' ∧ c.isDigit = false := by
  unfold Binary64.layOut
  dsimp only
  split
  · refine ⟨'.', ?_, by decide, rfl⟩
    rw [String.toList_append]
    exact List.mem_append_right _ (point_mem_positional _)
  · refine ⟨'e', ?_, by decide, rfl⟩
    rw [String.toList_append]
    exact List.mem_append_right _ (mark_mem_scientific _)

theorem skipBlanks_of_solid {cs : List Char} (h : ∀ c ∈ cs, isBlank c = false) :
    skipBlanks cs = cs := by
  cases cs with
  | nil => rfl
  | cons c cs => exact skipBlanks_cons (h c List.mem_cons_self)

/-- What is printed for a double that reads back is a numeral that means it, and nothing
else. -/
theorem numeral_of_readsBack {x : Binary64} (hx : x.isFinite = true) (h : x.ReadsBack) :
    ∃ n, numeral (writeNumber (.float x)) = some (n, []) ∧ n.number? = some (.float x) := by
  have hprinted : writeNumber (.float x) = (x.layOut Binary64.inJson).toList := by
    rw [writeNumber, if_pos hx]
  have hsolid : ∀ c ∈ writeNumber (.float x), isBlank c = false := hprinted ▸ solid_layOut x
  have htext : (Json.num (.float x)).pretty.toList = writeNumber (.float x) :=
    String.toList_ofList
  obtain ⟨v, hv, hfloat⟩ := Option.bind_eq_some_iff.1 h
  obtain ⟨⟨v', r⟩, hvalue, hend⟩ := Option.bind_eq_some_iff.1 hv
  dsimp only at hvalue hend
  rw [htext] at hvalue
  generalize writeNumber (.float x) = cs at hprinted hsolid hvalue ⊢
  split at hend
  case isFalse => cases hend
  case isTrue hrest =>
  obtain rfl := Option.some.inj hend
  cases v' with
  | num n =>
    have hnumeral : numeral cs = some (n, r) := by
      rw [← skipBlanks_of_solid hsolid]
      exact numeral_of_value hvalue
    obtain ⟨c, body, hcs, hc, hbody⟩ := numeral_text hnumeral
    have hr : r = [] := by
      have hsolid' : ∀ c ∈ r, isBlank c = false := fun c hc =>
        hsolid c (hcs ▸ List.mem_append_right _ hc)
      rwa [skipBlanks_of_solid hsolid', List.isEmpty_iff] at hrest
    subst hr
    refine ⟨n, hnumeral, ?_⟩
    obtain ⟨m, hm, hmx⟩ := Option.map_eq_some_iff.1 hfloat
    cases m with
    | float y => rw [hm, ← hmx]
    | int i =>
      -- An integer would have been printed without a mark.
      obtain ⟨hfraction, hexponent⟩ := Numeral.whole_of_number?_int hm
      obtain ⟨d, hd, hminus, hdigit⟩ := mark_mem_layOut x
      rw [← hprinted, hcs, List.append_nil] at hd
      rcases List.mem_cons.1 hd with rfl | hd
      · rw [hc.resolve_left hminus] at hdigit
        cases hdigit
      · rw [hbody hfraction hexponent d hd] at hdigit
        cases hdigit
  | _ => cases hfloat

end Json.Source

end AgentScheduler
