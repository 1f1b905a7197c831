/-
Numerals in their texts. Behind a numeral the reader stops at whatever cannot
go on with it (`numeral_append`), and an integer of 64 bits is read back from
its digits (`numeral_toString`, `number?_toDigits`).
-/
import AgentScheduler.Json.Numeral

namespace AgentScheduler

/-- An integer of 64 bits, with a sign or without, or a finite double. -/
def Number.Proper : Number → Prop
  | .int i => -0x8000000000000000 ≤ i ∧ i ≤ 0xffffffffffffffff
  | .float x => x.isFinite = true

namespace Json

/-- The text goes on with something that is no part of a number. -/
def EndsNumber (rest : List Char) : Prop :=
  ∀ c ∈ rest.head?, c.isDigit = false ∧ c ≠ '.' ∧ c ≠ 'e' ∧ c ≠ 'E'

theorem endsNumber_nil : EndsNumber [] := by simp [EndsNumber]

theorem endsNumber_cons {c : Char} {cs : List Char} :
    EndsNumber (c :: cs) ↔ c.isDigit = false ∧ c ≠ '.' ∧ c ≠ 'e' ∧ c ≠ 'E' := by
  simp [EndsNumber]

namespace Source

variable {cs ds r rest : List Char}

/-! ## What follows a numeral -/

theorem digits_append (hrest : EndsNumber rest) (h : digits cs = (ds, r)) :
    digits (cs ++ rest) = (ds, r ++ rest) := by
  obtain ⟨rfl, rfl⟩ := Prod.mk.inj h
  induction cs with
  | nil =>
    cases rest with
    | nil => rfl
    | cons c rest => simp [digits, (endsNumber_cons.1 hrest).1]
  | cons c cs ih =>
    obtain ⟨htake, hdrop⟩ := Prod.mk.inj (ih rfl)
    cases hc : c.isDigit with
    | true => simp [digits, hc, htake, hdrop]
    | false => simp [digits, hc]

theorem digits1_append (hrest : EndsNumber rest) (h : digits1 cs = some (ds, r)) :
    digits1 (cs ++ rest) = some (ds, r ++ rest) := by
  cases hd : digits cs with
  | mk es q =>
    cases es with
    | nil => simp [digits1, hd] at h
    | cons e es =>
      simp only [digits1, hd, Option.some.injEq, Prod.mk.injEq] at h
      obtain ⟨rfl, rfl⟩ := h
      simp only [digits1, digits_append hrest hd]

theorem wholePart_append (hrest : EndsNumber rest) (h : wholePart cs = some (ds, r)) :
    wholePart (cs ++ rest) = some (ds, r ++ rest) := by
  cases hd : digits cs with
  | mk es q =>
    rw [wholePart, digits_append hrest hd]
    rw [wholePart, hd] at h
    split at h
    · cases h
    · cases h
    · next hnil hzero =>
      obtain ⟨rfl, rfl⟩ := Prod.mk.inj (Option.some.inj h)
      split
      · next heq => exact absurd (Prod.mk.inj heq).1 (fun he => hnil _ (by rw [he]))
      · next heq => exact absurd (Prod.mk.inj heq).1 (fun he => hzero _ _ _ (by rw [he]))
      · rfl

theorem fractionPart_append (hrest : EndsNumber rest) (h : fractionPart cs = some (ds, r)) :
    fractionPart (cs ++ rest) = some (ds, r ++ rest) := by
  unfold fractionPart at h
  split at h
  · exact digits1_append hrest h
  · next hpoint =>
    obtain ⟨rfl, rfl⟩ := Prod.mk.inj (Option.some.inj h)
    unfold fractionPart
    split
    · next tail heq =>
      cases cs with
      | nil =>
        rw [List.nil_append] at heq
        exact absurd rfl (endsNumber_cons.1 (heq ▸ hrest)).2.1
      | cons c cs => exact absurd (congrArg (· :: cs) (List.cons.inj heq).1) (hpoint cs)
    · rfl

/-- An exponent behind its mark. -/
def signedExponent : List Char → Option (Option (Bool × List Char) × List Char)
  | '-' :: cs => (digits1 cs).map fun (ds, rest) => (some (true, ds), rest)
  | '+' :: cs => (digits1 cs).map fun (ds, rest) => (some (false, ds), rest)
  | cs => (digits1 cs).map fun (ds, rest) => (some (false, ds), rest)

theorem signedExponent_append {e : Option (Bool × List Char)} (hrest : EndsNumber rest)
    (h : signedExponent cs = some (e, r)) : signedExponent (cs ++ rest) = some (e, r ++ rest) := by
  have hdigits {negative : Bool} {t : List Char}
      (h : (digits1 t).map (fun (ds, rest) => (some (negative, ds), rest)) = some (e, r)) :
      (digits1 (t ++ rest)).map (fun (ds, rest) => (some (negative, ds), rest))
        = some (e, r ++ rest) := by
    obtain ⟨⟨ds, q⟩, hd, he⟩ := Option.map_eq_some_iff.1 h
    obtain ⟨rfl, rfl⟩ := Prod.mk.inj he
    rw [digits1_append hrest hd]
    rfl
  cases cs with
  | nil => cases h
  | cons c cs =>
    by_cases hminus : c = '-'
    · subst hminus
      exact hdigits h
    · by_cases hplus : c = '+'
      · subst hplus
        exact hdigits h
      · have hunsigned (t : List Char) : signedExponent (c :: t)
            = (digits1 (c :: t)).map fun (ds, rest) => (some (false, ds), rest) := by
          simp [signedExponent, hminus, hplus]
        rw [hunsigned] at h
        rw [List.cons_append, hunsigned]
        exact hdigits h

/-- An exponent stands behind a mark; without one there is none. -/
theorem exponentPart_cases (cs : List Char) :
    (∃ t mark, (mark = 'e' ∨ mark = 'E') ∧ cs = mark :: t ∧ exponentPart cs = signedExponent t) ∨
      ((∀ t, cs ≠ 'e' :: t) ∧ (∀ t, cs ≠ 'E' :: t) ∧ exponentPart cs = some (none, cs)) := by
  unfold exponentPart
  dsimp only
  split
  · next t => exact .inl ⟨t, 'e', .inl rfl, rfl, rfl⟩
  · next t => exact .inl ⟨t, 'E', .inr rfl, rfl, rfl⟩
  · next hsmall hlarge => exact .inr ⟨hsmall, hlarge, rfl⟩

theorem exponentPart_append {e : Option (Bool × List Char)} (hrest : EndsNumber rest)
    (h : exponentPart cs = some (e, r)) : exponentPart (cs ++ rest) = some (e, r ++ rest) := by
  rcases exponentPart_cases cs with ⟨t, mark, hmark, rfl, heq⟩ | ⟨hsmall, hlarge, heq⟩
  · rw [heq] at h
    rcases hmark with rfl | rfl <;> exact signedExponent_append hrest h
  · obtain ⟨rfl, rfl⟩ := Prod.mk.inj (Option.some.inj (heq.symm.trans h))
    -- What follows the numeral does not start with a mark either.
    rcases exponentPart_cases (cs ++ rest) with ⟨t, mark, hmark, ht, -⟩ | ⟨-, -, hnone⟩
    · cases cs with
      | nil =>
        rw [List.nil_append] at ht
        obtain ⟨-, -, he, hE⟩ := endsNumber_cons.1 (ht ▸ hrest)
        exact absurd hmark (not_or.2 ⟨he, hE⟩)
      | cons c cs =>
        obtain ⟨rfl, -⟩ := List.cons.inj ht
        rcases hmark with rfl | rfl
        · exact absurd rfl (hsmall cs)
        · exact absurd rfl (hlarge cs)
    · exact hnone

/-- A numeral behind its sign. -/
def unsignedNumeral (negative : Bool) (cs : List Char) : Option (Numeral × List Char) := do
  let (whole, cs) ← wholePart cs
  let (fraction, cs) ← fractionPart cs
  let (exponent, cs) ← exponentPart cs
  some (⟨negative, whole, fraction, exponent⟩, cs)

theorem numeral_minus (cs : List Char) : numeral ('-' :: cs) = unsignedNumeral true cs := rfl

theorem numeral_of_unsigned (h : ∀ t, cs ≠ '-' :: t) : numeral cs = unsignedNumeral false cs := by
  cases cs with
  | nil => rfl
  | cons c cs =>
    have hc : c ≠ '-' := fun hc => h cs (hc ▸ rfl)
    simp [numeral, unsignedNumeral]

theorem unsignedNumeral_eq_some {negative : Bool} {n : Numeral} :
    unsignedNumeral negative cs = some (n, r) ↔ ∃ whole fraction exponent cs₁ cs₂,
      wholePart cs = some (whole, cs₁) ∧ fractionPart cs₁ = some (fraction, cs₂) ∧
      exponentPart cs₂ = some (exponent, r) ∧ n = ⟨negative, whole, fraction, exponent⟩ := by
  constructor
  · intro h
    obtain ⟨⟨whole, cs₁⟩, hw, h⟩ := Option.bind_eq_some_iff.1 h
    obtain ⟨⟨fraction, cs₂⟩, hf, h⟩ := Option.bind_eq_some_iff.1 h
    obtain ⟨⟨exponent, cs₃⟩, he, h⟩ := Option.bind_eq_some_iff.1 h
    obtain ⟨rfl, rfl⟩ := Prod.mk.inj (Option.some.inj h)
    exact ⟨whole, fraction, exponent, cs₁, cs₂, hw, hf, he, rfl⟩
  · rintro ⟨whole, fraction, exponent, cs₁, cs₂, hw, hf, he, rfl⟩
    simp [unsignedNumeral, hw, hf, he]

theorem unsignedNumeral_append {negative : Bool} {n : Numeral} (hrest : EndsNumber rest)
    (h : unsignedNumeral negative cs = some (n, r)) :
    unsignedNumeral negative (cs ++ rest) = some (n, r ++ rest) := by
  obtain ⟨whole, fraction, exponent, cs₁, cs₂, hw, hf, he, rfl⟩ := unsignedNumeral_eq_some.1 h
  exact unsignedNumeral_eq_some.2 ⟨whole, fraction, exponent, cs₁ ++ rest, cs₂ ++ rest,
    wholePart_append hrest hw, fractionPart_append hrest hf, exponentPart_append hrest he, rfl⟩

/-- Behind a numeral the text may go on with anything that is no part of a number. -/
theorem numeral_append {n : Numeral} (hrest : EndsNumber rest) (h : numeral cs = some (n, r)) :
    numeral (cs ++ rest) = some (n, r ++ rest) := by
  cases cs with
  | nil => cases h
  | cons c cs =>
    by_cases hc : c = '-'
    · subst hc
      exact unsignedNumeral_append hrest h
    · rw [numeral_of_unsigned (by simp [hc])] at h
      rw [List.cons_append, numeral_of_unsigned (by simp [hc])]
      exact unsignedNumeral_append hrest h

/-! ## The characters of a numeral -/

theorem wholePart_text (h : wholePart cs = some (ds, r)) :
    cs = ds ++ r ∧ ds ≠ [] ∧ ∀ c ∈ ds, c.isDigit = true := by
  unfold wholePart at h
  split at h
  · cases h
  · cases h
  · next hnil _ =>
    obtain ⟨rfl, rfl⟩ := Prod.mk.inj (Option.some.inj h)
    exact ⟨List.takeWhile_append_dropWhile.symm,
      fun he => hnil (cs.dropWhile Char.isDigit) (Prod.ext he rfl),
      List.all_eq_true.1 List.all_takeWhile⟩

theorem digits1_text (h : digits1 cs = some (ds, r)) : cs = ds ++ r ∧ ds ≠ [] := by
  unfold digits1 at h
  split at h
  · cases h
  · next hnil =>
    obtain ⟨rfl, rfl⟩ := Prod.mk.inj (Option.some.inj h)
    exact ⟨List.takeWhile_append_dropWhile.symm,
      fun he => hnil (cs.dropWhile Char.isDigit) (Prod.ext he rfl)⟩

theorem fractionPart_text (h : fractionPart cs = some (ds, r)) :
    ∃ body, cs = body ++ r ∧ (ds = [] → body = []) := by
  unfold fractionPart at h
  split at h
  · next t =>
    obtain ⟨rfl, hds⟩ := digits1_text h
    exact ⟨'.' :: ds, rfl, fun he => absurd he hds⟩
  · obtain ⟨rfl, rfl⟩ := Prod.mk.inj (Option.some.inj h)
    exact ⟨[], rfl, fun _ => rfl⟩

theorem signedExponent_text {e : Option (Bool × List Char)} (h : signedExponent cs = some (e, r)) :
    ∃ body, cs = body ++ r ∧ e ≠ none := by
  have hdigits {negative : Bool} {t : List Char} (sign : List Char)
      (h : (digits1 t).map (fun (ds, rest) => (some (negative, ds), rest)) = some (e, r)) :
      ∃ body, sign ++ t = body ++ r ∧ e ≠ none := by
    obtain ⟨⟨ds, q⟩, hd, he⟩ := Option.map_eq_some_iff.1 h
    obtain ⟨rfl, rfl⟩ := Prod.mk.inj he
    exact ⟨sign ++ ds, by rw [(digits1_text hd).1, List.append_assoc], Option.some_ne_none _⟩
  unfold signedExponent at h
  split at h
  · exact hdigits ['-'] h
  · exact hdigits ['+'] h
  · exact hdigits [] h

theorem exponentPart_text {e : Option (Bool × List Char)} (h : exponentPart cs = some (e, r)) :
    ∃ body, cs = body ++ r ∧ (e = none → body = []) := by
  rcases exponentPart_cases cs with ⟨t, mark, -, rfl, heq⟩ | ⟨-, -, heq⟩
  · obtain ⟨body, rfl, he⟩ := signedExponent_text (heq.symm.trans h)
    exact ⟨mark :: body, rfl, fun hnone => absurd hnone he⟩
  · obtain ⟨rfl, rfl⟩ := Prod.mk.inj (Option.some.inj (heq.symm.trans h))
    exact ⟨[], rfl, fun _ => rfl⟩

/-- A numeral starts with a digit behind its sign. Without fraction and exponent it has
nothing else. -/
theorem unsignedNumeral_text {negative : Bool} {n : Numeral}
    (h : unsignedNumeral negative cs = some (n, r)) :
    ∃ c body, cs = c :: body ++ r ∧ c.isDigit = true ∧
      (n.fraction = [] → n.exponent = none → ∀ d ∈ body, d.isDigit = true) := by
  obtain ⟨whole, fraction, exponent, cs₁, cs₂, hw, hf, he, rfl⟩ := unsignedNumeral_eq_some.1 h
  obtain ⟨rfl, hne, hdigit⟩ := wholePart_text hw
  obtain ⟨f, rfl, hfnil⟩ := fractionPart_text hf
  obtain ⟨e, rfl, henil⟩ := exponentPart_text he
  cases whole with
  | nil => exact absurd rfl hne
  | cons c whole =>
    refine ⟨c, whole ++ f ++ e, by simp, hdigit c List.mem_cons_self, fun hfr hex d hd => ?_⟩
    rw [hfnil hfr, henil hex, List.append_nil, List.append_nil] at hd
    exact hdigit d (List.mem_cons_of_mem _ hd)

/-- A numeral starts with a sign or a digit. Without fraction and exponent, digits follow. -/
theorem numeral_text {n : Numeral} (h : numeral cs = some (n, r)) :
    ∃ c body, cs = c :: body ++ r ∧ (c = '-' ∨ c.isDigit = true) ∧
      (n.fraction = [] → n.exponent = none → ∀ d ∈ body, d.isDigit = true) := by
  by_cases hminus : ∃ t, cs = '-' :: t
  · obtain ⟨t, rfl⟩ := hminus
    rw [numeral_minus] at h
    obtain ⟨c, body, rfl, hc, hbody⟩ := unsignedNumeral_text h
    exact ⟨'-', c :: body, rfl, .inl rfl, fun hf he => List.forall_mem_cons.2 ⟨hc, hbody hf he⟩⟩
  · rw [numeral_of_unsigned (not_exists.1 hminus)] at h
    obtain ⟨c, body, rfl, hc, hbody⟩ := unsignedNumeral_text h
    exact ⟨c, body, rfl, .inr hc, hbody⟩

/-! ## The digits of a whole number -/

theorem toDigits_head {n : Nat} (h : 0 < n) : (Nat.toDigits 10 n).head? ≠ some '0' := by
  induction n using Nat.strongRecOn with
  | ind n ih =>
    by_cases hn : n < 10
    · rw [Nat.toDigits_of_lt_base hn]
      simpa using Nat.ne_of_gt h
    · rw [Nat.toDigits_of_base_le (by decide) (by omega), List.head?_append]
      cases hd : (Nat.toDigits 10 (n / 10)).head? with
      | none => exact absurd (List.head?_eq_none_iff.1 hd) Nat.toDigits_ne_nil
      | some c =>
        rw [Option.some_or]
        exact hd ▸ ih (n / 10) (by omega) (by omega)

theorem digits_of_all (h : ∀ c ∈ cs, c.isDigit = true) : digits cs = (cs, []) := by
  induction cs with
  | nil => rfl
  | cons c cs ih =>
    obtain ⟨hc, hcs⟩ := List.forall_mem_cons.1 h
    obtain ⟨htake, hdrop⟩ := Prod.mk.inj (ih hcs)
    simp [digits, hc, htake, hdrop]

theorem wholePart_toDigits (n : Nat) :
    wholePart (Nat.toDigits 10 n) = some (Nat.toDigits 10 n, []) := by
  have hdigit (c : Char) (hc : c ∈ Nat.toDigits 10 n) : c.isDigit = true :=
    Nat.isDigit_of_mem_toDigits (by decide) (by decide) hc
  rw [wholePart, digits_of_all hdigit]
  split
  · next h => exact absurd (Prod.mk.inj h).1 Nat.toDigits_ne_nil
  · next c cs _ h =>
    have h := (Prod.mk.inj h).1
    rcases Nat.eq_zero_or_pos n with rfl | hn
    · cases h
    · exact absurd (h ▸ rfl) (toDigits_head hn)
  · rfl

theorem unsignedNumeral_toDigits (negative : Bool) (n : Nat) :
    unsignedNumeral negative (Nat.toDigits 10 n)
      = some (⟨negative, Nat.toDigits 10 n, [], none⟩, []) :=
  unsignedNumeral_eq_some.2 ⟨_, [], none, [], [], wholePart_toDigits n, rfl, rfl, rfl⟩

/-- The numeral of an integer: its sign and its digits. -/
theorem numeral_toString (i : Int) :
    numeral (toString i).toList
      = some (⟨decide (i < 0), Nat.toDigits 10 i.natAbs, [], none⟩, []) := by
  cases i with
  | ofNat n =>
    have htext : (toString (Int.ofNat n)).toList = Nat.toDigits 10 n := Nat.toList_repr
    rw [htext, numeral_of_unsigned, unsignedNumeral_toDigits]
    · have hsign : decide (Int.ofNat n < 0) = false :=
        decide_eq_false (Int.not_lt.2 (Int.natCast_nonneg n))
      rw [hsign]
      rfl
    · intro t h
      have hminus : '-' ∈ Nat.toDigits 10 n := h ▸ List.mem_cons_self
      cases Nat.isDigit_of_mem_toDigits (by decide) (by decide) hminus
  | negSucc n =>
    have htext : (toString (Int.negSucc n)).toList = '-' :: Nat.toDigits 10 (n + 1) := by
      rw [← Nat.toList_repr]
      exact String.toList_append
    rw [htext, numeral_minus, unsignedNumeral_toDigits, decide_eq_true (Int.negSucc_lt_zero n)]
    rfl

end Source

namespace Numeral

theorem le_ofDigitChars (cs : List Char) (n : Nat) : n ≤ Nat.ofDigitChars 10 cs n := by
  rw [Nat.ofDigitChars_eq_ofDigitChars_zero]
  have := Nat.le_mul_of_pos_left n (Nat.pow_pos (n := cs.length) (show 0 < 10 by decide))
  omega

/-- Digits that fit are all taken. -/
theorem significand_eq {cs : List Char} {n : Nat}
    (h : Nat.ofDigitChars 10 cs n ≤ 0xffffffffffffffff) :
    significand n cs = (Nat.ofDigitChars 10 cs n, []) := by
  induction cs generalizing n with
  | nil => rfl
  | cons c cs ih =>
    rw [Nat.ofDigitChars_cons] at h ⊢
    have hnext : 10 * n + digitValue c ≤ 0xffffffffffffffff := Nat.le_trans (le_ofDigitChars cs _) h
    rw [significand, if_pos hnext]
    exact ih h

/-- The digits of an integer of 64 bits and its sign mean that integer. -/
theorem number?_toDigits {i : Int} (h : (Number.int i).Proper) :
    number? ⟨decide (i < 0), Nat.toDigits 10 i.natAbs, [], none⟩ = some (.int i) := by
  obtain ⟨hlow, hhigh⟩ := h
  have hsig : significand 0 (Nat.toDigits 10 i.natAbs) = (i.natAbs, []) := by
    have hvalue : Nat.ofDigitChars 10 (Nat.toDigits 10 i.natAbs) 0 = i.natAbs :=
      Nat.ofDigitChars_ten_toDigits
    rw [significand_eq (by omega), hvalue]
  have hwhole : ofWhole (decide (i < 0)) i.natAbs = .int i := by
    by_cases hi : i < 0
    · have hin : ¬(i.natAbs = 0 ∨ 0x8000000000000000 < i.natAbs) := by omega
      rw [ofWhole, decide_eq_true hi, if_neg (by decide), if_neg hin]
      congr 1
      omega
    · rw [ofWhole, decide_eq_false hi, if_pos (by decide)]
      congr 1
      omega
  simp only [number?, hsig]
  exact congrArg some hwhole

/-- Only a numeral without point and exponent means an integer. -/
theorem whole_of_number?_int {n : Numeral} {i : Int} (h : n.number? = some (.int i)) :
    n.fraction = [] ∧ n.exponent = none := by
  have hparts {negative : Bool} {digits : Nat} {e : Int} :
      ofParts? negative digits e ≠ some (.int i) := by
    intro h
    obtain ⟨x, -, h⟩ := Option.bind_eq_some_iff.1 h
    cases h
  by_cases hwhole : (n.fraction.isEmpty && n.exponent.isNone) = true
  · simpa using hwhole
  · rw [number?] at h
    simp only [if_neg hwhole] at h
    split at h
    · exact absurd h hparts
    · split at h
      · exact absurd h hparts
      · split at h <;> cases h

end Numeral

end Json

end AgentScheduler
