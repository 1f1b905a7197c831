/-
The two layouts of a decimal as JSON numerals. A positional decimal has digits
on both sides of a point (`positional_text`), a scientific one its first digit,
the others behind a point, and an exponent (`scientific_text`).
-/
import AgentScheduler.Proofs.Literals

namespace AgentScheduler

namespace Json.Source

variable {cs ds ws fs es r : List Char} {negative : Bool}

/-! ## Numerals of a known shape -/

/-- Only digits. -/
def AllDigits (cs : List Char) : Prop := ∀ c ∈ cs, c.isDigit = true

theorem allDigits_toDigits (n : Nat) : AllDigits (Nat.toDigits 10 n) :=
  fun _ hc => Nat.isDigit_of_mem_toDigits (by decide) (by decide) hc

/-- Digits that can stand before a point: at least one, and no zero in front of others. -/
structure Leading (ws : List Char) : Prop where
  digits : AllDigits ws
  nonempty : ws ≠ []
  plain : ws.head? = some '0' → ws.length = 1

/-- Digits end where something else begins. -/
theorem digits_append_stop (hds : AllDigits ds) (hr : ∀ c ∈ r.head?, c.isDigit = false) :
    digits (ds ++ r) = (ds, r) := by
  induction ds with
  | nil =>
    cases r with
    | nil => rfl
    | cons c r => simp [digits, hr c rfl]
  | cons c ds ih =>
    obtain ⟨hc, hds⟩ := List.forall_mem_cons.1 hds
    obtain ⟨htake, hdrop⟩ := Prod.mk.inj (ih hds)
    simp [digits, hc, htake, hdrop]

theorem wholePart_append_stop (hw : Leading ws) (hr : ∀ c ∈ r.head?, c.isDigit = false) :
    wholePart (ws ++ r) = some (ws, r) := by
  rw [wholePart, digits_append_stop hw.digits hr]
  split
  · next h => exact absurd (Prod.mk.inj h).1 hw.nonempty
  · next c cs _ h =>
    have hzero := (Prod.mk.inj h).1
    have hlength := hw.plain (hzero ▸ rfl)
    rw [hzero] at hlength
    simp at hlength
  · rfl

theorem digits1_append_stop (hne : ds ≠ []) (hds : AllDigits ds)
    (hr : ∀ c ∈ r.head?, c.isDigit = false) : digits1 (ds ++ r) = some (ds, r) := by
  rw [digits1, digits_append_stop hds hr]
  cases ds with
  | nil => exact absurd rfl hne
  | cons c ds => rfl

/-- Digits, a point and digits are a numeral. -/
theorem unsignedNumeral_point (hw : Leading ws) (hne : fs ≠ []) (hf : AllDigits fs) :
    unsignedNumeral negative (ws ++ '.' :: fs) = some (⟨negative, ws, fs, none⟩, []) := by
  have hfraction : fractionPart ('.' :: fs) = some (fs, []) := by
    have := digits1_append_stop (r := []) hne hf (by simp)
    rwa [List.append_nil] at this
  exact unsignedNumeral_eq_some.2
    ⟨ws, fs, none, _, [], wholePart_append_stop hw (by simp), hfraction, rfl, rfl⟩

/-- The digits behind the point, if there are any, with the point. -/
def pointed (fs : List Char) : List Char := if fs = [] then [] else '.' :: fs

/-- Digits, more behind a point or none, and a signed exponent are a numeral. -/
theorem unsignedNumeral_scientific {below : Bool} (hw : Leading ws) (hf : AllDigits fs)
    (hne : es ≠ []) (he : AllDigits es) :
    unsignedNumeral negative (ws ++ (pointed fs ++ 'e' :: (if below then '-' else '+') :: es))
      = some (⟨negative, ws, fs, some (below, es)⟩, []) := by
  have hstop : ∀ c ∈ (pointed fs ++ 'e' :: (if below then '-' else '+') :: es).head?,
      c.isDigit = false := by
    unfold pointed
    split <;> simp
  have hfraction : fractionPart (pointed fs ++ 'e' :: (if below then '-' else '+') :: es)
      = some (fs, 'e' :: (if below then '-' else '+') :: es) := by
    unfold pointed
    split
    · next h => rw [h]; rfl
    · next h => exact digits1_append_stop h hf (by simp)
  have hexponent : exponentPart ('e' :: (if below then '-' else '+') :: es)
      = some (some (below, es), []) := by
    have hes := digits1_append_stop (r := []) hne he (by simp)
    rw [List.append_nil] at hes
    cases below <;> simp [exponentPart, hes]
  exact unsignedNumeral_eq_some.2
    ⟨ws, fs, _, _, _, wholePart_append_stop hw hstop, hfraction, hexponent, rfl⟩

/-- With the sign in front it still is. -/
theorem numeral_signed {n : Numeral} {c : Char} (hc : c.isDigit = true)
    (h : unsignedNumeral negative (c :: cs) = some (n, r)) :
    numeral ((if negative then "-" else "").toList ++ c :: cs) = some (n, r) := by
  cases negative with
  | true => exact h
  | false =>
    have hminus : c ≠ '-' := by
      rintro rfl
      cases hc
    exact (numeral_of_unsigned (by simp [hminus])).trans h

end Json.Source

/-! ## The layouts of a double -/

namespace Decimal

open Json.Source

variable {d : Decimal}

/-- The first digits of a positive number can stand before a point. -/
theorem leading_take {n k : Nat} (hn : 0 < n) (hk : 0 < k) :
    Leading ((Nat.toDigits 10 n).take k) where
  digits _ hc := allDigits_toDigits n _ (List.mem_of_mem_take hc)
  nonempty h := by
    rw [List.take_eq_nil_iff] at h
    exact h.elim (Nat.ne_of_gt hk) Nat.toDigits_ne_nil
  plain h := by
    rw [List.head?_take, if_neg (Nat.ne_of_gt hk)] at h
    exact absurd h (toDigits_head hn)

theorem allDigits_replicate (n : Nat) : AllDigits (List.replicate n '0') := by
  intro c hc
  rw [(List.mem_replicate.1 hc).2]
  rfl

/-- A positional number has digits on both sides of a point, and before it no more than its size
asks for. -/
theorem positional_text (hd : d.digits = 0 → d.exponent = 0) : ∃ ws fs,
    (d.positional ".0").toList = ws ++ '.' :: fs ∧ Leading ws ∧ fs ≠ [] ∧ AllDigits fs ∧
      (ws.length : Int) ≤ max 1 (d.leadingExponent + 1) := by
  have hlength : 0 < (Nat.toDigits 10 d.digits).length := Nat.length_toDigits_pos
  have hleading : d.leadingExponent = d.exponent + ((Nat.toDigits 10 d.digits).length - 1 : Nat) :=
    rfl
  unfold positional
  dsimp only
  by_cases he : 0 ≤ d.exponent
  · rw [if_pos he]
    refine ⟨Nat.toDigits 10 d.digits ++ List.replicate d.exponent.toNat '0', ['0'],
      by simp [zeros], ⟨?_, ?_, fun h => ?_⟩, by simp, allDigits_replicate 1, ?_⟩
    · exact List.forall_mem_append.2 ⟨allDigits_toDigits _, allDigits_replicate _⟩
    · simp [Nat.toDigits_ne_nil]
    · rcases Nat.eq_zero_or_pos d.digits with h0 | hn
      · rw [hd h0, h0]
        rfl
      · rw [List.head?_append, Option.or_of_isSome (List.isSome_head?.2 Nat.toDigits_ne_nil)] at h
        exact absurd h (toDigits_head hn)
    · rw [List.length_append, List.length_replicate]
      omega
  · rw [if_neg he]
    have hn : 0 < d.digits := Nat.pos_of_ne_zero fun h0 => he (Int.le_of_eq (hd h0).symm)
    by_cases hp : (-d.exponent).toNat < (Nat.toDigits 10 d.digits).length
    · rw [if_pos hp]
      refine ⟨_, (Nat.toDigits 10 d.digits).drop ((Nat.toDigits 10 d.digits).length
        - (-d.exponent).toNat), ?_, leading_take hn (Nat.sub_pos_of_lt hp), ?_, ?_, ?_⟩
      · simp
      · rw [ne_eq, List.drop_eq_nil_iff]
        omega
      · exact fun c hc => allDigits_toDigits _ c (List.mem_of_mem_drop hc)
      · rw [List.length_take]
        omega
    · rw [if_neg hp]
      refine ⟨['0'], List.replicate ((-d.exponent).toNat - (Nat.toDigits 10 d.digits).length) '0'
        ++ Nat.toDigits 10 d.digits, by simp [zeros],
        ⟨allDigits_replicate 1, by simp, fun _ => rfl⟩, by simp [Nat.toDigits_ne_nil], ?_, by rw [List.length_singleton]; omega⟩
      exact List.forall_mem_append.2 ⟨allDigits_replicate _, allDigits_toDigits _⟩

/-- A scientific number has its first digit, the others behind a point, and the exponent. -/
theorem scientific_text (d : Decimal) : ∃ c fs, Nat.toDigits 10 d.digits = c :: fs ∧
    d.scientific.toList = [c] ++ (pointed fs ++ 'e' ::
      (if decide (d.leadingExponent < 0) then '-' else '+') ::
        Nat.toDigits 10 d.leadingExponent.natAbs) := by
  cases hcs : Nat.toDigits 10 d.digits with
  | nil => exact absurd hcs Nat.toDigits_ne_nil
  | cons c fs =>
    refine ⟨c, fs, rfl, ?_⟩
    have hfraction : (if (c :: fs).length ≤ 1 then "" else "." ++ String.ofList ((c :: fs).drop 1)
        ).toList = pointed fs := by
      cases fs <;> simp [pointed]
    have hsign : (if d.leadingExponent < 0 then "-" else "+").toList
        = [if decide (d.leadingExponent < 0) then '-' else '+'] := by
      by_cases h : d.leadingExponent < 0 <;> simp [h]
    simp only [scientific, hcs, String.toList_append, hfraction, hsign]
    simp

end Decimal

end AgentScheduler
