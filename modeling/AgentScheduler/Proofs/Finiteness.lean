/-
Which doubles are finite. A ratio up to the largest finite double is rounded to
a finite one (`isFinite_ofRatio_of_le`), so integers of 64 bits and what is
divided by one or more stay finite; a product is tested for the infinities. So
every number that a numeral means is a proper one (`Numeral.number?_proper`).
-/
import Mathlib.Algebra.Group.Nat.Defs
import AgentScheduler.Proofs.Numerals

namespace AgentScheduler

theorem roundHalfEven_le {num den m : Nat} (hden : 0 < den) (h : num ≤ den * m) :
    roundHalfEven num den ≤ m := by
  have hq : num / den ≤ m := Nat.div_le_of_le_mul h
  unfold roundHalfEven
  dsimp only
  split
  · next hup =>
    rcases Nat.lt_or_eq_of_le hq with hlt | heq
    · exact hlt
    -- No ratio that is rounded up reaches its bound.
    · have hdiv := Nat.div_add_mod num den
      rw [heq] at hdiv
      omega
  · exact hq

theorem le_roundHalfEven (num den : Nat) : num / den ≤ roundHalfEven num den := by
  unfold roundHalfEven
  dsimp only
  split <;> omega

namespace Binary64

variable {x y : Binary64} {num den k n : Nat} {negative : Bool}

theorem isFinite_iff : x.isFinite = true ↔ x.exponentField < 2047 := by
  have : x.exponentField < 2048 := Nat.mod_lt _ (by decide)
  rw [isFinite, bne_iff_ne]
  omega

theorem not_isNaN_of_isFinite (h : x.isFinite = true) : x.isNaN = false := by
  have hne : (x.exponentField == 2047) = false := by simpa [isFinite] using h
  rw [isNaN, hne, Bool.false_and]

theorem not_isInfinite_of_isFinite (h : x.isFinite = true) : x.isInfinite = false := by
  have hne : (x.exponentField == 2047) = false := by simpa [isFinite] using h
  rw [isInfinite, hne, Bool.false_and]

/-! ## Exponents -/

theorem bits_ofMagnitudeWord {word : Nat} (h : word ≤ infinityWord) :
    (ofMagnitudeWord negative word).bits.toNat = if negative then signBit + word else word := by
  unfold infinityWord at h
  refine Nat.mod_eq_of_lt ?_
  unfold signBit
  split <;> omega

theorem exponentField_ofMagnitudeWord {word : Nat} (h : word ≤ infinityWord) :
    (ofMagnitudeWord negative word).exponentField = word / exponentStep := by
  rw [exponentField, bits_ofMagnitudeWord h]
  unfold infinityWord at h
  unfold exponentStep signBit
  split <;> omega

/-! ## Rounded ratios -/

/-- The largest finite double, counted in least positive doubles. -/
def largest : Nat := (2 ^ 53 - 1) * 2 ^ 2045

theorem magnitude_le_of_unit_le (h : x.unit ≤ k) : x.magnitude ≤ (2 ^ 53 - 1) * 2 ^ k := by
  have hfraction : x.fraction < exponentStep := Nat.mod_lt _ (by decide)
  have hsig : x.significand ≤ 2 ^ 53 - 1 := by
    unfold exponentStep at hfraction
    unfold significand exponentStep
    split <;> omega
  exact Nat.mul_le_mul hsig (Nat.pow_le_pow_right (by decide) h)

theorem magnitude_le (h : x.isFinite = true) : x.magnitude ≤ largest := by
  have hunit : x.unit ≤ 2045 := by
    have := isFinite_iff.1 h
    unfold unit
    omega
  unfold largest
  exact magnitude_le_of_unit_le (k := 2045) hunit

theorem le_magnitude (h : 0 < x.exponentField) (hk : k < x.exponentField + 52) :
    2 ^ k ≤ x.magnitude := by
  have hsig : 2 ^ 52 ≤ x.significand := by
    rw [significand, if_neg (Nat.ne_of_gt h)]
    exact Nat.le_add_right _ _
  have hexponent : k ≤ 52 + (x.exponentField - 1) := by omega
  refine Nat.le_trans (Nat.pow_le_pow_right (by decide) hexponent) ?_
  rw [Nat.pow_add]
  exact Nat.mul_le_mul_right _ hsig

theorem roundWord_lt (hden : 0 < den) (h : num ≤ den * ((2 ^ 53 - 1) * 2 ^ k)) :
    roundWord num den < (k + 2) * exponentStep := by
  generalize hshift : Nat.log2 (num / den) - 52 = shift
  have hq : num / den < 2 ^ (shift + 53) :=
    Nat.lt_of_lt_of_le Nat.lt_log2_self (Nat.pow_le_pow_right (by decide) (by omega))
  have hnum : num ≤ den * 2 ^ shift * 2 ^ 53 := by
    rw [Nat.mul_assoc, ← Nat.pow_add, Nat.mul_comm]
    exact Nat.le_of_lt ((Nat.div_lt_iff_lt_mul hden).1 hq)
  have hscaled : 0 < den * 2 ^ shift := Nat.mul_pos hden (Nat.two_pow_pos _)
  have hk : shift ≤ k := by
    have hlt : num / den < 2 ^ (k + 53) := by
      refine Nat.lt_of_le_of_lt (Nat.div_le_of_le_mul h) ?_
      rw [Nat.add_comm, Nat.pow_add]
      exact Nat.mul_lt_mul_of_pos_right (by decide) (Nat.two_pow_pos _)
    rcases Nat.eq_zero_or_pos (num / den) with h0 | hpos
    · have : Nat.log2 (num / den) = 0 := by rw [h0]; rfl
      omega
    · have := (Nat.log2_lt (Nat.ne_of_gt hpos)).2 hlt
      omega
  have hword : roundWord num den ≤ shift * exponentStep + roundHalfEven num (den * 2 ^ shift) := by
    rw [← hshift]
    exact Nat.min_le_right _ _
  unfold exponentStep at hword ⊢
  rcases Nat.lt_or_eq_of_le hk with hlt | rfl
  · have hround : roundHalfEven num (den * 2 ^ shift) ≤ 2 ^ 53 := roundHalfEven_le hscaled hnum
    omega
  · have hround : roundHalfEven num (den * 2 ^ shift) ≤ 2 ^ 53 - 1 :=
      roundHalfEven_le hscaled (by rw [Nat.mul_assoc, Nat.mul_comm (2 ^ shift)]; exact h)
    omega

theorem le_roundWord {e : Nat} (he : e = k + 52) (hk : (k + 1) * exponentStep ≤ infinityWord)
    (hden : 0 < den) (h : den * 2 ^ e ≤ num) : (k + 1) * exponentStep ≤ roundWord num den := by
  subst he
  have hq : 2 ^ (k + 52) ≤ num / den := (Nat.le_div_iff_mul_le hden).2 (Nat.mul_comm .. ▸ h)
  have hpos : num / den ≠ 0 := Nat.ne_of_gt (Nat.lt_of_lt_of_le (Nat.two_pow_pos _) hq)
  have hlog : k + 52 ≤ Nat.log2 (num / den) := (Nat.le_log2 hpos).2 hq
  generalize hshift : Nat.log2 (num / den) - 52 = shift
  have hround : 2 ^ 52 ≤ roundHalfEven num (den * 2 ^ shift) := by
    refine Nat.le_trans ?_ (le_roundHalfEven _ _)
    rw [← Nat.div_div_eq_div_mul, Nat.le_div_iff_mul_le (Nat.two_pow_pos _), ← Nat.pow_add]
    exact (Nat.le_log2 hpos).1 (by omega)
  have hsum : (k + 1) * exponentStep
      ≤ shift * exponentStep + roundHalfEven num (den * 2 ^ shift) := by
    unfold exponentStep
    omega
  rw [← hshift] at hsum
  exact Nat.le_min.2 ⟨hk, hsum⟩

theorem exponentField_ofRatio (negative : Bool) (num den : Nat) :
    (ofRatio negative num den).exponentField = roundWord num den / exponentStep :=
  exponentField_ofMagnitudeWord (Nat.min_le_left _ _)

/-- A ratio up to the largest finite double is rounded to a finite one. -/
theorem isFinite_ofRatio_of_le (hden : 0 < den) (h : num ≤ den * largest) :
    (ofRatio negative num den).isFinite = true := by
  unfold largest at h
  have hword : roundWord num den < 2047 * exponentStep := roundWord_lt hden h
  rw [isFinite_iff, exponentField_ofRatio]
  exact Nat.div_lt_of_lt_mul (Nat.mul_comm .. ▸ hword)

/-- A ratio is rounded to a finite double or to an infinity. -/
theorem isFinite_ofRatio (h : (ofRatio negative num den).isInfinite = false) :
    (ofRatio negative num den).isFinite = true := by
  have hword : roundWord num den ≤ infinityWord := Nat.min_le_left _ _
  have hbits : (ofRatio negative num den).bits.toNat = _ := bits_ofMagnitudeWord hword
  by_cases hinf : roundWord num den = infinityWord
  · have hfraction : (ofRatio negative num den).fraction = 0 := by
      rw [fraction, hbits, hinf]
      cases negative <;> rfl
    have hexponent : (ofRatio negative num den).exponentField = 2047 := by
      rw [exponentField_ofRatio, hinf]
      rfl
    simp [isInfinite, hfraction, hexponent] at h
  · rw [isFinite_iff, exponentField_ofRatio]
    unfold infinityWord at hword hinf
    unfold exponentStep
    omega

/-! ## Integers -/

theorem one_eq : one = 2 ^ 1074 := by decide +kernel

theorem one_pos : 0 < one := by decide +kernel

/-- Whole numbers up to ten to the power of 308 are doubles. -/
theorem isFinite_ofWhole (h : n ≤ Decimal.tenTo 308) :
    (ofRatio negative (n * one) 1).isFinite = true := by
  have hbound : Decimal.tenTo 308 * one ≤ 1 * largest := by decide +kernel
  exact isFinite_ofRatio_of_le Nat.one_pos (Nat.le_trans (Nat.mul_le_mul_right _ h) hbound)

theorem isFinite_ofNat (h : n ≤ 0xffffffffffffffff) : (ofNat n).isFinite = true := by
  have hbound : 0xffffffffffffffff ≤ Decimal.tenTo 308 := by decide +kernel
  exact isFinite_ofWhole (Nat.le_trans h hbound)

theorem isFinite_ofInt {i : Int} (h : (Number.int i).Proper) : (ofInt i).isFinite = true := by
  have hbound : 0xffffffffffffffff ≤ Decimal.tenTo 308 := by decide +kernel
  obtain ⟨hlow, hhigh⟩ := h
  exact isFinite_ofWhole (Nat.le_trans (by omega) hbound)

/-- A positive whole number is not rounded below one. -/
theorem one_le_ofNat (h : 0 < n) : one ≤ (ofNat n).magnitude := by
  have hword : 1023 * exponentStep ≤ roundWord (n * one) 1 := by
    have hone : 1 * 2 ^ 1074 ≤ n * one := by
      rw [← one_eq]
      exact Nat.mul_le_mul_right one h
    exact le_roundWord (k := 1022) (e := 1074) rfl (by decide) Nat.one_pos hone
  have hexponent : 1023 ≤ (ofNat n).exponentField := by
    rw [ofNat, exponentField_ofRatio]
    exact (Nat.le_div_iff_mul_le (by decide)).2 hword
  rw [one_eq]
  exact le_magnitude (k := 1074) (by omega) (by omega)

/-! ## Arithmetic -/

theorem exponentField_neg (x : Binary64) : x.neg.exponentField = x.exponentField := by
  have hbits : x.neg.bits.toNat = x.bits.toNat ^^^ 2 ^ 63 := UInt64.toNat_xor ..
  have hdiv : (x.bits.toNat ^^^ 2 ^ 63) / 2 ^ 52 % 2 ^ 11 = x.bits.toNat / 2 ^ 52 % 2 ^ 11 := by
    rw [Nat.xor_div_two_pow, Nat.xor_mod_two_pow]
    exact Nat.xor_zero _
  rw [exponentField, hbits]
  exact hdiv

theorem isFinite_neg (h : x.isFinite = true) : x.neg.isFinite = true := by
  rw [isFinite_iff] at h ⊢
  rwa [exponentField_neg]

theorem isFinite_zero (negative : Bool) : (zero negative).isFinite = true := by
  cases negative <;> rfl

/-- A product of finite doubles that is no infinity is finite. -/
theorem isFinite_mul (hx : x.isFinite = true) (hy : y.isFinite = true)
    (h : (x.mul y).isInfinite = false) : (x.mul y).isFinite = true := by
  have heq : x.mul y = ofRatio (x.isNegative != y.isNegative) (x.magnitude * y.magnitude) one := by
    simp [mul, not_isNaN_of_isFinite, not_isInfinite_of_isFinite, hx, hy]
  rw [heq] at h ⊢
  exact isFinite_ofRatio h

/-- A finite double divided by one or more is finite. -/
theorem isFinite_div (hx : x.isFinite = true) (hy : y.isFinite = true)
    (hone : one ≤ y.magnitude) : (x.div y).isFinite = true := by
  have hpos : 0 < y.magnitude := Nat.lt_of_lt_of_le one_pos hone
  have hzero : y.isZero = false := by
    have : (y.magnitude == 0) = false := by simpa using Nat.ne_of_gt hpos
    rw [isZero, this, Bool.and_false]
  have heq : x.div y = ofRatio (x.isNegative != y.isNegative) (x.magnitude * one) y.magnitude := by
    simp [div, not_isNaN_of_isFinite, not_isInfinite_of_isFinite, hx, hy, hzero]
  rw [heq]
  refine isFinite_ofRatio_of_le hpos ?_
  calc x.magnitude * one ≤ largest * y.magnitude := Nat.mul_le_mul (magnitude_le hx) hone
    _ = y.magnitude * largest := Nat.mul_comm _ _

end Binary64

namespace Json.Numeral

open Binary64

variable {x y : Binary64}

theorem tenTo_le {m n : Nat} (h : m ≤ n) : Decimal.tenTo m ≤ Decimal.tenTo n :=
  Nat.pow_le_pow_right (by decide) h

theorem isFinite_powerOfTen {n : Nat} (h : n ≤ 308) : (powerOfTen n).isFinite = true :=
  isFinite_ofWhole (tenTo_le h)

theorem one_le_powerOfTen (n : Nat) : one ≤ (powerOfTen n).magnitude :=
  one_le_ofNat (Nat.pow_pos (by decide))

/-- A finite double that is scaled is finite, if it is anything. -/
theorem isFinite_of_scale? {e : Int} (hx : x.isFinite = true) (h : scale? x e = some y) :
    y.isFinite = true := by
  have hdiv {x : Binary64} {n : Nat} (hx : x.isFinite = true) (hn : n ≤ 308) :
      (x.div (powerOfTen n)).isFinite = true :=
    isFinite_div hx (isFinite_powerOfTen hn) (one_le_powerOfTen n)
  unfold scale? at h
  split at h
  · next hsmall =>
    split at h
    · dsimp only at h
      split at h
      · cases h
      · next hinf =>
        obtain rfl := Option.some.inj h
        exact isFinite_mul hx (isFinite_powerOfTen hsmall) (Bool.not_eq_true _ ▸ hinf)
    · exact Option.some.inj h ▸ hdiv hx hsmall
  · split at h
    · exact Option.some.inj h ▸ hx
    · split at h
      · cases h
      · split at h
        · exact Option.some.inj h ▸ hdiv (hdiv hx (Nat.le_refl _)) (by omega)
        · exact Option.some.inj h ▸ isFinite_zero false

theorem significand_le (cs : List Char) {n : Nat} (h : n ≤ 0xffffffffffffffff) :
    (significand n cs).1 ≤ 0xffffffffffffffff := by
  induction cs generalizing n with
  | nil => exact h
  | cons c cs ih =>
    unfold significand
    dsimp only
    split
    · next hnext => exact ih hnext
    · exact h

theorem ofWhole_proper (negative : Bool) {w : Nat} (h : w ≤ 0xffffffffffffffff) :
    (ofWhole negative w).Proper := by
  have hfinite : (ofNat w).isFinite = true := isFinite_ofNat h
  unfold ofWhole
  split
  · exact ⟨by omega, by omega⟩
  · split
    · exact isFinite_neg hfinite
    · exact ⟨by omega, by omega⟩

/-- Every numeral that means a number means a proper one. -/
theorem number?_proper {n : Numeral} {m : Number} (h : n.number? = some m) : m.Proper := by
  have hparts {negative : Bool} {digits : Nat} {e : Int} (hdigits : digits ≤ 0xffffffffffffffff)
      (h : ofParts? negative digits e = some m) : m.Proper := by
    obtain ⟨x, hx, hm⟩ := Option.bind_eq_some_iff.1 h
    obtain rfl := Option.some.inj hm
    have hfinite : x.isFinite = true := isFinite_of_scale? (isFinite_ofNat hdigits) hx
    cases negative with
    | false => exact hfinite
    | true => exact isFinite_neg hfinite
  have hwhole : (significand 0 n.whole).1 ≤ 0xffffffffffffffff := significand_le _ (by decide)
  have hdigits := significand_le n.fraction hwhole
  unfold number? at h
  dsimp only at h
  split at h
  · split at h
    · obtain rfl := Option.some.inj h
      exact ofWhole_proper n.negative hwhole
    · exact hparts hwhole h
  · split at h
    · exact hparts hdigits h
    · split at h
      · exact hparts hdigits h
      · split at h
        · cases h
        · obtain rfl := Option.some.inj h
          exact isFinite_zero n.negative

end Json.Numeral

end AgentScheduler
