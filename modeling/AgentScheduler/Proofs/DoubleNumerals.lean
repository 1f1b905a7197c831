/-
What the JSON texts of finite doubles mean. None of them is an overflow
(`numeral_layOut`): a positional text is too short for that, and what a
scientific one means is off from the double by at most half a place
(`toRat_shortest_le`) and two roundings (`magnitude_ofNat_le`). Only next to the
largest double that is too much, and those few are tried out.
-/
import AgentScheduler.Proofs.DecimalTexts
import AgentScheduler.Proofs.Finiteness
import Mathlib.Algebra.Order.Field.Power
import Mathlib.Algebra.Order.Field.Rat
import Mathlib.Tactic.Ring

namespace AgentScheduler

namespace Decimal

open Json.Source

variable {d : Decimal}

/-! ## How large a shortest decimal is -/

/-- The number that a decimal stands for. -/
def toRat (d : Decimal) : ℚ := d.digits * 10 ^ d.exponent

theorem toRat_nonneg (d : Decimal) : 0 ≤ d.toRat := by
  exact mul_nonneg (Nat.cast_nonneg _) (zpow_nonneg (by norm_num) _)

theorem cast_tenTo (n : Nat) : ((tenTo n : Nat) : ℚ) = 10 ^ n := by
  unfold tenTo
  exact_mod_cast rfl

/-- A power of ten as a ratio of two whole ones. -/
theorem ten_zpow (e : Int) : (10 : ℚ) ^ e = tenTo e.toNat / tenTo (-e).toNat := by
  rw [cast_tenTo, cast_tenTo]
  rcases Int.le_total 0 e with h | h
  · obtain ⟨n, rfl⟩ := Int.eq_ofNat_of_zero_le h
    simp
  · obtain ⟨n, hn⟩ := Int.eq_ofNat_of_zero_le (Int.neg_nonneg_of_nonpos h)
    obtain rfl : e = -n := by omega
    simp

/-- A positive decimal is at least as large as its first digit's power of ten. -/
theorem zpow_leadingExponent_le (d : Decimal) (hd : 0 < d.digits) :
    (10 : ℚ) ^ d.leadingExponent ≤ d.toRat := by
  unfold leadingExponent digitCount
  generalize hn : (Nat.toDigits 10 d.digits).length - 1 = n
  have hdigits : 10 ^ n ≤ d.digits := by
    rcases Nat.eq_zero_or_pos n with rfl | hpos
    · exact hd
    · refine Nat.not_lt.1 fun hlt => ?_
      have := (Nat.length_toDigits_le_iff (by decide) hpos).2 hlt
      omega
  calc (10 : ℚ) ^ (d.exponent + n)
      = 10 ^ n * 10 ^ d.exponent := by
        rw [zpow_add₀ (by norm_num), zpow_natCast]
        ring
    _ ≤ d.toRat :=
        mul_le_mul_of_nonneg_right (by exact_mod_cast hdigits) (zpow_nonneg (by norm_num) _)

/-- Without its trailing zeros a number is no larger. -/
theorem toRat_trim_le (d : Decimal) : d.trim.toRat ≤ d.toRat := by
  unfold trim
  dsimp only
  split
  · have hzero : (⟨0, 0⟩ : Decimal).toRat = 0 := by simp [toRat]
    exact hzero ▸ d.toRat_nonneg
  · generalize ((Nat.toDigits 10 d.digits).reverse.takeWhile (· == '0')).length = n
    have hdiv : ((d.digits / tenTo n : Nat) : ℚ) * 10 ^ n ≤ d.digits := by
      exact_mod_cast Nat.div_mul_le_self d.digits (tenTo n)
    calc ((d.digits / tenTo n : Nat) : ℚ) * 10 ^ (d.exponent + n)
        = (d.digits / tenTo n : Nat) * 10 ^ n * 10 ^ d.exponent := by
          rw [zpow_add₀ (by norm_num), zpow_natCast]
          ring
      _ ≤ d.toRat := mul_le_mul_of_nonneg_right hdiv (by positivity)

/-- Trailing zeros are fewer than the digits of a positive number. -/
theorem tenTo_zeros_le {n : Nat} (hn : 0 < n) :
    tenTo ((Nat.toDigits 10 n).reverse.takeWhile (· == '0')).length ≤ n := by
  generalize hz : ((Nat.toDigits 10 n).reverse.takeWhile (· == '0')).length = z
  rcases Nat.eq_zero_or_pos z with rfl | hpos
  · exact hn
  · refine Nat.not_lt.1 fun hlt => ?_
    have hall := (Nat.length_toDigits_le_iff (by decide) hpos).2 hlt
    rw [← hz, ← List.length_reverse] at hall
    -- All digits would be zeros, the first one too.
    have hself : (Nat.toDigits 10 n).reverse.takeWhile (· == '0') = (Nat.toDigits 10 n).reverse :=
      (List.takeWhile_prefix _).eq_of_length_le hall
    cases hd : Nat.toDigits 10 n with
    | nil => exact Nat.toDigits_ne_nil hd
    | cons c cs =>
      have hc : c ∈ (Nat.toDigits 10 n).reverse.takeWhile (· == '0') := by
        rw [hself, List.mem_reverse, hd]
        exact List.mem_cons_self
      have hzero := List.all_eq_true.1 List.all_takeWhile c hc
      exact toDigits_head hn (by rw [hd, List.head?_cons, eq_of_beq hzero])

/-- A number without trailing zeros that has no digits left is written without an exponent. -/
theorem exponent_eq_zero_of_trim (h : d.trim.digits = 0) : d.trim.exponent = 0 := by
  unfold trim at h ⊢
  dsimp only at h ⊢
  split at h
  · next hd => rw [if_pos hd]
  · next hd =>
    exact absurd h (Nat.ne_of_gt (Nat.div_pos (tenTo_zeros_le (Nat.pos_of_ne_zero hd))
      (Nat.pow_pos (by decide))))

variable {i : Interval} {tie : Tie} {x : Binary64} {n : Nat} {e : Int}

/-- A hit on a grid is in the interval. -/
theorem le_high_of_nearestOnGrid? (h : i.nearestOnGrid? tie e = some n) :
    n * (4 * Binary64.one * tenTo e.toNat) ≤ i.high * tenTo (-e).toNat := by
  have hhit {m : Nat} (hm : (if i.closed then
        decide (i.low * tenTo (-e).toNat ≤ m * (4 * Binary64.one * tenTo e.toNat)) &&
          decide (m * (4 * Binary64.one * tenTo e.toNat) ≤ i.high * tenTo (-e).toNat)
      else decide (i.low * tenTo (-e).toNat < m * (4 * Binary64.one * tenTo e.toNat)) &&
          decide (m * (4 * Binary64.one * tenTo e.toNat) < i.high * tenTo (-e).toNat)) = true) :
      m * (4 * Binary64.one * tenTo e.toNat) ≤ i.high * tenTo (-e).toNat := by
    split at hm
    · exact of_decide_eq_true (Bool.and_eq_true_iff.1 hm).2
    · exact Nat.le_of_lt (of_decide_eq_true (Bool.and_eq_true_iff.1 hm).2)
  unfold Interval.nearestOnGrid? at h
  dsimp only at h
  split at h
  · cases h
  · next hbelow _ => exact Option.some.inj h ▸ hhit hbelow
  · next _ habove => exact Option.some.inj h ▸ hhit habove
  · next hbelow habove =>
    split at h
    · exact Option.some.inj h ▸ hhit hbelow
    split at h
    · exact Option.some.inj h ▸ hhit habove
    split at h
    · exact Option.some.inj h ▸ hhit habove
    · split at h
      · exact Option.some.inj h ▸ hhit hbelow
      · exact Option.some.inj h ▸ hhit habove

theorem toRat_le_high {n left : Nat} {first : Int} (h : i.shortest? tie first n left = some d) :
    d.toRat * (4 * Binary64.one : Nat) ≤ i.high := by
  induction left generalizing n with
  | zero => cases h
  | succ left ih =>
    unfold Interval.shortest? at h
    dsimp only at h
    split at h
    · next m hm =>
      have hgrid := le_high_of_nearestOnGrid? hm
      rw [← Option.some.inj h]
      generalize first - ((n - 1 : Nat) : Int) = e at hgrid ⊢
      have hup : (0 : ℚ) < tenTo (-e).toNat := by
        exact_mod_cast (Nat.pow_pos (by decide) : 0 < tenTo (-e).toNat)
      have hone : (0 : ℚ) ≤ (4 * Binary64.one : Nat) := Nat.cast_nonneg _
      have hcast : (m : ℚ) * ((4 * Binary64.one : Nat) * tenTo e.toNat)
          ≤ i.high * tenTo (-e).toNat := by
        exact_mod_cast hgrid
      calc (trim ⟨m, e⟩).toRat * (4 * Binary64.one : Nat)
          ≤ (⟨m, e⟩ : Decimal).toRat * (4 * Binary64.one : Nat) :=
            mul_le_mul_of_nonneg_right (toRat_trim_le _) hone
        _ = m * ((4 * Binary64.one : Nat) * tenTo e.toNat) / tenTo (-e).toNat := by
            rw [toRat, ten_zpow]
            ring
        _ ≤ i.high := (div_le_iff₀ hup).2 hcast
    · exact ih h

/-- A shortest decimal is at most half a place above its double. -/
theorem toRat_shortest_le (tie : Tie) (x : Binary64) :
    (shortest tie x).toRat * (4 * Binary64.one : Nat)
      ≤ (4 * x.magnitude + 2 * x.lastPlace : Nat) := by
  have hzero : (⟨0, 0⟩ : Decimal).toRat * (4 * Binary64.one : Nat)
      ≤ (4 * x.magnitude + 2 * x.lastPlace : Nat) := by
    rw [toRat, Nat.cast_zero, zero_mul, zero_mul]
    exact Nat.cast_nonneg _
  unfold shortest
  split
  · exact hzero
  · cases h : (Interval.of x).shortest? tie (ratioExponent x.magnitude Binary64.one) 1 17 with
    | none => exact hzero
    | some d => exact toRat_le_high h

/-- A shortest decimal without digits is written without an exponent. -/
theorem exponent_eq_zero_of_shortest (h : (shortest tie x).digits = 0) :
    (shortest tie x).exponent = 0 := by
  have htrim {n left : Nat} {first : Int} {d : Decimal}
      (hd : (Interval.of x).shortest? tie first n left = some d) :
      ∃ d', d = trim d' := by
    induction left generalizing n with
    | zero => cases hd
    | succ left ih =>
      unfold Interval.shortest? at hd
      dsimp only at hd
      split at hd
      · exact ⟨_, (Option.some.inj hd).symm⟩
      · exact ih hd
  unfold shortest at h ⊢
  split at h
  · next hx => rw [if_pos hx]
  · next hx =>
    rw [if_neg hx]
    cases hd : (Interval.of x).shortest? tie (ratioExponent x.magnitude Binary64.one) 1 17 with
    | none => rfl
    | some d =>
      obtain ⟨d', rfl⟩ := htrim hd
      rw [hd] at h
      exact exponent_eq_zero_of_trim h

end Decimal

/-! ## Products of two rounded numbers -/

theorem two_mul_roundHalfEven_le (num den : Nat) :
    2 * (den * roundHalfEven num den) ≤ 2 * num + den := by
  have hdiv := Nat.div_add_mod num den
  unfold roundHalfEven
  dsimp only
  split
  · rw [Nat.mul_add]
    omega
  · omega

namespace Binary64

variable {x : Binary64} {n : Nat}

/-- The double whose word is a significand of full length and the exponent below it. -/
theorem magnitude_ofMagnitudeWord {shift sig : Nat} (hlow : 2 ^ 52 ≤ sig) (hhigh : sig ≤ 2 ^ 53)
    (hword : shift * exponentStep + sig < infinityWord) :
    (ofMagnitudeWord false (shift * exponentStep + sig)).magnitude = sig * 2 ^ shift := by
  have hexponent : (ofMagnitudeWord false (shift * exponentStep + sig)).exponentField = _ :=
    exponentField_ofMagnitudeWord (Nat.le_of_lt hword)
  have hfraction : (ofMagnitudeWord false (shift * exponentStep + sig)).fraction
      = (shift * exponentStep + sig) % exponentStep := by
    rw [fraction, bits_ofMagnitudeWord (Nat.le_of_lt hword)]
    rfl
  rcases Nat.lt_or_eq_of_le hhigh with hlt | rfl
  · have hfield : (ofMagnitudeWord false (shift * exponentStep + sig)).exponentField
        = shift + 1 := by
      rw [hexponent]
      unfold exponentStep
      omega
    have hrest : (ofMagnitudeWord false (shift * exponentStep + sig)).fraction = sig - 2 ^ 52 := by
      rw [hfraction]
      unfold exponentStep
      omega
    have hsig : (ofMagnitudeWord false (shift * exponentStep + sig)).significand = sig := by
      rw [significand, hfield, hrest, if_neg (Nat.succ_ne_zero _)]
      unfold exponentStep
      omega
    rw [magnitude, lastPlace, unit, hfield, hsig]
    rfl
  · have hfield : (ofMagnitudeWord false (shift * exponentStep + 2 ^ 53)).exponentField
        = shift + 2 := by
      rw [hexponent]
      unfold exponentStep
      omega
    have hrest : (ofMagnitudeWord false (shift * exponentStep + 2 ^ 53)).fraction = 0 := by
      rw [hfraction]
      unfold exponentStep
      omega
    have hsig : (ofMagnitudeWord false (shift * exponentStep + 2 ^ 53)).significand = 2 ^ 52 := by
      rw [significand, hfield, hrest, if_neg (Nat.succ_ne_zero _)]
      rfl
    rw [magnitude, lastPlace, unit, hfield, hsig]
    show 2 ^ 52 * 2 ^ (shift + 1) = 2 ^ 53 * 2 ^ shift
    rw [Nat.pow_succ]
    omega

/-- A whole number is rounded up by at most one part in two to the power of 53. -/
theorem magnitude_ofNat_le (hn : 0 < n) (hfinite : (ofNat n).isFinite = true) :
    2 ^ 53 * (ofNat n).magnitude ≤ (2 ^ 53 + 1) * (n * one) := by
  have hpos : 0 < n * one := Nat.mul_pos hn one_pos
  have hunits : 2 ^ 52 ≤ one := by decide +kernel
  have hone : 2 ^ 52 ≤ n * one := Nat.le_trans hunits (Nat.le_mul_of_pos_left _ hn)
  generalize hm : n * one = m at hpos hone
  have hlog : 52 ≤ Nat.log2 m := (Nat.le_log2 (Nat.ne_of_gt hpos)).2 hone
  obtain ⟨shift, hshift⟩ : ∃ shift, Nat.log2 m = shift + 52 := ⟨Nat.log2 m - 52, by omega⟩
  have hlow : 2 ^ 52 * 2 ^ shift ≤ m := by
    rw [← Nat.pow_add, Nat.add_comm, ← hshift]
    exact Nat.log2_self_le (Nat.ne_of_gt hpos)
  have hhigh : m < 2 ^ 53 * 2 ^ shift := by
    rw [← Nat.pow_add, show 53 + shift = Nat.log2 m + 1 by omega]
    exact Nat.lt_log2_self
  have hround : roundWord m 1
      = min infinityWord (shift * exponentStep + roundHalfEven m (2 ^ shift)) := by
    rw [roundWord, Nat.div_one, hshift, Nat.add_sub_cancel, Nat.one_mul]
    rfl
  have hsiglow : 2 ^ 52 ≤ roundHalfEven m (2 ^ shift) :=
    Nat.le_trans ((Nat.le_div_iff_mul_le (Nat.two_pow_pos _)).2 hlow) (le_roundHalfEven _ _)
  have hsighigh : roundHalfEven m (2 ^ shift) ≤ 2 ^ 53 :=
    roundHalfEven_le (Nat.two_pow_pos _) (by rw [Nat.mul_comm]; exact Nat.le_of_lt hhigh)
  have hword : shift * exponentStep + roundHalfEven m (2 ^ shift) < infinityWord := by
    rw [isFinite_iff, ofNat, exponentField_ofRatio, hm, hround] at hfinite
    unfold infinityWord at hfinite ⊢
    unfold exponentStep at hfinite ⊢
    omega
  have hmagnitude : (ofNat n).magnitude = roundHalfEven m (2 ^ shift) * 2 ^ shift := by
    rw [ofNat, ofRatio, hm, hround, Nat.min_eq_right (Nat.le_of_lt hword)]
    exact magnitude_ofMagnitudeWord hsiglow hsighigh hword
  have hup := two_mul_roundHalfEven_le m (2 ^ shift)
  rw [hmagnitude]
  rw [Nat.mul_comm (2 ^ shift)] at hup
  omega

/-- The doubles that are not among the last three before infinity. -/
def BelowTop (x : Binary64) : Prop :=
  2 * x.magnitude + x.lastPlace ≤ (2 ^ 54 - 7) * 2 ^ 2045

/-- Every finite double is one of them, or one of three with either sign. -/
theorem belowTop_or (hx : x.isFinite = true) : BelowTop x ∨
    ∃ k < 3, x = ⟨.ofNat (0x7fefffffffffffff - k)⟩ ∨ x = ⟨.ofNat (0xffefffffffffffff - k)⟩ := by
  have hfield := isFinite_iff.1 hx
  have hfraction : x.fraction < exponentStep := Nat.mod_lt _ (by decide)
  have hsig : x.significand ≤ 2 ^ 53 - 1 := by
    unfold significand exponentStep at *
    split <;> omega
  have hplace : 2 * x.magnitude + x.lastPlace = (2 * x.significand + 1) * 2 ^ x.unit := by
    rw [magnitude, lastPlace]
    show 2 * (x.significand * 2 ^ x.unit) + 2 ^ x.unit = _
    rw [Nat.add_mul, Nat.one_mul, Nat.mul_assoc]
  have hunit : x.unit ≤ 2045 := by
    unfold unit
    omega
  rcases Nat.lt_or_eq_of_le hunit with hlt | heq
  · refine .inl ?_
    rw [BelowTop, hplace]
    obtain ⟨k, hk⟩ : ∃ k, 2045 = x.unit + 1 + k := ⟨2045 - (x.unit + 1), by omega⟩
    have hpow : 2 ^ 2045 = 2 ^ x.unit * 2 * 2 ^ k := by rw [hk, Nat.pow_add, Nat.pow_succ]
    rw [hpow]
    have hpos := Nat.two_pow_pos k
    generalize 2 ^ x.unit = u
    generalize 2 ^ k = t at hpos
    calc (2 * x.significand + 1) * u ≤ (2 ^ 54 - 7) * (u * 2) := by
          generalize x.significand = sig at hsig
          have : sig * u ≤ (2 ^ 53 - 1) * u := Nat.mul_le_mul_right _ hsig
          rw [Nat.add_mul, Nat.mul_assoc]
          omega
      _ ≤ (2 ^ 54 - 7) * (u * 2 * t) :=
          Nat.mul_le_mul_left _ (Nat.le_mul_of_pos_right _ hpos)
  · by_cases hs : x.significand ≤ 2 ^ 53 - 4
    · refine .inl ?_
      rw [BelowTop, hplace, heq]
      exact Nat.mul_le_mul_right _ (by omega)
    · refine .inr ?_
      have hexp : x.exponentField = 2046 := by
        unfold unit at heq
        omega
      rw [significand, hexp, if_neg (by decide)] at hs
      have hbits := x.bits.toNat_lt
      unfold exponentField at hexp
      unfold fraction at hfraction hs
      unfold exponentStep at *
      have hword (w : Nat) (hw : x.bits.toNat = w) : x = ⟨.ofNat w⟩ := by
        cases x
        congr
        rw [← hw, UInt64.ofNat_toNat]
      refine ⟨2 ^ 52 - 1 - x.bits.toNat % 0x10000000000000, by omega, ?_⟩
      rcases Nat.lt_or_ge x.bits.toNat (2 ^ 63) with hsign | hsign
      · exact .inl (hword _ (by omega))
      · exact .inr (hword _ (by omega))

end Binary64

namespace Json.Numeral

open Binary64

variable {x y : Binary64} {e : Int}

theorem not_isInfinite_mul (hx : x.isFinite = true) (hy : y.isFinite = true)
    (h : x.magnitude * y.magnitude ≤ one * largest) : (x.mul y).isInfinite = false := by
  have heq : x.mul y = ofRatio (x.isNegative != y.isNegative) (x.magnitude * y.magnitude) one := by
    simp [mul, not_isNaN_of_isFinite, not_isInfinite_of_isFinite, hx, hy]
  rw [heq]
  exact not_isInfinite_of_isFinite (isFinite_ofRatio_of_le Binary64.one_pos h)

/-- Nothing overflows that is not made larger. -/
theorem isSome_scale?_of_nonpos (hx : x.isFinite = true) (he : e ≤ 0) :
    (scale? x e).isSome = true := by
  unfold scale?
  split
  · split
    · obtain rfl : e = 0 := by omega
      have hone : (powerOfTen 0).magnitude = one := by decide +kernel
      have hproduct : (x.mul (powerOfTen 0)).isInfinite = false := by
        refine not_isInfinite_mul hx (isFinite_powerOfTen (by decide)) ?_
        rw [hone, Nat.mul_comm]
        exact Nat.mul_le_mul_left _ (magnitude_le hx)
      simp [hproduct]
    · rfl
  · split
    · rfl
    · split
      · omega
      · split <;> rfl

/-- Two factors that are rounded up by one part in two to the power of 53 each. -/
theorem product_le {m n a b u k : Nat} (hleft : 2 ^ 53 * m ≤ (2 ^ 53 + 1) * (a * u))
    (hright : 2 ^ 53 * n ≤ (2 ^ 53 + 1) * (b * u))
    (hbound : a * b * (4 * u) ≤ 2 * ((2 ^ 54 - 7) * k)) : m * n ≤ u * ((2 ^ 53 - 1) * k) := by
  have hconst : (2 ^ 53 + 1) * (2 ^ 53 + 1) * (2 * (2 ^ 54 - 7)) ≤ 2 ^ 108 * (2 ^ 53 - 1) := by
    decide
  refine Nat.le_of_mul_le_mul_left (c := 2 ^ 108) ?_ (by decide)
  calc 2 ^ 108 * (m * n) = (2 ^ 53 * m) * (2 ^ 53 * n) * 4 := by ring
    _ ≤ ((2 ^ 53 + 1) * (a * u)) * ((2 ^ 53 + 1) * (b * u)) * 4 :=
        Nat.mul_le_mul_right _ (Nat.mul_le_mul hleft hright)
    _ = (2 ^ 53 + 1) * (2 ^ 53 + 1) * u * (a * b * (4 * u)) := by ring
    _ ≤ (2 ^ 53 + 1) * (2 ^ 53 + 1) * u * (2 * ((2 ^ 54 - 7) * k)) := Nat.mul_le_mul_left _ hbound
    _ = (2 ^ 53 + 1) * (2 ^ 53 + 1) * (2 * (2 ^ 54 - 7)) * (u * k) := by ring
    _ ≤ 2 ^ 108 * (2 ^ 53 - 1) * (u * k) := Nat.mul_le_mul_right _ hconst
    _ = 2 ^ 108 * (u * ((2 ^ 53 - 1) * k)) := by ring

/-- What is at most half a place above a double has no large power of ten in it. -/
theorem le_of_scaled_le {n k : Nat} (hn : 0 < n)
    (h : n * Decimal.tenTo k * (4 * one) ≤ 2 * ((2 ^ 54 - 7) * 2 ^ 2045)) : k ≤ 308 := by
  refine Nat.not_lt.1 fun hk => ?_
  have hlarge : 2 * ((2 ^ 54 - 7) * 2 ^ 2045) < 1 * Decimal.tenTo 309 * (4 * one) := by
    decide +kernel
  have hten : 1 * Decimal.tenTo 309 ≤ n * Decimal.tenTo k := Nat.mul_le_mul hn (tenTo_le hk)
  exact absurd h (Nat.not_le.2 (Nat.lt_of_lt_of_le hlarge (Nat.mul_le_mul_right _ hten)))

/-- What is at most half a place above a double does not start at a large power of ten. -/
theorem leadingExponent_le {d : Decimal} (hx : BelowTop x)
    (hd : d.toRat * (4 * one : Nat) ≤ (4 * x.magnitude + 2 * x.lastPlace : Nat))
    (hpos : 0 < d.digits) : d.leadingExponent ≤ 308 := by
  rcases lt_or_ge d.leadingExponent 0 with hneg | hnonneg
  · omega
  obtain ⟨k, hk⟩ := Int.eq_ofNat_of_zero_le hnonneg
  have hrat : ((1 * Decimal.tenTo k : Nat) : ℚ) ≤ d.toRat := by
    rw [Nat.one_mul, Decimal.cast_tenTo, ← zpow_natCast]
    exact hk ▸ d.zpow_leadingExponent_le hpos
  have hle : 1 * Decimal.tenTo k * (4 * one) ≤ 4 * x.magnitude + 2 * x.lastPlace := by
    exact_mod_cast le_trans (mul_le_mul_of_nonneg_right hrat (Nat.cast_nonneg _)) hd
  have := le_of_scaled_le Nat.one_pos (k := k) (by unfold BelowTop at hx; omega)
  omega

/-- What is at most half a place above a double does not overflow, with both its factors rounded,
except next to the largest one. -/
theorem isSome_scale?_of_le {digits : Nat} (hdigits : digits ≤ 0xffffffffffffffff)
    (hx : BelowTop x)
    (h : (digits : ℚ) * 10 ^ e * (4 * one : Nat) ≤ (4 * x.magnitude + 2 * x.lastPlace : Nat)) :
    (scale? (ofNat digits) e).isSome = true := by
  have hfinite := isFinite_ofNat hdigits
  rcases Int.le_total e 0 with he | he
  · exact isSome_scale?_of_nonpos hfinite he
  obtain ⟨k, rfl⟩ := Int.eq_ofNat_of_zero_le he
  have hbound : digits * Decimal.tenTo k * (4 * one) ≤ 2 * ((2 ^ 54 - 7) * 2 ^ 2045) := by
    have hle : digits * Decimal.tenTo k * (4 * one) ≤ 4 * x.magnitude + 2 * x.lastPlace := by
      rw [zpow_natCast] at h
      exact_mod_cast h
    unfold BelowTop at hx
    omega
  rcases Nat.eq_zero_or_pos digits with rfl | hpos
  · have hzero : (ofNat 0).isZero = true ∧ (ofNat 0).magnitude = 0 := by decide +kernel
    unfold scale?
    split
    · next hk =>
      have hproduct : ((ofNat 0).mul (powerOfTen k)).isInfinite = false := by
        refine not_isInfinite_mul hfinite (isFinite_powerOfTen hk) ?_
        rw [hzero.2, Nat.zero_mul]
        exact Nat.zero_le _
      simp [hproduct]
    · simp [hzero.1]
  · have hk : k ≤ 308 := le_of_scaled_le hpos hbound
    have hpower := isFinite_powerOfTen hk
    have hproduct : ((ofNat digits).mul (powerOfTen k)).isInfinite = false := by
      refine not_isInfinite_mul hfinite hpower ?_
      unfold largest
      exact product_le (magnitude_ofNat_le hpos hfinite)
        (magnitude_ofNat_le (Nat.pow_pos (by decide)) hpower) hbound
    simp [scale?, hk, he, hproduct]

/-! ## What the texts mean -/

open Source

variable {ws fs : List Char} {negative : Bool}

theorem isSome_ofParts? {digits : Nat} (h : (scale? (ofNat digits) e).isSome = true) :
    (ofParts? negative digits e).isSome = true := by
  obtain ⟨y, hy⟩ := Option.isSome_iff_exists.1 h
  simp [ofParts?, hy]

theorem ofDigitChars_lt {cs : List Char} (h : AllDigits cs) :
    Nat.ofDigitChars 10 cs 0 < 10 ^ cs.length := by
  induction cs with
  | nil => exact Nat.one_pos
  | cons c cs ih =>
    obtain ⟨hc, hcs⟩ := List.forall_mem_cons.1 h
    have hdigit : c.toNat - '0'.toNat ≤ 9 := by
      have := (Char.isDigit_iff_toNat.1 hc).2
      simp only [Char.reduceToNat] at *
      omega
    have hrest := ih hcs
    rw [Nat.ofDigitChars_cons, Nat.ofDigitChars_eq_ofDigitChars_zero, List.length_cons,
      Nat.pow_succ]
    have hmul : 10 ^ cs.length * (10 * 0 + (c.toNat - '0'.toNat)) ≤ 10 ^ cs.length * 9 :=
      Nat.mul_le_mul_left _ (by omega)
    omega

/-- The digits that are taken stand for no more than all of them. -/
theorem significand_spec (cs : List Char) (n : Nat) :
    (significand n cs).2.length ≤ cs.length ∧
      (significand n cs).1 * 10 ^ (significand n cs).2.length ≤ Nat.ofDigitChars 10 cs n := by
  induction cs generalizing n with
  | nil => simp [significand]
  | cons c cs ih =>
    unfold significand
    dsimp only
    split
    · obtain ⟨hlength, hvalue⟩ := ih (10 * n + digitValue c)
      rw [Nat.ofDigitChars_cons]
      exact ⟨Nat.le_succ_of_le hlength, hvalue⟩
    · refine ⟨Nat.le_refl _, ?_⟩
      rw [Nat.ofDigitChars_eq_ofDigitChars_zero, Nat.mul_comm]
      exact Nat.le_add_right _ _

/-- Sixteen digits before a point are taken, so the number is only made smaller. -/
theorem isSome_number?_point (negative : Bool) (hw : AllDigits ws) (hlength : ws.length ≤ 16)
    (hf : fs ≠ []) :
    (number? ⟨negative, ws, fs, none⟩).isSome = true := by
  have hvalue : Nat.ofDigitChars 10 ws 0 ≤ 0xffffffffffffffff := by
    have hpow : 10 ^ ws.length ≤ 10 ^ 16 := Nat.pow_le_pow_right (by decide) hlength
    have := ofDigitChars_lt hw
    omega
  have hunused := (significand_spec fs (Nat.ofDigitChars 10 ws 0)).1
  have hdigits := significand_le fs hvalue
  have hempty : fs.isEmpty = false := by simp [hf]
  simp only [number?, significand_eq hvalue, hempty, Bool.false_and, Bool.false_eq_true, if_false,
    List.length_nil]
  refine isSome_ofParts? (isSome_scale?_of_nonpos (isFinite_ofNat hdigits) ?_)
  omega

theorem isSome_number?_scientific (negative : Bool) {d : Decimal} {c : Char} (hx : BelowTop x)
    (hd : d.toRat * (4 * one : Nat) ≤ (4 * x.magnitude + 2 * x.lastPlace : Nat))
    (hzero : d.digits = 0 → d.exponent = 0) (hcs : Nat.toDigits 10 d.digits = c :: fs) :
    (number? ⟨negative, [c], fs, some (decide (d.leadingExponent < 0),
      Nat.toDigits 10 d.leadingExponent.natAbs)⟩).isSome = true := by
  have hall : AllDigits (c :: fs) := hcs ▸ allDigits_toDigits d.digits
  have hc : AllDigits [c] := List.forall_mem_singleton.2 (hall c List.mem_cons_self)
  have hfirst : Nat.ofDigitChars 10 [c] 0 ≤ 0xffffffffffffffff := by
    have := ofDigitChars_lt hc
    rw [List.length_singleton] at this
    omega
  have hvalue : Nat.ofDigitChars 10 fs (Nat.ofDigitChars 10 [c] 0) = d.digits := by
    have : Nat.ofDigitChars 10 (c :: fs) 0 = d.digits := hcs ▸ Nat.ofDigitChars_ten_toDigits
    rwa [Nat.ofDigitChars_cons] at this
  obtain ⟨hlength, htaken⟩ := significand_spec fs (Nat.ofDigitChars 10 [c] 0)
  rw [hvalue] at htaken
  have hdigits := significand_le fs hfirst
  have hexponent : (Nat.toDigits 10 d.leadingExponent.natAbs).foldl
      (fun e c => 10 * e + digitValue c) 0 = d.leadingExponent.natAbs := by
    have := Nat.ofDigitChars_ten_toDigits (n := d.leadingExponent.natAbs)
    rwa [Nat.ofDigitChars_eq_foldl] at this
  have hleading : d.leadingExponent = d.exponent + fs.length := by
    rw [Decimal.leadingExponent, Decimal.digitCount, hcs]
    rfl
  simp only [number?, significand_eq hfirst, Option.isNone_some, Bool.and_false,
    Bool.false_eq_true, if_false, hexponent, List.length_nil]
  generalize significand (Nat.ofDigitChars 10 [c] 0) fs = taken at hlength htaken hdigits
  split
  · refine isSome_ofParts? ?_
    by_cases hneg : d.leadingExponent < 0
    · rw [if_pos (decide_eq_true hneg)]
      exact isSome_scale?_of_nonpos (isFinite_ofNat hdigits) (by omega)
    · rw [if_neg (by simpa using hneg)]
      have he : ((0 : Nat) : Int) - ((fs.length : Int) - taken.2.length) + d.leadingExponent.natAbs
          = d.exponent + taken.2.length := by omega
      rw [he]
      refine isSome_scale?_of_le hdigits hx (le_trans ?_ hd)
      refine mul_le_mul_of_nonneg_right ?_ (Nat.cast_nonneg _)
      have hcast : (taken.1 : ℚ) * 10 ^ taken.2.length ≤ d.digits := by exact_mod_cast htaken
      calc (taken.1 : ℚ) * 10 ^ (d.exponent + taken.2.length)
          = taken.1 * 10 ^ taken.2.length * 10 ^ d.exponent := by
            rw [zpow_add₀ (by norm_num), zpow_natCast]
            ring
        _ ≤ d.toRat := mul_le_mul_of_nonneg_right hcast (zpow_nonneg (by norm_num) _)
  · next hlong =>
    -- So large an exponent belongs to no double.
    by_cases hneg : d.leadingExponent < 0
    · simp [hneg]
    · exfalso
      have hpos : 0 < d.digits := by
        refine Nat.pos_of_ne_zero fun h0 => ?_
        have hfs : fs = [] := by
          rw [h0] at hcs
          exact (List.cons.inj hcs).2.symm
        rw [hleading, hzero h0, hfs] at hlong
        simp at hlong
      have := leadingExponent_le hx hd hpos
      omega

/-- What is printed for a finite double is a numeral, and means a number. -/
theorem numeral_layOut {x : Binary64} (hx : x.isFinite = true) : ∃ n m,
    numeral (writeNumber (.float x)) = some (n, []) ∧ n.number? = some m := by
  have hprinted : writeNumber (.float x) = (x.layOut Binary64.inJson).toList := by
    rw [writeNumber, if_pos hx]
  rcases belowTop_or hx with htop | ⟨k, hk, hbits⟩
  · rw [hprinted]
    have hzero : (Decimal.shortest inJson.tie x).digits = 0 →
        (Decimal.shortest inJson.tie x).exponent = 0 := Decimal.exponent_eq_zero_of_shortest
    have hsize := Decimal.toRat_shortest_le inJson.tie x
    unfold layOut
    generalize Decimal.shortest inJson.tie x = d at hzero hsize
    dsimp only
    split
    · next hpos =>
      obtain ⟨ws, fs, htext, hw, hne, hf, hlength⟩ := Decimal.positional_text hzero
      have hplaces : ws.length ≤ 16 := by
        have hup : d.leadingExponent ≤ 15 := by
          simp only [inJson, Bool.and_eq_true, decide_eq_true_eq] at hpos
          exact hpos.2
        omega
      obtain ⟨m, hm⟩ := Option.isSome_iff_exists.1
        (isSome_number?_point x.isNegative hw.digits hplaces hne)
      refine ⟨_, m, ?_, hm⟩
      rw [String.toList_append]
      show numeral (_ ++ (d.positional ".0").toList) = _
      rw [htext]
      cases ws with
      | nil => exact absurd rfl hw.nonempty
      | cons c ws =>
        exact numeral_signed (hw.digits c List.mem_cons_self) (unsignedNumeral_point hw hne hf)
    · obtain ⟨c, fs, hcs, htext⟩ := Decimal.scientific_text d
      have hall : AllDigits (c :: fs) := hcs ▸ allDigits_toDigits d.digits
      obtain ⟨hc, hfs⟩ := List.forall_mem_cons.1 hall
      obtain ⟨m, hm⟩ := Option.isSome_iff_exists.1
        (isSome_number?_scientific x.isNegative htop hsize hzero hcs)
      refine ⟨_, m, ?_, hm⟩
      rw [String.toList_append, htext]
      exact numeral_signed hc (unsignedNumeral_scientific ⟨List.forall_mem_singleton.2 hc,
        List.cons_ne_nil _ _, fun _ => rfl⟩ hfs Nat.toDigits_ne_nil (allDigits_toDigits _))
  · have htried : ∀ k < 3, ((numeral (writeNumber (.float ⟨.ofNat (0x7fefffffffffffff - k)⟩))).any
        fun r => r.2.isEmpty && r.1.number?.isSome) = true ∧
        ((numeral (writeNumber (.float ⟨.ofNat (0xffefffffffffffff - k)⟩))).any
          fun r => r.2.isEmpty && r.1.number?.isSome) = true := by decide +kernel
    have htry : ((numeral (writeNumber (.float x))).any
        fun r => r.2.isEmpty && r.1.number?.isSome) = true := by
      rcases hbits with rfl | rfl
      · exact (htried k hk).1
      · exact (htried k hk).2
    cases hn : numeral (writeNumber (.float x)) with
    | none =>
      rw [hn] at htry
      cases htry
    | some r =>
      obtain ⟨n, r⟩ := r
      rw [hn, Option.any_some, Bool.and_eq_true, List.isEmpty_iff] at htry
      obtain ⟨rfl, hvalue⟩ := htry
      obtain ⟨m, hm⟩ := Option.isSome_iff_exists.1 hvalue
      exact ⟨n, m, rfl, hm⟩

end Json.Numeral

end AgentScheduler
