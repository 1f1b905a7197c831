/-
IEEE 754 double precision as a word of bits, with exact arithmetic.

A finite double is `magnitude * 2^-1074` with a sign: `magnitude` is its
significand times a power of two, a natural number. An exact result is a ratio
`A / D` of the same unit, and `ofRatio` rounds it to the nearest double, a tie
to the even significand. So multiplication, division and the reading of
decimals are each one exact ratio, rounded once.
-/
namespace AgentScheduler

/-- A double precision number, as its 64 bits. Equality is equality of bits:
a NaN equals itself, and the two zeros differ. -/
structure Binary64 where
  bits : UInt64
  deriving DecidableEq, Inhabited

/-- `num / den` rounded to a whole number, a tie to the even one. -/
def roundHalfEven (num den : Nat) : Nat :=
  let q := num / den
  let r := num % den
  if 2 * r > den ∨ (2 * r = den ∧ q % 2 = 1) then q + 1 else q

namespace Binary64

/-! ## Fields -/

/-- The word whose only bit is the sign. -/
def signBit : Nat := 0x8000000000000000

/-- The least word with a set bit above the fraction: the step from one exponent to the
next, and the leading bit of a significand. -/
def exponentStep : Nat := 0x10000000000000

/-- One, counted in least positive doubles. -/
def one : Nat := Nat.pow 2 1074

/-- The sign bit is set. -/
def isNegative (x : Binary64) : Bool := signBit ≤ x.bits.toNat

/-- The eleven bits of the exponent. -/
def exponentField (x : Binary64) : Nat := x.bits.toNat / exponentStep % 2048

/-- The fifty-two bits of the fraction. -/
def fraction (x : Binary64) : Nat := x.bits.toNat % exponentStep

/-- Neither infinite nor a NaN. -/
def isFinite (x : Binary64) : Bool := x.exponentField != 2047

/-- Not a number. -/
def isNaN (x : Binary64) : Bool := x.exponentField == 2047 && x.fraction != 0

/-- One of the two infinities. -/
def isInfinite (x : Binary64) : Bool := x.exponentField == 2047 && x.fraction == 0

/-- The significand of a finite number, as a whole number. -/
def significand (x : Binary64) : Nat :=
  if x.exponentField = 0 then x.fraction else exponentStep + x.fraction

/-- The last place of a finite number is `2 ^ unit` times the least positive double. -/
def unit (x : Binary64) : Nat := x.exponentField - 1

/-- The last place of a finite number, counted in least positive doubles. -/
def lastPlace (x : Binary64) : Nat := Nat.pow 2 x.unit

/-- A finite number without its sign, counted in least positive doubles. -/
def magnitude (x : Binary64) : Nat := x.significand * x.lastPlace

/-- Either zero. -/
def isZero (x : Binary64) : Bool := x.isFinite && x.magnitude == 0

/-! ## Special values -/

/-- The word of an infinity without its sign. -/
def infinityWord : Nat := 0x7ff0000000000000

/-- A word without its sign bit, with the sign. -/
def ofMagnitudeWord (negative : Bool) (word : Nat) : Binary64 :=
  ⟨.ofNat (if negative then signBit + word else word)⟩

/-- The zero of a sign. -/
def zero (negative : Bool) : Binary64 := ofMagnitudeWord negative 0

/-- The infinity of a sign. -/
def infinity (negative : Bool) : Binary64 := ofMagnitudeWord negative infinityWord

/-- The quiet NaN without a payload. -/
def nan : Binary64 := ⟨0x7ff8000000000000⟩

/-- The number of the opposite sign. -/
def neg (x : Binary64) : Binary64 := ⟨x.bits ^^^ 0x8000000000000000⟩

/-! ## Rounding -/

/-- The word of the double nearest to `num / den` least positive doubles; an
infinity's word where the nearest one would need a larger exponent. -/
def roundWord (num den : Nat) : Nat :=
  let shift := Nat.log2 (num / den) - 52
  min infinityWord (shift * exponentStep + roundHalfEven num (den * Nat.pow 2 shift))

/-- The double nearest to `num / den` least positive doubles. -/
def ofRatio (negative : Bool) (num den : Nat) : Binary64 :=
  ofMagnitudeWord negative (roundWord num den)

/-- The double nearest to a whole number. -/
def ofNat (n : Nat) : Binary64 := ofRatio false (n * one) 1

/-- The double nearest to a whole number with a sign. -/
def ofInt (i : Int) : Binary64 := ofRatio (i < 0) (i.natAbs * one) 1

/-! ## Arithmetic -/

/-- The product, correctly rounded. -/
def mul (x y : Binary64) : Binary64 :=
  let negative := x.isNegative != y.isNegative
  if x.isNaN || y.isNaN then nan
  else if x.isInfinite || y.isInfinite then
    if x.isZero || y.isZero then nan else infinity negative
  else ofRatio negative (x.magnitude * y.magnitude) one

/-- The quotient, correctly rounded. -/
def div (x y : Binary64) : Binary64 :=
  let negative := x.isNegative != y.isNegative
  if x.isNaN || y.isNaN then nan
  else if x.isInfinite then if y.isInfinite then nan else infinity negative
  else if y.isInfinite then zero negative
  else if y.isZero then if x.isZero then nan else infinity negative
  else ofRatio negative (x.magnitude * one) y.magnitude

/-- Equal as numbers: the two zeros are equal, and a NaN equals nothing. -/
def sameNumber (x y : Binary64) : Bool :=
  !x.isNaN && !y.isNaN && (x == y || (x.isZero && y.isZero))

/-- The nearest whole number, a tie away from zero, brought into the range of 64-bit
integers; a NaN gives zero. -/
def roundToInt64 (x : Binary64) : Int64 :=
  if x.isNaN then 0
  else if x.isInfinite then if x.isNegative then Int64.minValue else Int64.maxValue
  else
    let whole : Nat := (2 * x.magnitude + one) / (2 * one)
    let signed : Int := if x.isNegative then -whole else whole
    if signed ≤ -0x8000000000000000 then Int64.minValue
    else if 0x8000000000000000 ≤ signed then Int64.maxValue
    else .ofInt signed

end Binary64

end AgentScheduler
