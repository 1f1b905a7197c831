/-
What a JSON numeral means: an integer of 64 bits where it is one, else a
double.

The double is not always the nearest one. Its first digits, as many as fit
into 64 bits, are rounded to a double; that double is then multiplied or
divided by a power of ten, and the result is rounded once more. A numeral
beyond the largest double has no value.
-/
import AgentScheduler.Decimal
import AgentScheduler.Json
import AgentScheduler.Json.Source

namespace AgentScheduler.Json.Numeral

/-- The value of a digit. -/
def digitValue (c : Char) : Nat := c.toNat - 48

/-- Takes digits into a number while it fits into 64 bits; the digits left over. -/
def significand : Nat → List Char → Nat × List Char
  | n, [] => (n, [])
  | n, c :: cs =>
    let next := 10 * n + digitValue c
    if next ≤ 0xffffffffffffffff then significand next cs else (n, c :: cs)

/-- The double nearest to a power of ten. -/
def powerOfTen (n : Nat) : Binary64 := .ofNat (Decimal.tenTo n)

/-- A double times a power of ten; none where it overflows. Below the powers that doubles
have, the first 308 places are divided off on their own; what more than another 308 are
divided off from is zero. -/
def scale? (x : Binary64) (exponent : Int) : Option Binary64 :=
  if exponent.natAbs ≤ 308 then
    if 0 ≤ exponent then
      let product := x.mul (powerOfTen exponent.natAbs)
      if product.isInfinite then none else some product
    else some (x.div (powerOfTen exponent.natAbs))
  else if x.isZero then some x
  else if 0 ≤ exponent then none
  else if -616 ≤ exponent then
    some ((x.div (powerOfTen 308)).div (powerOfTen (-(exponent + 308)).toNat))
  else some (.zero false)

/-- A double with a sign from its first digits and a power of ten. -/
def ofParts? (negative : Bool) (digits : Nat) (exponent : Int) : Option Number := do
  let x ← scale? (.ofNat digits) exponent
  some (.float (if negative then x.neg else x))

/-- A numeral without point and exponent, all of whose digits fit into 64 bits: minus zero
and what is below the signed integers are doubles. -/
def ofWhole (negative : Bool) (n : Nat) : Number :=
  if !negative then .int n
  else if n = 0 ∨ 0x8000000000000000 < n then .float (Binary64.ofNat n).neg
  else .int (-n)

/-- The value of a numeral. An exponent that does not fit into 32 bits leaves only zero
or an overflow. -/
def number? (n : Numeral) : Option Number :=
  let (whole, surplus) := significand 0 n.whole
  if n.fraction.isEmpty && n.exponent.isNone then
    if surplus.isEmpty then some (ofWhole n.negative whole)
    else ofParts? n.negative whole surplus.length
  else
    let (digits, unused) := significand whole n.fraction
    let places : Int := surplus.length - ((n.fraction.length : Int) - unused.length)
    match n.exponent with
    | none => ofParts? n.negative digits places
    | some (below, es) =>
      let exponent := es.foldl (fun e c => 10 * e + digitValue c) 0
      if exponent ≤ 0x7fffffff then
        ofParts? n.negative digits (if below then places - exponent else places + exponent)
      else if digits ≠ 0 ∧ !below then none
      else some (.float (.zero n.negative))

end AgentScheduler.Json.Numeral
