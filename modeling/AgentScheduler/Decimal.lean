/-
Decimal digits: whole numbers `digits * 10 ^ exponent`, how one is read as a
double, and the two ways of writing one, positional and with an exponent.
-/
import AgentScheduler.Binary64

namespace AgentScheduler

/-- The number `digits * 10 ^ exponent`. -/
structure Decimal where
  digits : Nat
  exponent : Int
  deriving DecidableEq, Inhabited

namespace Decimal

/-- A power of ten. -/
def tenTo (n : Nat) : Nat := Nat.pow 10 n

/-- How many decimal digits a number is written with; zero has one. -/
def digitCount (n : Nat) : Nat := (Nat.toDigits 10 n).length

/-- The exponent of the first digit. -/
def leadingExponent (d : Decimal) : Int := d.exponent + (digitCount d.digits - 1 : Nat)

/-- The same number without trailing zeros. -/
def trim (d : Decimal) : Decimal :=
  let cs := Nat.toDigits 10 d.digits
  let zeros := (cs.reverse.takeWhile (· == '0')).length
  if d.digits = 0 then ⟨0, 0⟩ else ⟨d.digits / tenTo zeros, d.exponent + zeros⟩

/-- The double nearest to a decimal. A first digit beyond the three hundred and tenth
place overflows, one below the three hundred and thirtieth is less than half of the
least positive double. -/
def toBinary64 (negative : Bool) (d : Decimal) : Binary64 :=
  if d.digits = 0 then .zero negative
  else if 310 < d.leadingExponent then .infinity negative
  else if d.leadingExponent < -330 then .zero negative
  else if 0 ≤ d.exponent then .ofRatio negative (d.digits * tenTo d.exponent.toNat * Binary64.one) 1
  else .ofRatio negative (d.digits * Binary64.one) (tenTo (-d.exponent).toNat)

/-- Zeros. -/
def zeros (n : Nat) : String := String.ofList (List.replicate n '0')

/-- All digits up to the point, and as many behind it as the number has; `whole` is
written behind a number without any. -/
def positional (d : Decimal) (whole : String) : String :=
  let cs := Nat.toDigits 10 d.digits
  if 0 ≤ d.exponent then String.ofList cs ++ zeros d.exponent.toNat ++ whole
  else
    let places := (-d.exponent).toNat
    if places < cs.length then
      String.ofList (cs.take (cs.length - places)) ++ "."
        ++ String.ofList (cs.drop (cs.length - places))
    else "0." ++ zeros (places - cs.length) ++ String.ofList cs

/-- One digit before the point, the others behind it, and the exponent with its sign. -/
def scientific (d : Decimal) : String :=
  let cs := Nat.toDigits 10 d.digits
  let fraction := if cs.length ≤ 1 then "" else "." ++ String.ofList (cs.drop 1)
  let e := d.leadingExponent
  String.ofList (cs.take 1) ++ fraction ++ "e" ++ (if e < 0 then "-" else "+")
    ++ toString e.natAbs

end Decimal

end AgentScheduler
