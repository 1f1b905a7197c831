/-
The texts of a double: as displayed, as written in JSON, and with a fixed
number of places; and the reading of decimal text.
-/
import AgentScheduler.Decimal.Shortest

namespace AgentScheduler

/-- How the digits of a double are laid out. -/
structure DecimalLayout where
  /-- Which of two equally near shortest decimals is written. -/
  tie : Decimal.Tie
  /-- The exponents of the first digit that are written positionally. -/
  positional : Int → Bool
  /-- What a number without decimal places ends in. -/
  whole : String

namespace Binary64

/-- Displayed doubles are always positional, and a whole number has no point. -/
def displayed : DecimalLayout := ⟨.up, fun _ => true, ""⟩

/-- Doubles in JSON have an exponent from `1e16` on and below `0.00001`, and a whole
number ends in `.0`. -/
def inJson : DecimalLayout := ⟨.toEven, fun e => -5 ≤ e && e ≤ 15, ".0"⟩

/-- A finite double in a layout. -/
def layOut (layout : DecimalLayout) (x : Binary64) : String :=
  let d := Decimal.shortest layout.tie x
  let sign := if x.isNegative then "-" else ""
  if layout.positional d.leadingExponent then sign ++ d.positional layout.whole
  else sign ++ d.scientific

/-- The displayed text of a double. -/
def display (x : Binary64) : String :=
  if x.isNaN then "NaN"
  else if x.isInfinite then if x.isNegative then "-inf" else "inf"
  else x.layOut displayed

/-- A finite double with exactly `places` digits behind the point, rounded from its exact
value, a tie to the even digit. -/
def fixed (places : Nat) (x : Binary64) : String :=
  let scaled := roundHalfEven (x.magnitude * Decimal.tenTo places) one
  let fraction := Nat.toDigits 10 (scaled % Decimal.tenTo places)
  (if x.isNegative then "-" else "") ++ toString (scaled / Decimal.tenTo places) ++ "."
    ++ Decimal.zeros (places - fraction.length) ++ String.ofList fraction

/-! ## Reading -/

/-- The value of a list of decimal digits. -/
def digitsValue (cs : List Char) : Nat := cs.foldl (fun n c => 10 * n + (c.toNat - 48)) 0

/-- Digits with at most one point, at least one digit in all: the digits before and
behind the point. -/
def splitPoint? (cs : List Char) : Option (List Char × List Char) :=
  let whole := cs.takeWhile Char.isDigit
  let split := match cs.dropWhile Char.isDigit with
    | [] => some (whole, [])
    | '.' :: rest => if rest.all Char.isDigit then some (whole, rest) else none
    | _ => none
  split.filter fun (a, b) => !a.isEmpty || !b.isEmpty

/-- A decimal exponent with an optional sign. -/
def exponent? : List Char → Option Int
  | '-' :: cs => if cs.isEmpty || !cs.all Char.isDigit then none else some (-digitsValue cs)
  | '+' :: cs => if cs.isEmpty || !cs.all Char.isDigit then none else some (digitsValue cs)
  | cs => if cs.isEmpty || !cs.all Char.isDigit then none else some (digitsValue cs)

/-- A decimal number without a sign: digits with a point anywhere, and an exponent. -/
def unsignedDecimal? (cs : List Char) : Option Decimal := do
  let isMark := fun c => c == 'e' || c == 'E'
  let (whole, fraction) ← splitPoint? (cs.takeWhile (!isMark ·))
  let exponent ← match cs.dropWhile (!isMark ·) with
    | [] => some 0
    | _ :: rest => exponent? rest
  some ⟨digitsValue (whole ++ fraction), exponent - fraction.length⟩

/-- A number without its sign: a decimal, correctly rounded, or the name of an infinity
or a NaN in any case. -/
def ofUnsigned? (negative : Bool) (cs : List Char) : Option Binary64 :=
  match String.ofList (cs.map Char.toLower) with
  | "inf" | "infinity" => some (.infinity negative)
  | "nan" => some (if negative then neg nan else nan)
  | _ => (unsignedDecimal? cs).map (Decimal.toBinary64 negative)

/-- The double that a text denotes: an optional sign and a decimal, correctly rounded. -/
def ofText? (s : String) : Option Binary64 :=
  match s.toList with
  | '-' :: cs => ofUnsigned? true cs
  | '+' :: cs => ofUnsigned? false cs
  | cs => ofUnsigned? false cs

end Binary64

end AgentScheduler
