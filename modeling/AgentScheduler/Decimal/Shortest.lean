/-
The shortest decimal that reads back as a given double.

The reals that round to a double form an interval, closed exactly when its
significand is even. On the grid of the decimals with `n` digits only the two
neighbours of the value need a test, for `n` = 1, 2, …, 17: the first grid with
a hit wins, and of two hits the nearer.
-/
import AgentScheduler.Decimal

namespace AgentScheduler.Decimal

/-- Where a double lies halfway between its two shortest decimals, one of them is taken. -/
inductive Tie
  | up
  | toEven
  deriving DecidableEq

/-- The exponent of the first decimal digit of `num / den`, a positive ratio. -/
def ratioExponent (num den : Nat) : Int :=
  if den ≤ num then (digitCount (num / den) - 1 : Nat) else -(digitCount ((den - 1) / num) : Int)

/-- The reals that round to a finite, nonzero double, in quarters of the least positive
double. -/
structure Interval where
  low : Nat
  value : Nat
  high : Nat
  closed : Bool

/-- The interval of a double. The number below a power of two is only half as far away. -/
def Interval.of (x : Binary64) : Interval where
  value := 4 * x.magnitude
  low := 4 * x.magnitude
    - (if x.significand = Binary64.exponentStep ∧ 0 < x.unit then 1 else 2) * x.lastPlace
  high := 4 * x.magnitude + 2 * x.lastPlace
  closed := x.significand % 2 == 0

/-- The decimals next to the value on the grid `10 ^ exponent` that lie in its interval:
the nearer one, if there is any. -/
def Interval.nearestOnGrid? (i : Interval) (tie : Tie) (exponent : Int) : Option Nat :=
  let up := tenTo (-exponent).toNat
  let step := 4 * Binary64.one * tenTo exponent.toNat
  let value := i.value * up
  let below := value / step
  let hit (d : Nat) : Bool :=
    if i.closed then i.low * up ≤ d * step && d * step ≤ i.high * up
    else i.low * up < d * step && d * step < i.high * up
  match hit below, hit (below + 1) with
  | false, false => none
  | true, false => some below
  | false, true => some (below + 1)
  | true, true =>
    let rest := 2 * (value % step)
    if rest < step then some below
    else if step < rest then some (below + 1)
    else match tie with
      | .up => some (below + 1)
      | .toEven => some (if below % 2 = 0 then below else below + 1)

/-- The first hit on the grids with `n`, `n + 1`, … digits, `left` of them. -/
def Interval.shortest? (i : Interval) (tie : Tie) (first : Int) : Nat → Nat → Option Decimal
  | _, 0 => none
  | n, left + 1 =>
    let exponent := first - (n - 1 : Nat)
    match i.nearestOnGrid? tie exponent with
    | some d => some (trim ⟨d, exponent⟩)
    | none => shortest? i tie first (n + 1) left

/-- The shortest decimal that reads back as `x` without its sign; zero for a number that
is zero or not finite. Seventeen digits are always enough. -/
def shortest (tie : Tie) (x : Binary64) : Decimal :=
  if x.magnitude = 0 ∨ !x.isFinite then ⟨0, 0⟩
  else
    ((Interval.of x).shortest? tie (ratioExponent x.magnitude Binary64.one) 1 17).getD ⟨0, 0⟩

end AgentScheduler.Decimal
