import Worksheet.Decimal.Binary64
/-!
# Shortest digits

The fewest decimal digits that read back as a given double, and of those the ones nearest to it; a
tie goes up. The numbers that read back as `m · 2 ^ q` form an interval, its ends included exactly
when `m` is even. On each decimal grid only the two neighbours of the double can be nearest, so it
is enough to try these, from one digit upward.

* `Digits` is a decimal: digits and the place of the point;
* `onGrid?` tries the two neighbours on one grid;
* `Binary64.shortest` gives the digits of a finite double that is not zero.
-/

namespace Worksheet

/-- The decimal `0.d₁d₂…dₙ · 10 ^ point`, with `d₁` and `dₙ` not zero. -/
structure Digits where
  digits : List Char
  point : Int
  deriving DecidableEq, Inhabited

namespace Digits

/-- The digits of `n · 10 ^ exponent` without zeros at the end. -/
def ofScaled (n : Nat) (exponent : Int) : Digits :=
  let all := Nat.toDigits 10 n
  ⟨(all.reverse.dropWhile (· == '0')).reverse, (all.length : Int) + exponent⟩

end Digits

namespace Binary64

/-- Four times the interval of numbers that round to `m · 2 ^ q`, as `(low, value, high)`, in units
of `2 ^ (q - 2)`. Below a power of two the neighbour is only half as far away. -/
def interval (x : Binary64) : Nat × Nat × Nat :=
  let m := x.mantissa
  let low := if m = Nat.pow 2 52 ∧ 1 < x.exponentField then 4 * m - 1 else 4 * m - 2
  (low, 4 * m, 4 * m + 2)

/-- The neighbour of `x` on the grid `10 ^ e` that reads back as `x`, the nearer one if both do. -/
def onGrid? (x : Binary64) (e : Int) : Option Nat :=
  let (low, value, high) := x.interval
  let q := x.scale - 2
  let up := Nat.pow 2 q.toNat * Nat.pow 10 (-e).toNat
  let unit := Nat.pow 2 (-q).toNat * Nat.pow 10 e.toNat
  let below := value * up / unit
  let even := x.mantissa % 2 = 0
  let hitsBelow : Bool := low * up < below * unit || (even && low * up == below * unit)
  let hitsAbove : Bool := (below + 1) * unit < high * up || (even && (below + 1) * unit == high * up)
  let nearerAbove : Bool := unit ≤ 2 * (value * up - below * unit)
  if hitsBelow && hitsAbove then some (if nearerAbove then below + 1 else below)
  else if hitsBelow then some below
  else if hitsAbove then some (below + 1)
  else none

/-- The place of the point: the least `p` with `x < 10 ^ p`, for a finite `x` other than zero. -/
def pointPlace (x : Binary64) : Int :=
  let num := x.mantissa * Nat.pow 2 x.scale.toNat
  let den := Nat.pow 2 (-x.scale).toNat
  if den ≤ num then (Nat.toDigits 10 (num / den)).length
  else 1 - ((Nat.toDigits 10 ((den - 1) / num)).length : Int)

/-- Tries `digits`, `digits + 1`, … digits, at most `tries` times. -/
def shortestFrom (x : Binary64) (point : Int) (digits : Nat) : Nat → Digits
  | 0 => Digits.ofScaled x.mantissa x.scale
  | tries + 1 =>
    match x.onGrid? (point - digits) with
    | some n => Digits.ofScaled n (point - digits)
    | none => shortestFrom x point (digits + 1) tries

/-- The shortest digits of a finite double that is not zero. Seventeen are always enough. -/
def shortest (x : Binary64) : Digits :=
  shortestFrom x x.pointPlace 1 17

end Binary64

end Worksheet
